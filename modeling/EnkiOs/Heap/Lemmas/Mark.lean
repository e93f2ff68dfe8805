import EnkiOs.Heap.Basic

/-!
# 表への記録
-/

namespace EnkiOs
open Machine

/-- 番号 `s` から `e` までの割り当ての、番号 `j` の値。`HAS_NEXT` は最後のブロックだけが持たない。 -/
def takenEntry (s e j : Int) : Byte :=
  HEAP_BLOCK_TABLE_ENTRY_TAKEN ||| (if j = s then HEAP_BLOCK_IS_FIRST else 0) |||
    (if j = e then 0 else HEAP_BLOCK_HAS_NEXT)

theorem takenEntry_type (s e j : Int) :
    heapGetEntryType (takenEntry s e j) = HEAP_BLOCK_TABLE_ENTRY_TAKEN := by
  unfold takenEntry
  split <;> split <;> decide

theorem takenEntry_ne_free (s e j : Int) :
    heapGetEntryType (takenEntry s e j) ≠ HEAP_BLOCK_TABLE_ENTRY_FREE := by
  rw [takenEntry_type]
  decide

theorem takenEntry_hasNext {s e j : Int} : takenEntry s e j &&& HEAP_BLOCK_HAS_NEXT = 0 ↔ j = e := by
  unfold takenEntry
  split <;> split <;> rename_i he <;> simp only [he, iff_true, iff_false] <;> decide

theorem takenEntry_isFirst {s e j : Int} : takenEntry s e j &&& HEAP_BLOCK_IS_FIRST = 0 ↔ j ≠ s := by
  unfold takenEntry
  split <;> split <;> rename_i hs _ <;> simp only [hs, ne_eq, not_true_eq_false, not_false_eq_true, iff_false, iff_true] <;>
    decide

@[simp] theorem HeapTable.set_entries (t : HeapTable) (i j : Int) (entry : Byte) :
    (t.set i entry).entries j = if j = i then entry else t.entries j := rfl

@[simp] theorem HeapTable.set_length (t : HeapTable) (i : Int) (entry : Byte) :
    (t.set i entry).length = t.length := rfl

/-! ## 割り当ての記録 -/

@[simp] theorem heapMarkTakenLoop_length {e : Int} {k : Nat} {i : Int} {entry : Byte} {t : HeapTable} :
    (heapMarkTakenLoop e k i entry t).length = t.length := by
  induction k generalizing i entry t with
  | zero => rfl
  | succ k ih => rw [heapMarkTakenLoop, ih, HeapTable.set_length]

/-- 始めの番号より前には書かない。 -/
theorem heapMarkTakenLoop_below {e : Int} {k : Nat} {i j : Int} {entry : Byte} {t : HeapTable} (hj : j < i) :
    (heapMarkTakenLoop e k i entry t).entries j = t.entries j := by
  induction k generalizing i entry t with
  | zero => rfl
  | succ k ih => rw [heapMarkTakenLoop, ih (by omega), HeapTable.set_entries, if_neg (by omega)]

/-- 繰り返しは、次に書く値を一回前に決める。その値はいつも `takenEntry` の値である。 -/
theorem heapMarkTakenLoop_entries {s e : Int} {k : Nat} {i : Int} {entry : Byte} {t : HeapTable}
    (hs : s ≤ i) (hk : e + 1 = i + k) (hentry : 0 < k → entry = takenEntry s e i) (j : Int) :
    (heapMarkTakenLoop e k i entry t).entries j =
      if i ≤ j ∧ j ≤ e then takenEntry s e j else t.entries j := by
  induction k generalizing i entry t with
  | zero => rw [heapMarkTakenLoop, if_neg (by omega)]
  | succ k ih =>
      have hnext : 0 < k → (if i ≠ e - 1 then HEAP_BLOCK_TABLE_ENTRY_TAKEN ||| HEAP_BLOCK_HAS_NEXT
          else HEAP_BLOCK_TABLE_ENTRY_TAKEN) = takenEntry s e (i + 1) := by
        intro hk0
        unfold takenEntry
        rw [if_neg (show ¬ i + 1 = s by omega)]
        by_cases he : i = e - 1
        · rw [if_neg (by simpa using he), if_pos (by omega)]
          rfl
        · rw [if_pos he, if_neg (by omega)]
          rfl
      rw [heapMarkTakenLoop, ih (by omega) (by omega) hnext]
      simp only [HeapTable.set_entries, hentry (by omega)]
      by_cases hj : j = i
      · subst hj
        rw [if_neg (by omega), if_pos rfl, if_pos (by omega)]
      · rw [if_neg hj]
        by_cases hr : i + 1 ≤ j ∧ j ≤ e
        · rw [if_pos hr, if_pos (by omega)]
        · rw [if_neg hr, if_neg (by omega)]

theorem heapMarkBlocksTaken_entries {h : Heap} {s m : Nat} (hm : 0 < m) (hb : s + m < 2 ^ 31) (j : Int) :
    (heapMarkBlocksTaken h s m).table.entries j =
      if (s : Int) ≤ j ∧ j < s + m then takenEntry s (s + m - 1) j else h.table.entries j := by
  have he : i32 ((s : Int) + m - 1) = s + m - 1 := i32_of_bounds (by omega) (by omega)
  simp only [heapMarkBlocksTaken, he]
  rw [heapMarkTakenLoop_entries (s := s) (by omega) (by omega)]
  · by_cases hr : (s : Int) ≤ j ∧ j < s + m
    · rw [if_pos hr, if_pos (by omega)]
    · rw [if_neg hr, if_neg (by omega)]
  · intro _
    unfold takenEntry
    by_cases h1 : m = 1
    · rw [if_neg (by omega), if_pos rfl, if_pos (by omega)]
      rfl
    · rw [if_pos (by omega), if_pos rfl, if_neg (by omega)]

@[simp] theorem heapMarkBlocksTaken_length (h : Heap) (s m : Int) :
    (heapMarkBlocksTaken h s m).table.length = h.table.length := by
  simp [heapMarkBlocksTaken]

@[simp] theorem heapMarkBlocksTaken_startAddr (h : Heap) (s m : Int) :
    (heapMarkBlocksTaken h s m).startAddr = h.startAddr := rfl

/-! ## 解放の記録 -/

@[simp] theorem heapMarkFreeLoop_length {k : Nat} {i : Int} {t : HeapTable} :
    (heapMarkFreeLoop k i t).length = t.length := by
  induction k generalizing i t with
  | zero => rfl
  | succ k ih =>
      rw [heapMarkFreeLoop]
      split
      · rfl
      · rw [ih, HeapTable.set_length]

/-- 番号 `i` から、`HAS_NEXT` を持たない最初の番号 `e` までが空きになる。 -/
theorem heapMarkFreeLoop_entries {e : Int} {k : Nat} {i : Int} {t : HeapTable} (hi : i ≤ e)
    (hk : e < i + k)
    (hnext : ∀ j, i ≤ j → j ≤ e → (t.entries j &&& HEAP_BLOCK_HAS_NEXT = 0 ↔ j = e)) (j : Int) :
    (heapMarkFreeLoop k i t).entries j =
      if i ≤ j ∧ j ≤ e then HEAP_BLOCK_TABLE_ENTRY_FREE else t.entries j := by
  induction k generalizing i t with
  | zero => omega
  | succ k ih =>
      rw [heapMarkFreeLoop]
      by_cases hie : i = e
      · subst hie
        rw [if_pos ((hnext i (Int.le_refl _) (Int.le_refl _)).mpr rfl), HeapTable.set_entries]
        by_cases hj : j = i
        · rw [if_pos hj, if_pos (by omega)]
        · rw [if_neg hj, if_neg (by omega)]
      · rw [if_neg (fun h0 => hie ((hnext i (Int.le_refl _) hi).mp h0)), ih (by omega) (by omega)]
        · rw [HeapTable.set_entries]
          by_cases hr : i + 1 ≤ j ∧ j ≤ e
          · rw [if_pos hr, if_pos (by omega)]
          · rw [if_neg hr]
            by_cases hj : j = i
            · rw [if_pos hj, if_pos (by omega)]
            · rw [if_neg hj, if_neg (by omega)]
        · intro j' h1 h2
          rw [HeapTable.set_entries, if_neg (by omega)]
          exact hnext j' (by omega) h2

/-- `HAS_NEXT` を持たない番号 `e` を越えて書くことはない。 -/
theorem heapMarkFreeLoop_beyond {e : Int} {k : Nat} {i : Int} {t : HeapTable} (hi : i ≤ e)
    (hstop : t.entries e &&& HEAP_BLOCK_HAS_NEXT = 0) {j : Int} (hj : e < j) :
    (heapMarkFreeLoop k i t).entries j = t.entries j := by
  induction k generalizing i t with
  | zero => rfl
  | succ k ih =>
      rw [heapMarkFreeLoop]
      split
      · rw [HeapTable.set_entries, if_neg (by omega)]
      · rename_i hnext
        have hne : i ≠ e := by rintro rfl; exact hnext hstop
        rw [ih (by omega) (by rwa [HeapTable.set_entries, if_neg (by omega)]), HeapTable.set_entries,
          if_neg (by omega)]

@[simp] theorem heapFree_length (h : Heap) (addr : Word) :
    (heapFree h addr).table.length = h.table.length := by
  simp [heapFree, heapMarkBlocksFree]

@[simp] theorem heapFree_startAddr (h : Heap) (addr : Word) :
    (heapFree h addr).startAddr = h.startAddr := rfl

/-! ## 番号とアドレスの対応 -/

theorem heapBlockToAddress_sub {h : Heap} {s : Nat} (hs : s < 2 ^ 20) :
    (heapBlockToAddress h s - h.startAddr).toNat = 4096 * s := by
  unfold heapBlockToAddress
  rw [BitVec.add_comm, BitVec.add_sub_cancel, ofInt_i32]
  simp only [ENKI_HEAP_BLOCK_SIZE]
  rw [toNat_ofInt_of_bounds (by omega) (by omega)]
  omega

/-- 差が `2^31` より小さいアドレスは、元の番号へ戻る。 -/
theorem heapAddressToBlock_of_lt {h : Heap} {addr : Word} (hlt : (addr - h.startAddr).toNat < 2 ^ 31) :
    heapAddressToBlock h addr = ((addr - h.startAddr).toNat / 4096 : Nat) := by
  unfold heapAddressToBlock
  rw [toInt_of_lt hlt]
  rfl

/-- 差が `2^31` 以上のアドレスは、負の番号になる。 -/
theorem heapAddressToBlock_neg {h : Heap} {addr : Word} (hle : 2 ^ 31 ≤ (addr - h.startAddr).toNat)
    (hpage : (addr - h.startAddr).toNat % 4096 = 0) :
    heapAddressToBlock h addr = ((addr - h.startAddr).toNat / 4096 : Nat) - 2 ^ 20 := by
  unfold heapAddressToBlock
  rw [toInt_of_le hle]
  have hlt := (addr - h.startAddr).isLt
  simp only [ENKI_HEAP_BLOCK_SIZE]
  generalize (addr - h.startAddr).toNat = d at *
  obtain ⟨q, rfl⟩ : ∃ q, d = 4096 * q := ⟨d / 4096, by omega⟩
  have : ((4096 * q : Nat) : Int) - 2 ^ 32 = (4096 : Nat) * ((q : Int) - 2 ^ 20) := by omega
  rw [this, Int.mul_tdiv_cancel_left _ (by decide)]
  omega

end EnkiOs
