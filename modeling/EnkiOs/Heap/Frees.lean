import EnkiOs.Heap.Lemmas.Live

/-!
# 解放の呼び出しの列

`heap_free` を続けて呼ぶときの、アドレスの列。どの呼び出しも、その時点で生きている割り当てに対するものかを問う。
-/

namespace EnkiOs
open Machine Extents

variable {h : Heap} {live : List Allocation} {a : Allocation} {calls : List Word}

/-- `heap_mark_blocks_free` の書き込む番号。残りの回数と `i` を持つ。 -/
def heapFreeIndices (table : HeapTable) : Nat → Int → List Int
  | 0, _ => []
  | k + 1, i => i :: if table.entries i &&& HEAP_BLOCK_HAS_NEXT = 0 then [] else heapFreeIndices table k (i + 1)

/-- `heap_free(addr)` の書き込む番号。 -/
def heapFreeWrites (h : Heap) (addr : Word) : List Int :=
  heapFreeIndices h.table (h.table.length.toInt - heapAddressToBlock h addr).toNat (heapAddressToBlock h addr)

theorem heapFreeIndices_ge {table : HeapTable} {k : Nat} {i j : Int} (hj : j ∈ heapFreeIndices table k i) : i ≤ j := by
  induction k generalizing i with
  | zero => cases hj
  | succ k ih =>
      rw [heapFreeIndices] at hj
      rcases List.mem_cons.1 hj with rfl | hj
      · exact Int.le_refl _
      · split at hj
        · cases hj
        · have := ih hj
          omega

/-- 書き込むのは、先の値を読みながら進む番号だけである。書き込んだ番号を後で読むことはない。 -/
theorem heapFreeIndices_congr {t t' : HeapTable} {k : Nat} {i : Int} (h : ∀ j, i ≤ j → t'.entries j = t.entries j) :
    heapFreeIndices t' k i = heapFreeIndices t k i := by
  induction k generalizing i with
  | zero => rfl
  | succ k ih => rw [heapFreeIndices, heapFreeIndices, h i (Int.le_refl _), ih fun j hj => h j (by omega)]

theorem heapMarkFreeLoop_indices (k : Nat) (i j : Int) (t : HeapTable) :
    (heapMarkFreeLoop k i t).entries j =
      if j ∈ heapFreeIndices t k i then HEAP_BLOCK_TABLE_ENTRY_FREE else t.entries j := by
  induction k generalizing i t with
  | zero => rfl
  | succ k ih =>
      rw [heapMarkFreeLoop, heapFreeIndices]
      by_cases hstop : t.entries i &&& HEAP_BLOCK_HAS_NEXT = 0
      · rw [if_pos hstop, if_pos hstop, HeapTable.set_entries]
        simp
      · rw [if_neg hstop, if_neg hstop, ih,
          heapFreeIndices_congr (t := t) (i := i + 1) fun j hj => by rw [HeapTable.set_entries, if_neg (by omega)],
          HeapTable.set_entries]
        by_cases hji : j = i
        · simp [hji]
        · simp [hji]

/-- 解放は、`heapFreeWrites` の番号を空きにする。 -/
theorem heapFree_writes (h : Heap) (addr : Word) (j : Int) :
    (heapFree h addr).table.entries j =
      if j ∈ heapFreeWrites h addr then HEAP_BLOCK_TABLE_ENTRY_FREE else h.table.entries j :=
  heapMarkFreeLoop_indices _ _ _ _

theorem heapFreeIndices_le {table : HeapTable} {k : Nat} {i j e : Int} (hi : i ≤ e)
    (hstop : table.entries e &&& HEAP_BLOCK_HAS_NEXT = 0) (hj : j ∈ heapFreeIndices table k i) : j ≤ e := by
  induction k generalizing i with
  | zero => cases hj
  | succ k ih =>
      rw [heapFreeIndices] at hj
      rcases List.mem_cons.1 hj with rfl | hj
      · exact hi
      · split at hj
        · cases hj
        · rename_i hnext
          have hne : i ≠ e := by
            rintro rfl
            exact hnext hstop
          exact ih (by omega) hj

/-! ## 生きている割り当ての解放 -/

/-- 生きている割り当ての先頭である。 -/
def LiveAddr (h : Heap) (addr : Word) : Prop := ∃ live, HeapInv h live ∧ ∃ a ∈ live, a.addr = addr

/-- 続けて解放するとき、どのアドレスもその時点で生きている割り当てであり、書き込みは表の中に収まる。 -/
def FreesLive : Heap → List Word → Prop
  | _, [] => True
  | h, addr :: calls =>
      LiveAddr h addr ∧ (∀ j ∈ heapFreeWrites h addr, 0 ≤ j ∧ j < h.table.length.toNat) ∧ FreesLive (kfree h addr) calls

theorem HeapInv.entry (hi : HeapInv h live) (ha : a ∈ live) {i : Nat} (hc : (a.extent h.startAddr).Covers i) :
    h.table.entries i = extentEntry (a.extent h.startAddr) i := by
  obtain ⟨n, l, hext, hl⟩ := hi.encoded
  have he : a.extent h.startAddr ∈ l.extents := by rw [hext]; exact List.mem_map_of_mem ha
  have hin := l.inside _ he
  have hlt := hc.2
  rw [hl.entries_eq i (by omega), Layout.encode_of_covers he hc]

/-- 生きている割り当ての先頭は、表だけで決まる。 -/
theorem HeapInv.mem_of_liveAddr (hi : HeapInv h live) (hk : KernelHeap h) {addr : Word} (hl : LiveAddr h addr) :
    ∃ a ∈ live, a.addr = addr := by
  obtain ⟨live', hi', x, hx, rfl⟩ := hl
  obtain ⟨b, hb, haddr, hfirst⟩ := hi'.block hk hx
  have hpos := blocksFor_pos x.pos
  have hcount : (x.extent h.startAddr).count = blocksFor x.size := rfl
  have hcov : (x.extent h.startAddr).Covers b := ⟨by omega, by omega⟩
  have hentry := hi'.entry hx hcov
  have htaken : ¬ ∀ a ∈ live, ¬ (a.extent h.startAddr).Covers b := by
    rw [← hi.freeAt_iff (by rw [hk.length_eq]; omega), hi'.taken hx hcov]
    simp
  simp only [not_forall, not_not] at htaken
  obtain ⟨a, ha, hca⟩ := htaken
  refine ⟨a, ha, ?_⟩
  obtain ⟨c, hc, haddr', hfirst'⟩ := hi.block hk ha
  rw [hi.entry ha hca, extentEntry, extentEntry, hfirst, hfirst'] at hentry
  have hbc : (b : Int) = c := by
    by_contra hne
    have hnot : takenEntry c (c + (a.extent h.startAddr).count - 1) b &&& HEAP_BLOCK_IS_FIRST = 0 :=
      takenEntry_isFirst.2 hne
    rw [hentry] at hnot
    exact takenEntry_isFirst.1 hnot rfl
  rw [haddr, haddr', Int.natCast_inj.1 hbc]

/-- 割り当ての最後のブロックは `HAS_NEXT` を持たない。 -/
theorem HeapInv.last_stops (hi : HeapInv h live) (ha : a ∈ live) {b : Nat} (hb : (a.extent h.startAddr).first = b) :
    h.table.entries ((b : Int) + blocksFor a.size - 1) &&& HEAP_BLOCK_HAS_NEXT = 0 := by
  have hcount : (a.extent h.startAddr).count = blocksFor a.size := rfl
  have hpos := blocksFor_pos a.pos
  have hentry := hi.entry ha (i := b + blocksFor a.size - 1) ⟨by omega, by omega⟩
  rw [extentEntry, hb, hcount] at hentry
  rw [show (b : Int) + blocksFor a.size - 1 = (b + blocksFor a.size - 1 : Nat) by omega, hentry]
  exact takenEntry_hasNext.2 (by omega)

theorem HeapInv.writes_inside (hi : HeapInv h live) (hk : KernelHeap h) (ha : a ∈ live) :
    ∀ j ∈ heapFreeWrites h a.addr, 0 ≤ j ∧ j < h.table.length.toNat := by
  intro j hj
  obtain ⟨b, hb, haddr, hfirst⟩ := hi.block hk ha
  have hstop := hi.last_stops ha hfirst
  have hpos := blocksFor_pos a.pos
  rw [heapFreeWrites, hk.addressToBlock, haddr, blockOf_blockAddr (by omega)] at hj
  have h1 := heapFreeIndices_ge hj
  have h2 := heapFreeIndices_le (by omega) hstop hj
  rw [hk.length_eq]
  omega

theorem freesLive_of_nodup (hk : KernelHeap h) (hi : HeapInv h live) (hnodup : calls.Nodup)
    (hsub : ∀ addr ∈ calls, ∃ a ∈ live, a.addr = addr) : FreesLive h calls := by
  induction calls generalizing h live with
  | nil => trivial
  | cons addr calls ih =>
      obtain ⟨a, ha, haddr⟩ := hsub addr List.mem_cons_self
      obtain ⟨k, hget⟩ := List.mem_iff_getElem?.1 ha
      obtain ⟨hnot, hrest⟩ := List.nodup_cons.1 hnodup
      subst haddr
      refine ⟨⟨live, hi, a, ha, rfl⟩, hi.writes_inside hk ha,
        ih (kernelHeap_kept.kfree hk trivial) (hi.kfree_live hk hget) hrest ?_⟩
      intro x hx
      obtain ⟨c, hc, hcx⟩ := hsub x (List.mem_cons_of_mem _ hx)
      refine ⟨c, mem_eraseIdx_of_addr_ne hc hget ?_, hcx⟩
      rw [hcx]
      rintro rfl
      exact hnot hx

theorem FreesLive.ne_zero (hf : FreesLive h calls) (hk : KernelHeap h) : (0 : Word) ∉ calls := by
  induction calls generalizing h with
  | nil => simp
  | cons addr calls ih =>
      obtain ⟨⟨live, hi, a, ha, haddr⟩, -, hf⟩ := hf
      intro h0
      rcases List.mem_cons.1 h0 with rfl | h0
      · exact hi.addr_ne_zero hk ha haddr
      · exact ih hf (kernelHeap_kept.kfree hk trivial) h0

end EnkiOs
