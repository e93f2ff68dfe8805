import EnkiOs.Heap.Lemmas.Packed

/-!
# カーネルのヒープの割り当てと解放

表の中身によらない、割り当ての結果の形と、割り当てと解放で保たれる性質。読み込みや終了の手続きは、ヒープを
この二つの操作だけで変える。
-/

namespace EnkiOs
open Machine

/-- カーネルのヒープの位置と大きさ。 -/
structure KernelHeap (h : Heap) : Prop where
  startAddr_eq : h.startAddr = ENKI_HEAP_ADDRESS
  length_eq : h.table.length.toNat = 25600

theorem Packed.toKernelHeap {h : Heap} {b : Nat} (hp : Packed h b) : KernelHeap h := ⟨hp.startAddr_eq, hp.length_eq⟩

/-- `heap_address_to_block` の求める番号。 -/
def blockOf (a : Word) : Int := Int.tdiv (a - ENKI_HEAP_ADDRESS).toInt ENKI_HEAP_BLOCK_SIZE

theorem blockOf_zero : blockOf 0 = -4096 := by decide

theorem blockAddr_sub {b : Nat} (hb : b ≤ 25600) : (blockAddr b - ENKI_HEAP_ADDRESS).toNat = 4096 * b := by
  rw [blockAddr, BitVec.add_comm, BitVec.add_sub_cancel, BitVec.toNat_ofNat]
  omega

theorem blockOf_blockAddr {b : Nat} (hb : b ≤ 25600) : blockOf (blockAddr b) = b := by
  have hsub := blockAddr_sub hb
  rw [blockOf, toInt_of_lt (by omega), hsub, ENKI_HEAP_BLOCK_SIZE, Int.natCast_mul, Int.mul_tdiv_cancel_left _ (by decide)]

theorem KernelHeap.blockToAddress {h : Heap} (hk : KernelHeap h) (b : Nat) : heapBlockToAddress h b = blockAddr b := by
  rw [heapBlockToAddress_eq, hk.startAddr_eq, blockAddr_eq]

/-! ## 割り当て -/

theorem heapMarkBlocksTaken_zero (h : Heap) (s : Nat) (hs : s < 2 ^ 31) : heapMarkBlocksTaken h s 0 = h := by
  have he : i32 ((s : Int) + 0 - 1) = s - 1 := by
    rw [Int.add_zero]
    exact i32_of_bounds (by omega) (by omega)
  simp only [heapMarkBlocksTaken, he]
  rw [show ((s : Int) - 1 + 1 - s).toNat = 0 by omega]
  rfl

/-- 塞がれるのは `s` からの `m` 個だけである。`m` が 0 なら何も書かない。 -/
theorem markTaken_entries {h : Heap} {s m : Nat} (hb : s + m < 2 ^ 31) (j : Int) :
    (heapMarkBlocksTaken h s m).table.entries j =
      if (s : Int) ≤ j ∧ j < s + m then takenEntry s (s + m - 1) j else h.table.entries j := by
  cases m with
  | zero =>
      rw [if_neg (by omega)]
      exact congrArg (fun h : Heap => h.table.entries j) (heapMarkBlocksTaken_zero h s (by omega))
  | succ m => exact heapMarkBlocksTaken_entries (Nat.succ_pos m) hb j

/-- 番号 `b` から `m` 個の割り当ての結果。表の終わりを越えることはあるが、表の中の部分はどれも空きだった。 -/
structure Handed (h : Heap) (b m : Nat) : Prop where
  lt : b < 25600
  count_lt : m < 2 ^ 20
  first : h.table.freeAt b = true
  vacant : ∀ i, b ≤ i → i < b + m → i < 25600 → h.table.freeAt i = true

/-- 割り当ては、0 を返して何もしないか、空きから始まる範囲を塞ぐ。 -/
theorem KernelHeap.kzalloc_cases {h : Heap} (hk : KernelHeap h) (n : Nat) :
    kzalloc h n = (0, h) ∨
      ∃ b m, Handed h b m ∧ kzalloc h n = (blockAddr b, heapMarkBlocksTaken h b m) ∧
        (n ≤ 0xFFFFF000 → m = (n + 4095) / 4096) := by
  have hn : h.table.length.toNat < 2 ^ 31 := by rw [hk.length_eq]; decide
  obtain ⟨total, ht⟩ : ∃ total, heapAlignVal (BitVec.ofNat 32 n) / BitVec.ofNat 32 ENKI_HEAP_BLOCK_SIZE = total := ⟨_, rfl⟩
  have hlt : total.toNat < 2 ^ 20 := by
    rw [← ht, BitVec.toNat_udiv]
    have := (heapAlignVal (BitVec.ofNat 32 n)).isLt
    simp only [ENKI_HEAP_BLOCK_SIZE, BitVec.toNat_ofNat, Nat.reducePow, Nat.reduceMod]
    omega
  have hcount : n ≤ 0xFFFFF000 → total.toNat = (n + 4095) / 4096 := by
    intro hle
    obtain ⟨hs, hblocks⟩ := Packed.blocksFor_ofNat hle
    rw [heapMalloc_blocks (by omega), hblocks] at ht
    rw [← ht, BitVec.toNat_ofNat]
    omega
  rw [kzalloc, heapMalloc_scan hn ht]
  cases hscan : FirstFit.scan h.table.freeAt total.toNat h.table.length.toNat 0 0 none with
  | none => exact .inl rfl
  | some b =>
      have haddr := hk.blockToAddress b
      rcases FirstFit.scan_some hscan with h0 | ⟨-, hb, hfree⟩
      · cases h0
      · rw [hk.length_eq, Nat.zero_add] at hb
        refine .inr ⟨b, total.toNat, ⟨hb, hlt, hfree, ?_⟩, by simp only [haddr], hcount⟩
        intro i hi him hlt
        have hpos : 0 < total.toNat := by omega
        have ho : FirstFit.Outcome h.table.freeAt total.toNat h.table.length.toNat _ :=
          FirstFit.scan_spec hpos h.table.length.toNat
        rw [hscan, hk.length_eq] at ho
        cases ho with
        | fit hf _ => exact hf.2 i hi him
        | tail _ _ hr => exact hr i hi (by omega)

theorem KernelHeap.kzalloc_small {h : Heap} (hk : KernelHeap h) {n : Nat} (hpos : 0 < n) (hle : n ≤ 4096) :
    kzalloc h n = (0, h) ∨
      ∃ b < 25600, h.table.freeAt b = true ∧ kzalloc h n = (blockAddr b, heapMarkBlocksTaken h b 1) := by
  rcases hk.kzalloc_cases n with h0 | ⟨b, m, hb, heq, hm⟩
  · exact .inl h0
  · obtain rfl : m = 1 := by
      have := hm (by omega)
      omega
    exact .inr ⟨b, hb.lt, hb.first, heq⟩

/-- 割り当てが失敗するのは、収まる場所がなく、表の最後のブロックも塞がっているときである。 -/
theorem KernelHeap.kzalloc_zero_iff {h : Heap} (hk : KernelHeap h) {n : Nat} (hpos : 0 < n) (hle : n ≤ 0xFFFFF000) :
    (kzalloc h n).1 = 0 ↔ ¬h.table.HasRun ((n + 4095) / 4096) ∧ h.table.freeAt 25599 = false := by
  have hn : h.table.length.toNat < 2 ^ 31 := by rw [hk.length_eq]; decide
  obtain ⟨hs, hblocks⟩ := Packed.blocksFor_ofNat hle
  have ho : FirstFit.Outcome h.table.freeAt ((n + 4095) / 4096) 25600 _ :=
    FirstFit.scan_spec (by omega) 25600
  rw [kzalloc, heapMalloc_eq hn (by omega), hblocks, HeapTable.HasRun, hk.length_eq]
  generalize FirstFit.scan h.table.freeAt ((n + 4095) / 4096) 25600 0 0 none = r at ho
  cases ho with
  | @fit s hf _ =>
      have hlt : s ≤ 25600 := by
        have := hf.1
        omega
      simp only [hk.blockToAddress]
      exact ⟨fun h0 => absurd h0 (blockAddr_ne_zero hlt), fun hno => absurd ⟨s, hf⟩ hno.1⟩
  | @tail s _ hlt hrun =>
      have hlast : h.table.freeAt 25599 = true := hrun 25599 (by omega) (by omega)
      simp only [hk.blockToAddress, hlast]
      exact ⟨fun h0 => absurd h0 (blockAddr_ne_zero (Nat.le_of_lt hlt)), fun hno => absurd hno.2 (by decide)⟩
  | full hno hlast =>
      refine ⟨fun _ => ⟨?_, hlast.resolve_left (by decide)⟩, fun _ => rfl⟩
      rintro ⟨s, hf⟩
      exact hno s hf

/-- 切り上げが 0 に戻る大きさでは、どのブロックも塞がれない。 -/
theorem KernelHeap.kzalloc_wraps {h : Heap} (hk : KernelHeap h) {n : Nat} (hlow : 0xFFFFF000 < n) (hhigh : n < 2 ^ 32) :
    (kzalloc h n).2 = h := by
  have hn : h.table.length.toNat < 2 ^ 31 := by rw [hk.length_eq]; decide
  have hnat : (BitVec.ofNat 32 n).toNat = n := by
    rw [BitVec.toNat_ofNat]
    omega
  have hzero : heapAlignVal (BitVec.ofNat 32 n) / BitVec.ofNat 32 ENKI_HEAP_BLOCK_SIZE = 0 :=
    heapMalloc_noBlocks (by omega)
  rw [kzalloc, heapMalloc_scan hn hzero]
  cases hscan : FirstFit.scan h.table.freeAt (0 : Word).toNat h.table.length.toNat 0 0 none with
  | none => rfl
  | some s =>
      have hs : s < 2 ^ 31 := by
        rcases FirstFit.scan_some hscan with h0 | ⟨-, hlt, -⟩
        · cases h0
        · omega
      exact heapMarkBlocksTaken_zero h s hs

theorem Handed.table_ne {h : Heap} {b m : Nat} (hb : Handed h b m) (hm : 0 < m) :
    (heapMarkBlocksTaken h b m).table ≠ h.table := by
  intro he
  have hlt := hb.lt
  have hcount := hb.count_lt
  have hfree : heapGetEntryType (h.table.entries b) = HEAP_BLOCK_TABLE_ENTRY_FREE := by
    simpa [HeapTable.freeAt] using hb.first
  rw [← he, markTaken_entries (by omega), if_pos ⟨Int.le_refl _, by omega⟩] at hfree
  exact takenEntry_ne_free _ _ _ hfree

/-! ## 二つの操作で保たれる性質 -/

/-- ヒープの性質 `P` が、割り当てと、`Q` を満たすアドレスの解放で保たれる。割り当ての返すアドレスは `Q` を満たす。 -/
structure HeapKept (P : Heap → Prop) (Q : Word → Prop) : Prop where
  null : Q 0
  kzalloc : ∀ {h : Heap} (n : Nat), P h → P (kzalloc h n).2 ∧ Q (kzalloc h n).1
  kfree : ∀ {h : Heap} {a : Word}, P h → Q a → P (kfree h a)

theorem kernelHeap_kept : HeapKept KernelHeap fun _ => True where
  null := trivial
  kzalloc := by
    intro h n hk
    refine ⟨?_, trivial⟩
    rcases hk.kzalloc_cases n with h0 | ⟨b, m, -, heq, -⟩
    · rw [h0]
      exact hk
    · rw [heq]
      exact ⟨hk.startAddr_eq, by simpa using hk.length_eq⟩
  kfree := by
    intro h a hk _
    exact ⟨hk.startAddr_eq, by simpa [kfree] using hk.length_eq⟩

/-! ## 解放の記録の及ぶ範囲 -/

theorem heapMarkFreeLoop_before {k : Nat} {i j : Int} {t : HeapTable} (hj : j < i) :
    (heapMarkFreeLoop k i t).entries j = t.entries j := by
  induction k generalizing i t with
  | zero => rfl
  | succ k ih =>
      have hne : j ≠ i := by omega
      rw [heapMarkFreeLoop]
      split
      · simp [hne]
      · rw [ih (by omega)]
        simp [hne]

/-- 解放の記録は、値を変えないか、空きにするかのどちらかである。 -/
theorem heapMarkFreeLoop_cases (k : Nat) (i j : Int) (t : HeapTable) :
    (heapMarkFreeLoop k i t).entries j = t.entries j ∨
      (heapMarkFreeLoop k i t).entries j = HEAP_BLOCK_TABLE_ENTRY_FREE := by
  induction k generalizing i t with
  | zero => exact .inl rfl
  | succ k ih =>
      have hset : (t.set i HEAP_BLOCK_TABLE_ENTRY_FREE).entries j = t.entries j ∨
          (t.set i HEAP_BLOCK_TABLE_ENTRY_FREE).entries j = HEAP_BLOCK_TABLE_ENTRY_FREE := by
        by_cases hj : j = i
        · exact .inr (by simp [hj])
        · exact .inl (by simp [hj])
      rw [heapMarkFreeLoop]
      split
      · exact hset
      · rcases ih (i + 1) (t.set i HEAP_BLOCK_TABLE_ENTRY_FREE) with h | h
        · rw [h]
          exact hset
        · exact .inr h

end EnkiOs
