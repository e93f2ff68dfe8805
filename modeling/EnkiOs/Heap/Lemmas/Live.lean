import EnkiOs.Heap.Lemmas.Kernel
import EnkiOs.Heap.Theorems

/-!
# 生きている割り当て

カーネルのヒープで、生きている割り当ての並びが不変条件を満たすときに、割り当てと解放が表のどこを変えるか。
-/

namespace EnkiOs
open Machine Extents

variable {h h' : Heap} {live : List Allocation} {a c : Allocation}

/-! ## 不変条件から分かること -/

theorem HeapInv.congr (hi : HeapInv h live) (hs : h'.startAddr = h.startAddr) (hl : h'.table.length = h.table.length)
    (he : ∀ i : Nat, i < h.table.length.toNat → h'.table.entries i = h.table.entries i) : HeapInv h' live := by
  obtain ⟨n, l, hext, hlen, henc⟩ := hi.encoded
  refine ⟨by rw [hl]; exact hi.length_lt, by rw [hs]; exact hi.onBlock, n, l, by rw [hs]; exact hext, ?_, ?_⟩
  · rw [hl]
    exact hlen
  · intro i hin
    rw [he i (by omega)]
    exact henc i hin

/-- 生きている割り当ては、番号 `b` から始まり、表の中に収まる。 -/
theorem HeapInv.block (hi : HeapInv h live) (hk : KernelHeap h) (ha : a ∈ live) :
    ∃ b, b + blocksFor a.size ≤ 25600 ∧ a.addr = blockAddr b ∧ (a.extent h.startAddr).first = b := by
  obtain ⟨n, l, hext, hl⟩ := hi.encoded
  have hoff := hi.offset_eq ha
  have hin := l.inside (a.extent h.startAddr) (by rw [hext]; exact List.mem_map_of_mem ha)
  have hn : n = 25600 := by rw [← hl.length_eq, hk.length_eq]
  have hcount : (a.extent h.startAddr).count = blocksFor a.size := rfl
  refine ⟨(a.extent h.startAddr).first, by omega, ?_, rfl⟩
  have hsub : a.addr - ENKI_HEAP_ADDRESS = BitVec.ofNat 32 ((a.extent h.startAddr).first * 4096) := by
    apply BitVec.eq_of_toNat_eq
    rw [hk.startAddr_eq] at hoff ⊢
    rw [hoff, BitVec.toNat_ofNat]
    have hstart : (a.extent h.startAddr).first = (a.extent ENKI_HEAP_ADDRESS).first := by rw [hk.startAddr_eq]
    omega
  rw [blockAddr, ← hsub, BitVec.add_comm, BitVec.sub_add_cancel]

theorem HeapInv.addr_ne_zero (hi : HeapInv h live) (hk : KernelHeap h) (ha : a ∈ live) : a.addr ≠ 0 := by
  obtain ⟨b, hb, haddr, -⟩ := hi.block hk ha
  rw [haddr]
  exact blockAddr_ne_zero (by omega)

theorem HeapInv.taken (hi : HeapInv h live) (ha : a ∈ live) {i : Nat} (hc : (a.extent h.startAddr).Covers i) :
    h.table.freeAt i = false := by
  obtain ⟨n, l, hext, hl⟩ := hi.encoded
  have hin := l.inside (a.extent h.startAddr) (by rw [hext]; exact List.mem_map_of_mem ha)
  by_contra hfree
  have hlt : i < h.table.length.toNat := by
    have := hc.2
    rw [hl.length_eq]
    omega
  exact (hi.freeAt_iff hlt).1 (by simpa using hfree) a ha hc

theorem HeapInv.entry_of_freeAt (hi : HeapInv h live) {i : Nat} (hlt : i < h.table.length.toNat)
    (hfree : h.table.freeAt i = true) : h.table.entries i = HEAP_BLOCK_TABLE_ENTRY_FREE := by
  have hno := (hi.freeAt_iff hlt).1 hfree
  obtain ⟨n, l, hext, hl⟩ := hi.encoded
  rw [hl.length_eq] at hlt
  rw [hl.entries_eq i hlt]
  refine Layout.encode_of_not_covers ?_
  intro e he
  rw [hext] at he
  obtain ⟨a, ha, rfl⟩ := List.mem_map.1 he
  exact hno a ha

theorem HeapInv.apart (hi : HeapInv h live) {j k : Nat} (hj : live[j]? = some a) (hk : live[k]? = some c) (hne : j ≠ k) :
    (a.extent h.startAddr).Apart (c.extent h.startAddr) := by
  obtain ⟨n, l, hext, -⟩ := hi.encoded
  have hej : l.extents[j]? = some (a.extent h.startAddr) := by rw [hext, List.getElem?_map, hj]; rfl
  have hek : l.extents[k]? = some (c.extent h.startAddr) := by rw [hext, List.getElem?_map, hk]; rfl
  obtain ⟨hjl, hje⟩ := List.getElem?_eq_some_iff.1 hej
  obtain ⟨hkl, hke⟩ := List.getElem?_eq_some_iff.1 hek
  rw [← hje, ← hke]
  exact l.apart_getElem hjl hkl hne

theorem HeapInv.addr_ne (hi : HeapInv h live) {j k : Nat} (hj : live[j]? = some a) (hk : live[k]? = some c) (hne : j ≠ k) :
    a.addr ≠ c.addr := by
  intro heq
  have hap := hi.apart hj hk hne
  have hfirst : (a.extent h.startAddr).first = (c.extent h.startAddr).first := by
    simp only [Allocation.extent, heq]
  have h1 := (a.extent h.startAddr).pos
  have h2 := (c.extent h.startAddr).pos
  simp only [Extent.Apart] at hap
  omega

theorem HeapInv.disjoint (hi : HeapInv h live) (ha : a ∈ live) (hc : c ∈ live) (hne : a.addr ≠ c.addr) {i : Nat}
    (hcov : (a.extent h.startAddr).Covers i) : ¬ (c.extent h.startAddr).Covers i := by
  obtain ⟨j, hj⟩ := List.mem_iff_getElem?.1 ha
  obtain ⟨k, hk⟩ := List.mem_iff_getElem?.1 hc
  have hjk : j ≠ k := by
    rintro rfl
    rw [hj] at hk
    cases hk
    exact hne rfl
  exact (hi.apart hj hk hjk).not_covers hcov

/-- アドレスの違う割り当ては、一つを除いた後も並びに残る。 -/
theorem mem_eraseIdx_of_addr_ne {k : Nat} (ha : a ∈ live) (hk : live[k]? = some c) (hne : a.addr ≠ c.addr) :
    a ∈ live.eraseIdx k := by
  obtain ⟨j, hj, heq⟩ := List.mem_iff_getElem.1 ha
  refine List.mem_eraseIdx_iff_getElem.2 ⟨j, hj, ?_, heq⟩
  rintro rfl
  rw [List.getElem?_eq_getElem hj, heq] at hk
  cases hk
  exact hne rfl

/-! ## 解放 -/

theorem KernelHeap.addressToBlock (hk : KernelHeap h) (x : Word) : heapAddressToBlock h x = blockOf x := by
  rw [heapAddressToBlock, hk.startAddr_eq]
  rfl

theorem KernelHeap.kfree_entries (hk : KernelHeap h) (x : Word) (j : Int) :
    (kfree h x).table.entries j =
      (heapMarkFreeLoop (h.table.length.toInt - blockOf x).toNat (blockOf x) h.table).entries j := by
  simp only [kfree, heapFree, heapMarkBlocksFree, hk.addressToBlock]

theorem HeapInv.kfree_live (hi : HeapInv h live) (hk : KernelHeap h) {k : Nat} (ha : live[k]? = some a) :
    HeapInv (kfree h a.addr) (live.eraseIdx k) :=
  hi.free ha (hi.near (by rw [hk.length_eq]; decide) (List.mem_of_getElem? ha))

/-- 生きている割り当ての解放は、その範囲だけを空きにする。 -/
theorem HeapInv.kfree_entries (hi : HeapInv h live) (hk : KernelHeap h) (ha : a ∈ live) {b : Nat}
    (hb : (a.extent h.startAddr).first = b) (j : Int) :
    (kfree h a.addr).table.entries j =
      if (b : Int) ≤ j ∧ j < b + blocksFor a.size then HEAP_BLOCK_TABLE_ENTRY_FREE else h.table.entries j := by
  obtain ⟨c, hc, haddr, hfirst⟩ := hi.block hk ha
  obtain rfl : c = b := by omega
  have hpos := blocksFor_pos a.pos
  have hlen : h.table.length.toInt = 25600 := by
    rw [toInt_of_lt (by rw [hk.length_eq]; decide), hk.length_eq]
    rfl
  obtain ⟨n, l, hext, hl⟩ := hi.encoded
  have he : a.extent h.startAddr ∈ l.extents := by rw [hext]; exact List.mem_map_of_mem ha
  rw [hk.kfree_entries, haddr, blockOf_blockAddr (by omega), hlen,
    heapMarkFreeLoop_entries (e := c + blocksFor a.size - 1) (by omega) (by omega)]
  · by_cases hr : (c : Int) ≤ j ∧ j < c + blocksFor a.size
    · rw [if_pos hr, if_pos (by omega)]
    · rw [if_neg hr, if_neg (by omega)]
  · intro i h1 h2
    obtain ⟨i, rfl⟩ : ∃ m : Nat, i = m := ⟨i.toNat, by omega⟩
    have hcount : (a.extent h.startAddr).count = blocksFor a.size := rfl
    have hcov : (a.extent h.startAddr).Covers i := ⟨by omega, by omega⟩
    have hlt : i < n := by
      rw [← hl.length_eq, hk.length_eq]
      omega
    rw [hl.entries_eq i hlt, Layout.encode_of_covers he hcov, extentEntry, hfirst, hcount]
    exact takenEntry_hasNext

/-! ## 表の手前 -/

/-- 空のアドレスの番号から表までの間に、`HAS_NEXT` を持たないバイトがある。表の二つ手前は、ブートセクタの終わりの
`0x55` である。 -/
def Guarded (h : Heap) : Prop := ∃ g : Int, -4096 ≤ g ∧ g < 0 ∧ h.table.entries g &&& HEAP_BLOCK_HAS_NEXT = 0

/-- 空のアドレスの解放は、表に届かない。 -/
theorem Guarded.kfree_zero (hg : Guarded h) (hk : KernelHeap h) {j : Int} (hj : 0 ≤ j) :
    (kfree h 0).table.entries j = h.table.entries j := by
  obtain ⟨g, h1, h2, hstop⟩ := hg
  rw [hk.kfree_entries, blockOf_zero]
  exact heapMarkFreeLoop_beyond h1 hstop (by omega)

theorem KernelHeap.kzalloc_before (hk : KernelHeap h) (n : Nat) {j : Int} (hj : j < 0) :
    (kzalloc h n).2.table.entries j = h.table.entries j := by
  rcases hk.kzalloc_cases n with h0 | ⟨b, m, hb, heq, -⟩
  · rw [h0]
  · have h1 := hb.lt
    have h2 := hb.count_lt
    rw [heq, markTaken_entries (by omega), if_neg (by omega)]

theorem guarded_kept : HeapKept (fun h => KernelHeap h ∧ Guarded h) fun _ => True where
  null := trivial
  kzalloc := by
    rintro h n ⟨hk, g, h1, h2, hstop⟩
    refine ⟨⟨(kernelHeap_kept.kzalloc n hk).1, g, h1, h2, ?_⟩, trivial⟩
    rw [hk.kzalloc_before n h2]
    exact hstop
  kfree := by
    rintro h x ⟨hk, g, h1, h2, hstop⟩ -
    refine ⟨kernelHeap_kept.kfree hk trivial, g, h1, h2, ?_⟩
    rw [hk.kfree_entries]
    rcases heapMarkFreeLoop_cases (h.table.length.toInt - blockOf x).toNat (blockOf x) g h.table with he | he
    · rw [he]
      exact hstop
    · rw [he]
      decide

/-- 空いたブロックの値の性質は、空きの印がそれを満たすなら、割り当てでも解放でも保たれる。 -/
theorem freeEntries_kept {p : Byte → Prop} (hfree : p HEAP_BLOCK_TABLE_ENTRY_FREE) :
    HeapKept (fun h => KernelHeap h ∧ ∀ b < 25600, h.table.freeAt b = true → p (h.table.entries b)) fun _ => True where
  null := trivial
  kzalloc := by
    rintro h n ⟨hk, hp⟩
    refine ⟨⟨(kernelHeap_kept.kzalloc n hk).1, ?_⟩, trivial⟩
    rcases hk.kzalloc_cases n with h0 | ⟨c, m, hm, heq, -⟩
    · rw [h0]
      exact hp
    · have hlt := hm.lt
      have hcount := hm.count_lt
      rw [heq]
      intro b hb hfreeAt
      rw [HeapTable.freeAt, markTaken_entries (by omega)] at hfreeAt
      rw [markTaken_entries (by omega)]
      split at hfreeAt
      · exact absurd (of_decide_eq_true hfreeAt) (takenEntry_ne_free _ _ _)
      · rename_i hout
        rw [if_neg hout]
        exact hp b hb hfreeAt
  kfree := by
    rintro h a ⟨hk, hp⟩ _
    refine ⟨kernelHeap_kept.kfree hk trivial, ?_⟩
    intro b hb hfreeAt
    rw [HeapTable.freeAt, hk.kfree_entries] at hfreeAt
    rw [hk.kfree_entries]
    rcases heapMarkFreeLoop_cases (h.table.length.toInt - blockOf a).toNat (blockOf a) b h.table with he | he
    · rw [he] at hfreeAt ⊢
      exact hp b hb hfreeAt
    · rw [he]
      exact hfree

/-! ## 割り当て -/

theorem KernelHeap.kzalloc_zero (hk : KernelHeap h) {n : Nat} (h0 : (kzalloc h n).1 = 0) : kzalloc h n = (0, h) := by
  rcases hk.kzalloc_cases n with heq | ⟨b, m, hb, heq, -⟩
  · exact heq
  · have := hb.lt
    rw [heq] at h0
    exact absurd h0 (blockAddr_ne_zero (by omega))

/-- 大きさが 0 の割り当ては、最後のブロックが空いていれば、空いたブロックのアドレスを返して何も書かない。 -/
theorem KernelHeap.kzalloc_nothing (hk : KernelHeap h) (hlast : h.table.freeAt 25599 = true) :
    ∃ b < 25600, h.table.freeAt b = true ∧ kzalloc h 0 = (blockAddr b, h) := by
  rcases hk.kzalloc_cases 0 with h0 | ⟨b, m, hb, heq, hm⟩
  · have htotal : heapAlignVal 0 / BitVec.ofNat 32 ENKI_HEAP_BLOCK_SIZE = 0 := rfl
    have hscan := heapMalloc_scan (h := h) (by rw [hk.length_eq]; decide) htotal
    obtain ⟨b, hb⟩ : ∃ b, FirstFit.scan h.table.freeAt 0 25600 0 0 none = some b :=
      FirstFit.scan_nothing (k := 25599) (by rw [Nat.zero_add]; exact hlast)
    rw [hk.length_eq] at hscan
    rw [show (0 : Word).toNat = 0 from rfl, hb] at hscan
    have haddr := congrArg Prod.fst (h0.symm.trans hscan)
    simp only at haddr
    have hlt : b < 25600 := by
      rcases FirstFit.scan_some hb with hnone | ⟨-, hlt, -⟩
      · cases hnone
      · omega
    exact absurd (haddr.trans (hk.blockToAddress b)).symm (blockAddr_ne_zero (by omega))
  · obtain rfl : m = 0 := hm (by decide)
    have hlt := hb.lt
    refine ⟨b, hlt, hb.first, ?_⟩
    rw [heq]
    exact Prod.ext rfl (heapMarkBlocksTaken_zero h b (by omega))

/-- 収まる場所のある大きさは、表の大きさを越えない。 -/
theorem KernelHeap.size_le (hk : KernelHeap h) {size : Word} (hrun : h.table.HasRun (blocksFor size)) :
    size.toNat ≤ 25600 * 4096 := by
  obtain ⟨b, hb, -⟩ := hrun
  rw [hk.length_eq, blocksFor] at hb
  omega

theorem HeapInv.kzalloc_live (hi : HeapInv h live) (hk : KernelHeap h) {size : Word} (hpos : 0 < size.toNat)
    (hrun : h.table.HasRun (blocksFor size)) :
    HeapInv (kzalloc h size.toNat).2 (⟨(kzalloc h size.toNat).1, size, hpos⟩ :: live) := by
  have hle := hk.size_le hrun
  have hsize : BitVec.ofNat 32 size.toNat = size := by simp
  simp only [kzalloc, hsize]
  exact hi.malloc hpos (by omega) hrun

/-! ## 塞がったままのブロック -/

/-- 番号 `b` のブロックが塞がっていて、手前から続く割り当ての途中ではない。表の先頭では、手前のバイトが表まで続かない。 -/
structure Held (b : Nat) (h : Heap) : Prop extends KernelHeap h where
  lt : b < 25600
  taken : h.table.freeAt b = false
  stop : 0 < b → h.table.entries ((b : Int) - 1) &&& HEAP_BLOCK_HAS_NEXT = 0
  guard : b = 0 → Guarded h

/-- 表の中の別のブロックか、空のポインタや状態コードのように、表よりずっと手前のアドレス。 -/
def Elsewhere (b : Nat) (a : Word) : Prop := blockOf a ≠ b ∧ (0 ≤ blockOf a ∨ blockOf a ≤ -4096)

theorem elsewhere_of_le {b : Nat} {a : Word} (ha : blockOf a ≤ -4096) : Elsewhere b a := ⟨by omega, .inr ha⟩

theorem Held.kfree_same {b : Nat} (hb : Held b h) {a : Word} (ha : Elsewhere b a) :
    (kfree h a).table.entries b = h.table.entries b := by
  obtain ⟨hne, hside⟩ := ha
  rw [hb.toKernelHeap.kfree_entries]
  rcases Int.lt_or_gt_of_ne hne with hlt | hgt
  · rcases Nat.eq_zero_or_pos b with rfl | hpos
    · obtain ⟨g, h1, h2, hstop⟩ := hb.guard rfl
      exact heapMarkFreeLoop_beyond (by omega) hstop (by omega)
    · exact heapMarkFreeLoop_beyond (e := (b : Int) - 1) (by omega) (hb.stop hpos) (by omega)
  · exact heapMarkFreeLoop_before hgt

/-- ほかの割り当ても、ほかのブロックの解放も、`b` を空けない。 -/
theorem held_kept (b : Nat) : HeapKept (Held b) (Elsewhere b) where
  null := elsewhere_of_le (Int.le_of_eq blockOf_zero)
  kzalloc := by
    intro h n hb
    have hguard : b = 0 → Guarded (kzalloc h n).2 := fun h0 =>
      (guarded_kept.kzalloc n ⟨hb.toKernelHeap, hb.guard h0⟩).1.2
    have hkernel := (kernelHeap_kept.kzalloc n hb.toKernelHeap).1
    rcases hb.toKernelHeap.kzalloc_cases n with h0 | ⟨c, m, hc, heq, -⟩
    · rw [h0]
      exact ⟨hb, elsewhere_of_le (Int.le_of_eq blockOf_zero)⟩
    · have hlt := hb.lt
      have hclt := hc.lt
      have hcount := hc.count_lt
      have hout : ¬(c ≤ b ∧ b < c + m) := by
        rintro ⟨h1, h2⟩
        have hfree := hc.vacant b h1 h2 hlt
        rw [hb.taken] at hfree
        cases hfree
      have hne : c ≠ b := (HeapTable.ne_of_freeAt hb.taken hc.first).symm
      rw [heq] at hguard hkernel ⊢
      refine ⟨⟨hkernel, hlt, ?_, ?_, hguard⟩, ?_⟩
      · rw [HeapTable.freeAt, markTaken_entries (by omega), if_neg (by omega)]
        exact hb.taken
      · intro hpos
        rw [markTaken_entries (by omega)]
        split
        · -- 範囲に `b - 1` が入るなら、そこが範囲の終わりである。
          exact takenEntry_hasNext.2 (by omega)
        · exact hb.stop hpos
      · rw [Elsewhere, blockOf_blockAddr (by omega)]
        omega
  kfree := by
    intro h a hb ha
    refine ⟨kernelHeap_kept.kfree hb.toKernelHeap trivial, hb.lt, ?_, ?_, fun h0 =>
      (guarded_kept.kfree ⟨hb.toKernelHeap, hb.guard h0⟩ trivial).2⟩
    · rw [HeapTable.freeAt, hb.kfree_same ha]
      exact hb.taken
    · intro hpos
      rw [hb.toKernelHeap.kfree_entries]
      rcases heapMarkFreeLoop_cases (h.table.length.toInt - blockOf a).toNat (blockOf a) ((b : Int) - 1) h.table with
        h1 | h1
      · rw [h1]
        exact hb.stop hpos
      · rw [h1]
        decide

end EnkiOs
