import EnkiOs.Heap.Run

/-!
# ヒープの定理

表の不変条件が実行で保たれることと、空きが足りないときの `heap_malloc` の結果を述べる。
-/

namespace EnkiOs
open Machine Extents

variable {heap h : Heap} {startAddr endAddr : Word} {table : HeapTable} {live : List Allocation}

/-! ## 遠いアドレスの解放 -/

/-- 生きている割り当ての先頭は、その範囲の先頭の番号の位置にある。 -/
theorem HeapInv.offset_eq (hi : HeapInv h live) {a : Allocation} (ha : a ∈ live) :
    (a.addr - h.startAddr).toNat = 4096 * (a.extent h.startAddr).first := by
  have := hi.onBlock a ha
  simp only [Allocation.extent]
  omega

/-- 割り当ての一つ前のブロックは、空きであるか、別の割り当ての最後である。どちらも `HAS_NEXT` を持たない。 -/
theorem HeapTable.Encodes.before_stops {n : Nat} {l : Layout n} {t : HeapTable} (hl : t.Encodes l)
    {e : Extent} (he : e ∈ l.extents) {i : Nat} (hi : i + 1 = e.first) :
    t.entries i &&& HEAP_BLOCK_HAS_NEXT = 0 := by
  have hin := l.inside e he
  have hpos := e.pos
  rw [hl.entries_eq i (by omega)]
  by_cases hc : ∃ f ∈ l.extents, f.Covers i
  · obtain ⟨f, hf, hfi⟩ := hc
    have hne : f ≠ e := by rintro rfl; simp only [Extent.Covers] at hfi; omega
    obtain ⟨a, ha, rfl⟩ := List.mem_iff_getElem.mp hf
    obtain ⟨b, hb, rfl⟩ := List.mem_iff_getElem.mp he
    have hap := l.apart_getElem ha hb (by rintro rfl; exact hne rfl)
    rw [Layout.encode_of_covers hf hfi]
    apply takenEntry_hasNext.mpr
    simp only [Extent.Covers] at hfi
    rcases hap with hap | hap <;> omega
  · rw [Layout.encode_of_not_covers (fun f hf hfi => hc ⟨f, hf, hfi⟩)]
    decide

/-- 先頭から 2 GiB 以上離れた割り当ての解放は、負の番号から書き始めて一つ前のブロックまでに止まる。
割り当てのブロックは表に残る。 -/
theorem HeapInv.not_free_far (hi : HeapInv h live) {k : Nat} {a : Allocation} (hk : live[k]? = some a)
    (hfar : 2 ^ 31 ≤ (a.addr - h.startAddr).toNat) :
    ¬ HeapInv (heapFree h a.addr) (live.eraseIdx k) := by
  intro hi'
  obtain ⟨n, l, hext, hl⟩ := hi.encoded
  obtain ⟨n', l', hext', hl'⟩ := hi'.encoded
  have ha : a ∈ live := List.mem_of_getElem? hk
  have hoff := hi.offset_eq ha
  have hke : l.extents[k]? = some (a.extent h.startAddr) := by
    rw [hext, List.getElem?_map, hk]
    rfl
  obtain ⟨hkl, hkeq⟩ := List.getElem?_eq_some_iff.mp hke
  have he : a.extent h.startAddr ∈ l.extents := List.mem_of_getElem? hke
  have hlt := hi.length_lt
  rw [hl.length_eq] at hlt
  have hin := l.inside _ he
  have hpos := (a.extent h.startAddr).pos
  obtain ⟨b, hb⟩ : ∃ b, (a.extent h.startAddr).first = b + 1 :=
    ⟨(a.extent h.startAddr).first - 1, by omega⟩
  have hcov : (a.extent h.startAddr).Covers (b + 1) := ⟨by omega, by omega⟩
  -- 解放の後も、先頭のブロックの値は変わらない。
  have hkept : (heapFree h a.addr).table.entries (b + 1 : Nat) = h.table.entries (b + 1 : Nat) := by
    have hneg := heapAddressToBlock_neg hfar (hi.onBlock a ha)
    apply heapMarkFreeLoop_beyond (e := (b : Nat))
    · rw [hneg]
      omega
    · exact hl.before_stops he hb.symm
    · omega
  have hfree : (heapFree h a.addr).table.entries (b + 1 : Nat) = HEAP_BLOCK_TABLE_ENTRY_FREE := by
    have hlen : n' = n := by rw [← hl'.length_eq, ← hl.length_eq]; simp
    subst hlen
    rw [hl'.entries_eq _ (by omega)]
    apply Layout.encode_of_not_covers
    intro f hf hfc
    rw [hext', heapFree_startAddr, ← List.eraseIdx_map, ← hext] at hf
    obtain ⟨j, hj, hjk, rfl⟩ := List.mem_eraseIdx_iff_getElem.mp hf
    exact (l.apart_getElem hkl hj (Ne.symm hjk)).not_covers (by rw [hkeq]; exact hcov) hfc
  rw [hkept, hl.entries_eq _ (by omega)] at hfree
  refine encode_ne_free he hcov ?_
  rw [hfree]
  rfl

/-- 解放が不変条件を保つのは、割り当てが先頭から 2 GiB より手前にあるとき、そのときに限る。 -/
theorem HeapInv.free_iff (hi : HeapInv h live) {k : Nat} {a : Allocation} (hk : live[k]? = some a) :
    HeapInv (heapFree h a.addr) (live.eraseIdx k) ↔ (a.addr - h.startAddr).toNat < 2 ^ 31 := by
  constructor
  · intro hi'
    by_contra hfar
    exact hi.not_free_far hk (by omega) hi'
  · exact hi.free hk

/-! ## 表の大きさと実行 -/

/-- 表が `2^19` 個以下なら、どの割り当ても 2 GiB より手前にある。 -/
theorem HeapInv.near (hi : HeapInv h live) (hn : h.table.length.toNat ≤ 2 ^ 19) {a : Allocation}
    (ha : a ∈ live) : (a.addr - h.startAddr).toNat < 2 ^ 31 := by
  obtain ⟨n, l, hext, hl⟩ := hi.encoded
  have hin := l.inside (a.extent h.startAddr) (by rw [hext]; exact List.mem_map_of_mem ha)
  have hpos := (a.extent h.startAddr).pos
  rw [hl.length_eq] at hn
  rw [hi.offset_eq ha]
  omega

theorem HeapStep.length_eq {s s' : HeapState} {op : HeapOp} (hs : HeapStep s op s')
    (hn : s.heap.table.length.toNat < 2 ^ 31) : s'.heap.table.length = s.heap.table.length := by
  cases hs with
  | malloc hpos hle hrun =>
      obtain ⟨_, _, _, heq⟩ := heapMalloc_fit hn hpos hle hrun
      simp [heq]
  | free hk => simp

theorem HeapRun.inv_of_small {s s' : HeapState} (hr : HeapRun s s')
    (hn : s.heap.table.length.toNat ≤ 2 ^ 19) (hi : HeapInv s.heap s.live) :
    HeapInv s'.heap s'.live ∧ s'.heap.table.length = s.heap.table.length := by
  induction hr with
  | refl => exact ⟨hi, rfl⟩
  | tail _ hstep ih =>
      obtain ⟨hib, hlen⟩ := ih
      obtain ⟨op, hs⟩ := hstep
      have hlen' := (hs.length_eq hib.length_lt_int).trans hlen
      refine ⟨hs.inv ?_ hib, hlen'⟩
      cases hs with
      | malloc _ _ _ => trivial
      | free hk => exact hib.near (by rw [hlen]; exact hn) (List.mem_of_getElem? hk)

/-- 空きのブロックとは、どの割り当ての範囲にも入らないブロックである。 -/
theorem HeapInv.freeAt_iff (hi : HeapInv h live) {i : Nat} (hlt : i < h.table.length.toNat) :
    h.table.freeAt i = true ↔ ∀ a ∈ live, ¬ (a.extent h.startAddr).Covers i := by
  obtain ⟨n, l, hext, hl⟩ := hi.encoded
  rw [hl.length_eq] at hlt
  simp only [HeapTable.freeAt, decide_eq_true_eq, hl.entries_eq i hlt]
  constructor
  · intro hfree a ha hc
    exact encode_ne_free (by rw [hext]; exact List.mem_map_of_mem ha) hc hfree
  · intro hno
    rw [Layout.encode_of_not_covers]
    · rfl
    · intro e he
      rw [hext] at he
      obtain ⟨a, ha, rfl⟩ := List.mem_map.mp he
      exact hno a ha

theorem blocksFor_twoGiB : blocksFor 0x80000000 = 2 ^ 19 := rfl

theorem blocksFor_one : blocksFor 1 = 1 := rfl

/-- 空のヒープの表が `2^19` 個より多ければ、2 GiB を割り当てた後の次のブロックを解放すると、不変条件が崩れる。 -/
theorem far_free_run (hi : HeapInv h []) (hn : 2 ^ 19 < h.table.length.toNat) :
    ∃ s₁ s₂ s₃ addr, HeapStep ⟨h, []⟩ (.malloc 0x80000000) s₁ ∧ HeapStep s₁ (.malloc 1) s₂ ∧
      HeapStep s₂ (.free addr) s₃ ∧ ¬ HeapInv s₃.heap s₃.live := by
  have hfit : FirstFit.Fits h.table.freeAt (blocksFor 0x80000000) h.table.length.toNat 0 := by
    rw [blocksFor_twoGiB]
    exact ⟨by omega, fun j _ hj => (hi.freeAt_iff (by omega)).mpr (by simp)⟩
  have heq := heapMalloc_least hi.length_lt_int (by decide) (by decide) hfit (by simp)
  have hs₁ : HeapStep ⟨h, []⟩ (.malloc 0x80000000) _ := .malloc (by decide) (by decide) ⟨0, hfit⟩
  have hi₁ := hi.malloc (by decide) (by decide) ⟨0, hfit⟩
  -- 一つ目の割り当ては 0 番から `2^19` 個を占め、次の空きは `2^19` 番以降にある。
  obtain ⟨h₁, hh₁⟩ : ∃ h₁, h₁ = (heapMalloc h 0x80000000).2 := ⟨_, rfl⟩
  obtain ⟨a₁, ha₁⟩ : ∃ a₁ : Allocation, a₁ = ⟨(heapMalloc h 0x80000000).1, 0x80000000, by decide⟩ := ⟨_, rfl⟩
  rw [← hh₁, ← ha₁] at hs₁ hi₁
  have hlen : h₁.table.length = h.table.length := by rw [hh₁, heq, heapMarkBlocksTaken_length]
  have hsub : (a₁.addr - h₁.startAddr).toNat = 4096 * 0 := by
    have h0 := heapBlockToAddress_sub (h := h) (s := 0) (by decide)
    rw [ha₁, hh₁, heq, ← h0, heapMarkBlocksTaken_startAddr]
  have hext : a₁.extent h₁.startAddr = ⟨0, 2 ^ 19, by decide⟩ :=
    Allocation.extent_eq hsub (by rw [ha₁, blocksFor_twoGiB])
  have hrun : h₁.table.HasRun (blocksFor 1) := by
    refine ⟨2 ^ 19, by rw [blocksFor_one, hlen]; omega, ?_⟩
    intro j h1 h2
    rw [blocksFor_one] at h2
    obtain rfl : j = 2 ^ 19 := by omega
    apply (hi₁.freeAt_iff (by rw [hlen]; exact hn)).mpr
    intro a ha
    rw [List.mem_singleton.mp ha, hext]
    simp [Extent.Covers]
  have hs₂ : HeapStep ⟨h₁, [a₁]⟩ (.malloc 1) _ := .malloc (by decide) (by decide) hrun
  have hi₂ := hi₁.malloc (by decide) (by decide) hrun
  obtain ⟨s, ⟨hin, hr⟩, -, heq₂⟩ := heapMalloc_fit hi₁.length_lt_int (by decide) (by decide) hrun
  have hs : 2 ^ 19 ≤ s := by
    by_contra hlt
    have hfree := hr s (Nat.le_refl _) (by rw [blocksFor_one]; omega)
    rw [hi₁.freeAt_iff (by rw [blocksFor_one] at hin; omega)] at hfree
    exact hfree a₁ (List.mem_singleton.mpr rfl) (by rw [hext]; exact ⟨Nat.zero_le _, by simp; omega⟩)
  refine ⟨_, _, _, _, hs₁, hs₂, .free (k := 0) rfl, hi₂.not_free_far (k := 0) rfl ?_⟩
  have hlt := hi₁.length_lt
  rw [blocksFor_one] at hin
  rw [heq₂]
  show 2 ^ 31 ≤ (heapBlockToAddress h₁ s - h₁.startAddr).toNat
  rw [heapBlockToAddress_sub (by omega)]
  omega

/-! ## 実行の不変条件 -/

/-- `heap_create` が受け入れたヒープから、収まる場所のある割り当てと生きている割り当ての解放を続ける。
解放が先頭から 2 GiB より手前に限られていれば、表はいつも生きている割り当ての符号化であり、すべて解放すれば
すべて空きに戻る。どの解放でもこれが成り立つのは、表が `2^19` 個以下のとき、そのときに限る。 -/
theorem heapRun_encodes (hc : heapCreate heap startAddr endAddr table = (0, h)) :
    (∀ s, NearHeapRun ⟨h, []⟩ s → HeapInv s.heap s.live ∧
      (s.live = [] → ∀ i < s.heap.table.length.toNat,
        s.heap.table.entries i = HEAP_BLOCK_TABLE_ENTRY_FREE)) ∧
    ((∀ s, HeapRun ⟨h, []⟩ s → HeapInv s.heap s.live) ↔ h.table.length.toNat ≤ 2 ^ 19) := by
  have hi := HeapInv.create hc
  refine ⟨?_, ?_, ?_⟩
  · intro s hr
    have hs := NearHeapRun.inv hr hi
    refine ⟨hs, ?_⟩
    intro hnil i hlt
    rw [hnil] at hs
    exact hs.all_free hlt
  · intro hall
    by_contra hn
    obtain ⟨s₁, s₂, s₃, addr, h1, h2, h3, hbad⟩ := far_free_run hi (by omega)
    exact hbad (hall s₃ (((Relation.ReflTransGen.single ⟨_, h1⟩).tail ⟨_, h2⟩).tail ⟨_, h3⟩))
  · intro hn s hr
    exact (HeapRun.inv_of_small hr hn hi).1

/-- 番号 `-1` から下と `length` から上のメモリがすべて 0 の、長さ `n` の表。 -/
def zeroTable (n : Nat) : HeapTable := ⟨fun _ => 0, BitVec.ofNat 32 n⟩

theorem kheap_created : heapCreate ⟨zeroTable 0, 0⟩ 0x01000000 0x07400000 (zeroTable 25600) =
    (0, ⟨(zeroTable 25600).clear, 0x01000000⟩) := rfl

/-- カーネルのヒープは 100 MiB なので、どの実行でも不変条件が保たれる。 -/
theorem heapRun_encodes_kernel :
    heapCreate ⟨zeroTable 0, 0⟩ 0x01000000 0x07400000 (zeroTable 25600) =
      (0, ⟨(zeroTable 25600).clear, 0x01000000⟩) ∧
    ∀ s, HeapRun ⟨⟨(zeroTable 25600).clear, 0x01000000⟩, []⟩ s → HeapInv s.heap s.live :=
  ⟨kheap_created, (heapRun_encodes kheap_created).2.mpr (by decide)⟩

theorem bigHeap_created : heapCreate ⟨zeroTable 0, 0⟩ 0x01000000 0x81001000 (zeroTable 524289) =
    (0, ⟨(zeroTable 524289).clear, 0x01000000⟩) := rfl

/-- 2 GiB と 4 KiB のヒープを、`heap_create` は受け入れる。2 GiB と 1 バイトを割り当て、後の方を解放すると、
表は生きている割り当ての符号化ではなくなる。 -/
theorem heapRun_encodes_fails_twoGiB :
    heapCreate ⟨zeroTable 0, 0⟩ 0x01000000 0x81001000 (zeroTable 524289) =
      (0, ⟨(zeroTable 524289).clear, 0x01000000⟩) ∧
    ∃ s₁ s₂ s₃ addr, HeapStep ⟨⟨(zeroTable 524289).clear, 0x01000000⟩, []⟩ (.malloc 0x80000000) s₁ ∧
      HeapStep s₁ (.malloc 1) s₂ ∧ HeapStep s₂ (.free addr) s₃ ∧ ¬ HeapInv s₃.heap s₃.live :=
  ⟨bigHeap_created, far_free_run (HeapInv.create bigHeap_created) (by decide)⟩

/-! ## 空きが足りないとき -/

/-- 収まる場所が無いとき、`heap_malloc` が 0 を返して何も書かないのは、表が空か、最後のブロックが空いていない
とき、そのときに限る。最後のブロックが空いていると、末尾の足りない空きの先頭が見つかった場所として使われる。 -/
theorem heapMalloc_exhausted_iff (hi : HeapInv h live) {size : Word} (hpos : 0 < size.toNat)
    (hle : size.toNat ≤ 0xFFFFF000) (hno : ¬ h.table.HasRun (blocksFor size)) :
    ((heapMalloc h size).1 = 0 ∧
      ∀ j : Int, (heapMalloc h size).2.table.entries j = h.table.entries j) ↔
    (h.table.length.toNat = 0 ∨ h.table.freeAt (h.table.length.toNat - 1) = false) := by
  have ho : FirstFit.Outcome h.table.freeAt (blocksFor size) h.table.length.toNat _ :=
    FirstFit.scan_spec (blocksFor_pos hpos) h.table.length.toNat
  rw [heapMalloc_eq hi.length_lt_int hle]
  generalize FirstFit.scan h.table.freeAt (blocksFor size) h.table.length.toNat 0 0 none = r at ho
  cases ho with
  | fit hf _ => exact absurd ⟨_, hf⟩ hno
  | full _ hlast => simpa using hlast
  | @tail s _ hs hr =>
      have hlt := hi.length_lt
      have hm := blocksFor_lt hle
      have hlast : h.table.freeAt (h.table.length.toNat - 1) = true := hr _ (by omega) (by omega)
      constructor
      · rintro ⟨-, hsame⟩
        have hfree : h.table.freeAt s = true := hr s (Nat.le_refl _) (by omega)
        simp only [HeapTable.freeAt, decide_eq_true_eq] at hfree
        have hs' := hsame s
        rw [heapMarkBlocksTaken_entries (blocksFor_pos hpos) (by omega),
          if_pos (by have := blocksFor_pos hpos; omega)] at hs'
        exact absurd (hs' ▸ hfree) (takenEntry_ne_free _ _ _)
      · rw [hlast]
        intro hor
        rcases hor with h0 | h0
        · omega
        · cases h0

theorem oneBlock_created : heapCreate ⟨zeroTable 0, 0⟩ 0x1000 0x2000 (zeroTable 1) =
    (0, ⟨(zeroTable 1).clear, 0x1000⟩) := rfl

theorem oneBlock_hasRun : (zeroTable 1).clear.HasRun (blocksFor 1) :=
  ⟨0, by decide, fun j _ hj => by
    obtain rfl : j = 0 := by rw [blocksFor_one] at hj; omega
    decide⟩

theorem oneBlock_full : ¬ (heapMalloc ⟨(zeroTable 1).clear, 0x1000⟩ 1).2.table.HasRun (blocksFor 1) := by
  rintro ⟨s, hin, hr⟩
  have hlen : (heapMalloc ⟨(zeroTable 1).clear, 0x1000⟩ 1).2.table.length.toNat = 1 := by decide
  rw [hlen, blocksFor_one] at hin
  obtain rfl : s = 0 := by omega
  have := hr 0 (Nat.le_refl _) (by decide)
  revert this
  decide

/-- 1 ブロックのヒープを使い切った後の割り当ては、0 を返して何も書かない。 -/
theorem heapMalloc_exhausted_oneBlock :
    (heapMalloc (heapMalloc ⟨(zeroTable 1).clear, 0x1000⟩ 1).2 1).1 = 0 ∧
    ∀ j : Int, (heapMalloc (heapMalloc ⟨(zeroTable 1).clear, 0x1000⟩ 1).2 1).2.table.entries j =
      (heapMalloc ⟨(zeroTable 1).clear, 0x1000⟩ 1).2.table.entries j :=
  (heapMalloc_exhausted_iff ((HeapInv.create oneBlock_created).malloc (by decide) (by decide) oneBlock_hasRun)
    (by decide) (by decide) oneBlock_full).mpr (Or.inr (by decide))

/-- 1 ブロックの空のヒープに 2 ブロックを要求すると、表の外の 1 番に書いて 0 でないアドレスを返す。 -/
theorem heapMalloc_exhausted_fails_oneBlock :
    HeapInv ⟨(zeroTable 1).clear, 0x1000⟩ [] ∧ ¬ (zeroTable 1).clear.HasRun (blocksFor 4097) ∧
    (heapMalloc ⟨(zeroTable 1).clear, 0x1000⟩ 4097).1 = 0x1000 ∧
    (zeroTable 1).clear.length = 1 ∧ (zeroTable 1).clear.entries 1 = 0x00 ∧
    (heapMalloc ⟨(zeroTable 1).clear, 0x1000⟩ 4097).2.table.entries 1 = 0x01 := by
  refine ⟨HeapInv.create oneBlock_created, ?_, by decide, by decide, by decide, by decide⟩
  rintro ⟨s, hin, -⟩
  have hb : blocksFor 4097 = 2 := rfl
  have hlen : (zeroTable 1).clear.length.toNat = 1 := rfl
  omega

end EnkiOs
