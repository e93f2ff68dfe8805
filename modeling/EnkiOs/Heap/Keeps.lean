import EnkiOs.Heap.Frees

/-!
# 持ち続けているアドレス

`Keeps owned h` は、並び `owned` のアドレスが、どれも塞がった割り当ての先頭であることを言う。新しい割り当ては並びに加わり、
並びの中のアドレスの解放は、それだけを並びから除く。
-/

namespace EnkiOs
open Machine

variable {h h' : Heap} {p : Word} {owned : List Word} {n : Nat}

/-! ## 割り当ての終わり -/

/-- 空いたブロックの手前は、続きのある割り当てではない。 -/
def FreeAfterEnd (h : Heap) : Prop :=
  ∀ b : Nat, 0 < b → b < 25600 → h.table.freeAt b = true → h.table.entries ((b : Int) - 1) &&& HEAP_BLOCK_HAS_NEXT = 0

/-- ヒープの不変条件を満たす表では、塞がったブロックのうち、空いたブロックの手前にあるものは、割り当ての最後のブロックである。 -/
theorem HeapInv.freeAfterEnd {live : List Allocation} (hi : HeapInv h live) (hk : KernelHeap h) :
    FreeAfterEnd h := by
  intro b hpos hlt hfree
  have hb : b < h.table.length.toNat := by
    rw [hk.length_eq]
    exact hlt
  obtain ⟨c, rfl⟩ : ∃ c, b = c + 1 := ⟨b - 1, by omega⟩
  rw [Int.natCast_succ, Int.add_sub_cancel]
  cases hprev : h.table.freeAt c with
  | true =>
      rw [hi.entry_of_freeAt (Nat.lt_of_succ_lt hb) hprev]
      decide
  | false =>
      have hcov : ∃ a ∈ live, (a.extent h.startAddr).Covers c := by
        by_contra hno
        have hall : ∀ a ∈ live, ¬(a.extent h.startAddr).Covers c := fun a ha hc => hno ⟨a, ha, hc⟩
        rw [(hi.freeAt_iff (Nat.lt_of_succ_lt hb)).2 hall] at hprev
        cases hprev
      obtain ⟨a, ha, hc⟩ := hcov
      obtain ⟨first, -, -, hfirst⟩ := hi.block hk ha
      have hcount : (a.extent h.startAddr).count = blocksFor a.size := rfl
      have hnext := (hi.freeAt_iff hb).1 hfree a ha
      simp only [Extents.Extent.Covers, hfirst, hcount] at hc hnext
      have hlast := hi.last_stops ha hfirst
      rw [show (first : Int) + blocksFor a.size - 1 = c by omega] at hlast
      exact hlast

theorem freeAfterEnd_of_entries (hf : FreeAfterEnd h) (he : ∀ j : Int, 0 ≤ j → h'.table.entries j = h.table.entries j) :
    FreeAfterEnd h' := by
  intro b hpos hlt hfree
  rw [HeapTable.freeAt, he b (by omega)] at hfree
  rw [he _ (by omega)]
  exact hf b hpos hlt hfree

theorem FreeAfterEnd.kzalloc (hf : FreeAfterEnd h) (hk : KernelHeap h) (n : Nat) : FreeAfterEnd (kzalloc h n).2 := by
  rcases hk.kzalloc_cases n with h0 | ⟨b, m, hb, heq, -⟩
  · rw [h0]
    exact hf
  · have hlt := hb.lt
    have hcount := hb.count_lt
    rw [heq]
    intro c hpos hc hfree
    rw [HeapTable.freeAt, markTaken_entries (by omega)] at hfree
    rw [markTaken_entries (by omega)]
    split at hfree
    · exact absurd (of_decide_eq_true hfree) (takenEntry_ne_free _ _ _)
    · split
      · -- 範囲の外にある `c` の手前が範囲の中なら、そこが範囲の終わりである。
        exact takenEntry_hasNext.2 (by omega)
      · exact hf c hpos hc hfree

/-- 割り当ての先頭からの解放は、手前の割り当てを途中で切らない。 -/
theorem heapFreeIndices_pred {table : HeapTable} {k : Nat} {i j : Int} (hj : j ∈ heapFreeIndices table k i) (hij : i < j) :
    j - 1 ∈ heapFreeIndices table k i := by
  induction k generalizing i with
  | zero => cases hj
  | succ k ih =>
      rw [heapFreeIndices] at hj ⊢
      rcases List.mem_cons.1 hj with rfl | hj
      · omega
      · split at hj
        · cases hj
        · rename_i hnext
          rw [if_neg hnext]
          rcases Int.lt_or_le (i + 1) j with hlt | hle
          · exact List.mem_cons_of_mem _ (ih hj hlt)
          · have := heapFreeIndices_ge hj
            rw [show j - 1 = i by omega]
            exact List.mem_cons_self

theorem FreeAfterEnd.kfree {b : Nat} (hf : FreeAfterEnd h) (hb : Held b h) (hp : blockOf p = b) :
    FreeAfterEnd (kfree h p) := by
  intro c hpos hlt hfree
  have hentry : ∀ j : Int, (EnkiOs.kfree h p).table.entries j =
      if j ∈ heapFreeIndices h.table (h.table.length.toInt - b).toNat b then HEAP_BLOCK_TABLE_ENTRY_FREE
      else h.table.entries j := by
    intro j
    rw [EnkiOs.kfree, heapFree_writes, heapFreeWrites, hb.toKernelHeap.addressToBlock, hp]
  rw [hentry]
  split
  · decide
  · rename_i hout
    rw [HeapTable.freeAt, hentry] at hfree
    split at hfree
    · rename_i hin
      have hge := heapFreeIndices_ge hin
      obtain rfl : c = b := by
        by_contra hne
        exact hout (heapFreeIndices_pred hin (by omega))
      exact hb.stop hpos
    · exact hf c hpos hlt hfree

theorem FreeAfterEnd.kfree_zero (hf : FreeAfterEnd h) (hk : KernelHeap h) (hg : Guarded h) :
    FreeAfterEnd (EnkiOs.kfree h 0) := freeAfterEnd_of_entries hf fun _ hj => hg.kfree_zero hk hj

/-! ## アドレスの並び -/

/-- 並びのアドレスは、どれも塞がった割り当ての先頭で、互いに違う。 -/
structure Keeps (owned : List Word) (h : Heap) : Prop extends KernelHeap h where
  nodup : owned.Nodup
  guarded : Guarded h
  ends : FreeAfterEnd h
  held : ∀ p ∈ owned, ∃ b, p = blockAddr b ∧ Held b h

/-- 割り当てたばかりのブロックは、塞がったままにできる。 -/
theorem held_of_kzalloc (hk : KernelHeap h) (hends : FreeAfterEnd h) (hg : Guarded h) (hpos : 0 < n)
    (hle : n ≤ 0xFFFFF000) (hmade : kzalloc h n = (p, h')) (hne : p ≠ 0) :
    ∃ b < 25600, p = blockAddr b ∧ h.table.freeAt b = true ∧ Held b h' := by
  have hkernel := (kernelHeap_kept.kzalloc n hk).1
  have hguard := (guarded_kept.kzalloc n ⟨hk, hg⟩).1.2
  rcases hk.kzalloc_cases n with h0 | ⟨b, m, hb, heq, hm⟩
  · rw [h0] at hmade
    cases hmade
    exact absurd rfl hne
  · have hcount := hm hle
    have hmlt := hb.count_lt
    rw [heq] at hmade hkernel hguard
    cases hmade
    have hlt := hb.lt
    refine ⟨b, hlt, rfl, hb.first, hkernel, hlt, ?_, ?_, fun _ => hguard⟩
    · rw [HeapTable.freeAt, markTaken_entries (by omega), if_pos (by omega)]
      exact decide_eq_false (takenEntry_ne_free _ _ _)
    · intro hpos
      rw [markTaken_entries (by omega), if_neg (by omega)]
      exact hends b hpos hlt hb.first

namespace Keeps

theorem mono {owned' : List Word} (hkeep : Keeps owned h) (hsub : owned'.Sublist owned) : Keeps owned' h :=
  ⟨hkeep.toKernelHeap, hkeep.nodup.sublist hsub, hkeep.guarded, hkeep.ends, fun p hp => hkeep.held p (hsub.subset hp)⟩

theorem perm {owned' : List Word} (hkeep : Keeps owned h) (hperm : owned.Perm owned') : Keeps owned' h :=
  ⟨hkeep.toKernelHeap, hperm.nodup hkeep.nodup, hkeep.guarded, hkeep.ends, fun p hp => hkeep.held p (hperm.mem_iff.2 hp)⟩

theorem kzalloc (hkeep : Keeps owned h) (n : Nat) : Keeps owned (kzalloc h n).2 := by
  obtain ⟨hk, hg⟩ := (guarded_kept.kzalloc n ⟨hkeep.toKernelHeap, hkeep.guarded⟩).1
  refine ⟨hk, hkeep.nodup, hg, hkeep.ends.kzalloc hkeep.toKernelHeap n, ?_⟩
  intro p hp
  obtain ⟨b, hb, hheld⟩ := hkeep.held p hp
  exact ⟨b, hb, ((held_kept b).kzalloc n hheld).1⟩

/-- 新しいアドレスは、並びのどれとも違い、並びに加わる。 -/
theorem made (hkeep : Keeps owned h) (hpos : 0 < n) (hle : n ≤ 0xFFFFF000) (hmade : EnkiOs.kzalloc h n = (p, h'))
    (hne : p ≠ 0) : Keeps (p :: owned) h' := by
  obtain ⟨b, hlt, hp, hfree, hheld⟩ := held_of_kzalloc hkeep.toKernelHeap hkeep.ends hkeep.guarded hpos hle hmade hne
  have hkeep' := hkeep.kzalloc n
  rw [hmade] at hkeep'
  refine ⟨hkeep'.toKernelHeap, List.nodup_cons.2 ⟨?_, hkeep.nodup⟩, hkeep'.guarded, hkeep'.ends, ?_⟩
  · intro hmem
    obtain ⟨c, hc, hheldc⟩ := hkeep.held p hmem
    have hclt := hheldc.lt
    obtain rfl : b = c := blockAddr_inj (by omega) (by omega) (hp.symm.trans hc)
    rw [hheldc.taken] at hfree
    cases hfree
  · intro q hq
    rcases List.mem_cons.1 hq with rfl | hq
    · exact ⟨b, hp, hheld⟩
    · exact hkeep'.held q hq

theorem alloc (hkeep : Keeps owned h) (hpos : 0 < n) (hle : n ≤ 0xFFFFF000) (hne : (EnkiOs.kzalloc h n).1 ≠ 0) :
    Keeps ((EnkiOs.kzalloc h n).1 :: owned) (EnkiOs.kzalloc h n).2 := by
  obtain ⟨p, h', hk⟩ : ∃ p h', EnkiOs.kzalloc h n = (p, h') := ⟨_, _, rfl⟩
  rw [hk] at hne ⊢
  exact hkeep.made hpos hle hk hne

/-- 並びの先頭を解放しても、残りはそのままである。 -/
theorem kfree (hkeep : Keeps (p :: owned) h) : Keeps owned (kfree h p) := by
  obtain ⟨hp, hnodup⟩ := List.nodup_cons.1 hkeep.nodup
  obtain ⟨hk, hg⟩ := guarded_kept.kfree ⟨hkeep.toKernelHeap, hkeep.guarded⟩ (a := p) trivial
  obtain ⟨b, hb, hheld⟩ := hkeep.held p List.mem_cons_self
  have hlt := hheld.lt
  have hof : blockOf p = b := by
    rw [hb, blockOf_blockAddr (by omega)]
  refine ⟨hk, hnodup, hg, hkeep.ends.kfree hheld hof, ?_⟩
  intro q hq
  obtain ⟨c, hc, hheldc⟩ := hkeep.held q (List.mem_cons_of_mem _ hq)
  refine ⟨c, hc, (held_kept c).kfree hheldc ?_⟩
  rw [Elsewhere, hof]
  refine ⟨?_, .inl (by omega)⟩
  intro heq
  apply hp
  rw [hb, show b = c by omega, ← hc]
  exact hq

theorem kfree_zero (hkeep : Keeps owned h) : Keeps owned (EnkiOs.kfree h 0) := by
  obtain ⟨hk, hg⟩ := guarded_kept.kfree ⟨hkeep.toKernelHeap, hkeep.guarded⟩ (a := 0) trivial
  refine ⟨hk, hkeep.nodup, hg, hkeep.ends.kfree_zero hkeep.toKernelHeap hkeep.guarded, ?_⟩
  intro p hp
  obtain ⟨b, hb, hheld⟩ := hkeep.held p hp
  exact ⟨b, hb, (held_kept b).kfree hheld (held_kept b).null⟩

/-- 割り当ててすぐに解放しても、並びは保たれる。 -/
theorem kfree_made (hkeep : Keeps owned h) (hpos : 0 < n) (hle : n ≤ 0xFFFFF000) :
    Keeps owned (EnkiOs.kfree (EnkiOs.kzalloc h n).2 (EnkiOs.kzalloc h n).1) := by
  by_cases h0 : (EnkiOs.kzalloc h n).1 = 0
  · rw [h0]
    exact (hkeep.kzalloc n).kfree_zero
  · exact (hkeep.alloc hpos hle h0).kfree

theorem ne_zero (hkeep : Keeps owned h) (hp : p ∈ owned) : p ≠ 0 := by
  obtain ⟨b, rfl, hheld⟩ := hkeep.held p hp
  exact blockAddr_ne_zero (Nat.le_of_lt hheld.lt)

end Keeps

/-! ## 起動の直後 -/

theorem guarded_boot : Guarded bootHeap := ⟨-2, by decide, by decide, by decide⟩

theorem freeAfterEnd_boot : FreeAfterEnd bootHeap := (HeapInv.create kheap_created).freeAfterEnd ⟨rfl, rfl⟩

theorem keeps_boot : Keeps [] bootHeap := ⟨⟨rfl, rfl⟩, List.nodup_nil, guarded_boot, freeAfterEnd_boot, by simp⟩

end EnkiOs
