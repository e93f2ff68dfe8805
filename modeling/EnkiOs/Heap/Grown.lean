import EnkiOs.Heap.Lemmas.Live
import Mathlib.Data.List.Nodup
import Mathlib.Data.List.Perm.Subperm

/-!
# 一ブロックずつの割り当てと、逆の順によらない解放

空いたブロックの値が 0 の表では、一ブロックの割り当てを重ねた後に、そのどれもを解放すると、表は元に戻る。
-/

namespace EnkiOs
open Machine

variable {h₀ h : Heap} {ps qs : List Word}

/-! ## 空いたブロックの値 -/

/-- 空いたブロックの値が 0 である、カーネルのヒープ。 -/
structure CleanHeap (h : Heap) : Prop extends KernelHeap h where
  zero : ∀ b < 25600, h.table.freeAt b = true → h.table.entries b = 0

/-- どの大きさの割り当てでも、どのアドレスの解放でも、空いたブロックの値は 0 のままである。 -/
theorem cleanHeap_kept : HeapKept CleanHeap fun _ => True where
  null := trivial
  kzalloc := by
    intro h n hc
    obtain ⟨hk, hzero⟩ := ((freeEntries_kept (p := (· = 0)) rfl).kzalloc n ⟨hc.toKernelHeap, hc.zero⟩).1
    exact ⟨⟨hk, hzero⟩, trivial⟩
  kfree := by
    intro h a hc _
    obtain ⟨hk, hzero⟩ := (freeEntries_kept (p := (· = 0)) rfl).kfree ⟨hc.toKernelHeap, hc.zero⟩ (a := a) trivial
    exact ⟨hk, hzero⟩

/-- 空いたブロックの数。 -/
def HeapTable.freeCount (t : HeapTable) : Nat := ((List.range 25600).filter t.freeAt).length

theorem cleanHeap_boot : CleanHeap bootHeap where
  toKernelHeap := bootHeap_packed.toKernelHeap
  zero _ hb _ := clear_entries _ hb

theorem freeCount_boot : bootHeap.table.freeCount = 25600 := by
  rw [HeapTable.freeCount, List.filter_eq_self.2, List.length_range]
  intro b hb
  rw [HeapTable.freeAt, cleanHeap_boot.zero b (List.mem_range.1 hb)]
  · rfl
  · exact bootHeap_packed.vacant b (Nat.zero_le b) (List.mem_range.1 hb)

/-! ## 塞いだブロック -/

/-- `h₀` で空いていたブロックのうち、`ps` にアドレスのあるものだけを、一つずつ塞いだ。 -/
structure Grown (h₀ h : Heap) (ps : List Word) : Prop where
  startAddr_eq : h.startAddr = h₀.startAddr
  length_eq : h.table.length = h₀.table.length
  nodup : ps.Nodup
  fresh : ∀ p ∈ ps, ∃ b < 25600, p = blockAddr b ∧ h₀.table.freeAt b = true
  single : ∀ b < 25600, blockAddr b ∈ ps → h.table.entries b = takenEntry b b b
  same : ∀ j : Int, (∀ b < 25600, j = (b : Nat) → blockAddr b ∉ ps) → h.table.entries j = h₀.table.entries j

namespace Grown

theorem refl (h : Heap) : Grown h h [] where
  startAddr_eq := rfl
  length_eq := rfl
  nodup := List.nodup_nil
  fresh p hp := by cases hp
  single b _ hb := by cases hb
  same _ _ := rfl

theorem eq (hg : Grown h₀ h []) : h = h₀ := by
  obtain ⟨⟨entries, length⟩, start⟩ := h
  obtain ⟨⟨entries₀, length₀⟩, start₀⟩ := h₀
  have hstart : start = start₀ := hg.startAddr_eq
  have hlength : length = length₀ := hg.length_eq
  have hentries : entries = entries₀ := funext fun j => hg.same j fun b _ _ hb => by cases hb
  rw [hstart, hlength, hentries]

theorem perm (hg : Grown h₀ h ps) (hperm : ps.Perm qs) : Grown h₀ h qs where
  startAddr_eq := hg.startAddr_eq
  length_eq := hg.length_eq
  nodup := hperm.nodup_iff.1 hg.nodup
  fresh p hp := hg.fresh p (hperm.mem_iff.2 hp)
  single b hb hp := hg.single b hb (hperm.mem_iff.2 hp)
  same j hj := hg.same j fun b hb he hp => hj b hb he (hperm.mem_iff.1 hp)

theorem toKernelHeap (hg : Grown h₀ h ps) (hk : KernelHeap h₀) : KernelHeap h :=
  ⟨hg.startAddr_eq.trans hk.startAddr_eq, by rw [hg.length_eq]; exact hk.length_eq⟩

/-- 並びにないブロックの空きは、元のままである。 -/
theorem freeAt_iff (hg : Grown h₀ h ps) {b : Nat} (hb : b < 25600) :
    h.table.freeAt b = true ↔ h₀.table.freeAt b = true ∧ blockAddr b ∉ ps := by
  by_cases hp : blockAddr b ∈ ps
  · have htaken : h.table.freeAt b = false := by
      rw [HeapTable.freeAt, hg.single b hb hp]
      exact decide_eq_false (takenEntry_ne_free _ _ _)
    simp [htaken, hp]
  · have hsame := hg.same b (by
      intro c _ he
      obtain rfl : b = c := by omega
      exact hp)
    simp [HeapTable.freeAt, hsame, hp]

theorem mark (hg : Grown h₀ h ps) {b : Nat} (hb : b < 25600) (hfree : h.table.freeAt b = true) :
    Grown h₀ (heapMarkBlocksTaken h b 1) (blockAddr b :: ps) := by
  obtain ⟨hfree₀, hnew⟩ := (hg.freeAt_iff hb).1 hfree
  have hentry := markTaken_entries (h := h) (s := b) (m := 1) (by omega)
  rw [Int.natCast_one] at hentry
  refine ⟨hg.startAddr_eq, ?_, List.nodup_cons.2 ⟨hnew, hg.nodup⟩, ?_, ?_, ?_⟩
  · rw [heapMarkBlocksTaken_length]
    exact hg.length_eq
  · intro p hp
    rcases List.mem_cons.1 hp with rfl | hp
    · exact ⟨b, hb, rfl, hfree₀⟩
    · exact hg.fresh p hp
  · intro c hc hp
    rw [hentry]
    rcases List.mem_cons.1 hp with he | hp
    · obtain rfl := blockAddr_inj (Nat.le_of_lt hc) (Nat.le_of_lt hb) he
      rw [if_pos (by omega), Int.add_sub_cancel]
    · rw [if_neg]
      · exact hg.single c hc hp
      · intro hin
        obtain rfl : b = c := by omega
        exact hnew hp
  · intro j hj
    rw [hentry, if_neg]
    · exact hg.same j fun c hc he hp => hj c hc he (List.mem_cons_of_mem _ hp)
    · intro hin
      exact hj b hb (by omega) List.mem_cons_self

/-- 空きが並びより多ければ、一ブロックの割り当ては成功し、新しいブロックが並びに加わる。 -/
theorem kzalloc {n : Nat} (hg : Grown h₀ h ps) (hk : KernelHeap h₀) (hpos : 0 < n) (hle : n ≤ 4096)
    (hroom : ps.length < h₀.table.freeCount) :
    ∃ b < 25600, EnkiOs.kzalloc h n = (blockAddr b, heapMarkBlocksTaken h b 1) ∧
      Grown h₀ (heapMarkBlocksTaken h b 1) (blockAddr b :: ps) := by
  have hkernel := hg.toKernelHeap hk
  rcases hkernel.kzalloc_small hpos hle with h0 | ⟨b, hb, hfree, heq⟩
  · -- 失敗するなら、空きのアドレスはすべて並びにある。
    have hnone := (hkernel.kzalloc_zero_iff hpos (by omega)).1 (congrArg Prod.fst h0)
    rw [show (n + 4095) / 4096 = 1 by omega] at hnone
    have hfull : ((List.range 25600).filter h₀.table.freeAt).map blockAddr ⊆ ps := by
      intro p hp
      obtain ⟨b, hb, rfl⟩ := List.mem_map.1 hp
      obtain ⟨hb, hfree⟩ := List.mem_filter.1 hb
      rw [List.mem_range] at hb
      by_contra hno
      have hfree' := (hg.freeAt_iff hb).2 ⟨hfree, hno⟩
      refine hnone.1 ⟨b, by rw [hkernel.length_eq]; omega, ?_⟩
      intro i h1 h2
      obtain rfl : i = b := by omega
      exact hfree'
    have hnodup : (((List.range 25600).filter h₀.table.freeAt).map blockAddr).Nodup := by
      refine List.Nodup.map_on ?_ (List.nodup_range.filter _)
      intro b hb c hc he
      have hb' := List.mem_range.1 (List.mem_filter.1 hb).1
      have hc' := List.mem_range.1 (List.mem_filter.1 hc).1
      exact blockAddr_inj (Nat.le_of_lt hb') (Nat.le_of_lt hc') he
    have hlen := (List.subperm_of_subset hnodup hfull).length_le
    rw [List.length_map] at hlen
    exact absurd hroom (Nat.not_lt.2 hlen)
  · exact ⟨b, hb, heq, hg.mark hb hfree⟩

/-- 並びのアドレスの解放は、そのブロックだけを空きに戻す。 -/
theorem kfree {p : Word} (hg : Grown h₀ h (p :: ps)) (hc : CleanHeap h₀) : Grown h₀ (EnkiOs.kfree h p) ps := by
  have hk := hg.toKernelHeap hc.toKernelHeap
  obtain ⟨b, hb, rfl, hfree⟩ := hg.fresh p List.mem_cons_self
  obtain ⟨hnew, hnodup⟩ := List.nodup_cons.1 hg.nodup
  have hlen : h.table.length.toInt = 25600 := by
    rw [toInt_of_lt (by rw [hk.length_eq]; decide), hk.length_eq]
    rfl
  have hentry : ∀ j, (EnkiOs.kfree h (blockAddr b)).table.entries j = if j = b then 0 else h.table.entries j := by
    intro j
    rw [hk.kfree_entries, blockOf_blockAddr (Nat.le_of_lt hb), heapMarkFreeLoop_entries (Int.le_refl _) (by omega)]
    · by_cases hj : j = b
      · rw [if_pos (by omega), if_pos hj]
      · rw [if_neg (by omega), if_neg hj]
    · intro i h1 h2
      obtain rfl : i = b := by omega
      rw [hg.single b hb List.mem_cons_self, takenEntry_hasNext]
  refine ⟨hg.startAddr_eq, ?_, hnodup, fun p hp => hg.fresh p (List.mem_cons_of_mem _ hp), ?_, ?_⟩
  · rw [EnkiOs.kfree, heapFree_length]
    exact hg.length_eq
  · intro c hc hp
    have hne : (c : Int) ≠ b := by
      intro he
      obtain rfl : c = b := by omega
      exact hnew hp
    rw [hentry, if_neg hne]
    exact hg.single c hc (List.mem_cons_of_mem _ hp)
  · intro j hj
    rw [hentry]
    split
    · rename_i he
      rw [he, hc.zero b hb hfree]
    · rename_i hne
      refine hg.same j fun c hc he hp => ?_
      rcases List.mem_cons.1 hp with heq | hp
      · obtain rfl := blockAddr_inj (Nat.le_of_lt hc) (Nat.le_of_lt hb) heq
        exact hne he
      · exact hj c hc he hp

/-- 並びのアドレスをすべて解放すると、元のヒープに戻る。 -/
theorem foldl_kfree (hg : Grown h₀ h ps) (hc : CleanHeap h₀) : ps.foldl EnkiOs.kfree h = h₀ := by
  induction ps generalizing h with
  | nil => exact hg.eq
  | cons p ps ih => exact ih (hg.kfree hc)

end Grown

end EnkiOs
