import EnkiOs.Heap.Lemmas.Kernel
import EnkiOs.Heap.Theorems
import Mathlib.Data.Finset.Card
import Mathlib.Order.Interval.Finset.Nat

/-!
# 割り当てる場所と大きさ

最も手前の収まる場所が使われることと、塞いだブロックが要求の大きさに足りること。
-/

namespace EnkiOs
open Machine FirstFit

variable {h : Heap} {size : Word} {s : Nat}

/-! ## 最も手前の場所 -/

/-- 収まる場所があれば、そのうち最も手前のアドレスを返し、その場所の項目だけを書き換える。 -/
theorem heapMalloc_firstFit (hn : h.table.length.toNat < 2 ^ 31) (hpos : 1 ≤ size.toNat) (hle : size.toNat ≤ 0xFFFFF000)
    (hrun : ∃ s, Fits h.table.freeAt (blocksFor size) h.table.length.toNat s) :
    ∃ s, Fits h.table.freeAt (blocksFor size) h.table.length.toNat s ∧
      (∀ s' < s, ¬Fits h.table.freeAt (blocksFor size) h.table.length.toNat s') ∧
      (heapMalloc h size).1 = h.startAddr + 4096 * BitVec.ofNat 32 s ∧
      ∀ j : Int, (heapMalloc h size).2.table.entries j ≠ h.table.entries j ↔ (s : Int) ≤ j ∧ j < s + blocksFor size := by
  obtain ⟨s, hfit, hmin, heq⟩ := heapMalloc_fit hn hpos hle hrun
  have hin := hfit.1
  have hentries := heapMarkBlocksTaken_entries (h := h) (s := s) (blocksFor_pos hpos) (by omega)
  refine ⟨s, hfit, hmin, ?_, ?_⟩
  · rw [heq, heapBlockToAddress_eq]
  · intro j
    rw [heq, hentries]
    split
    · rename_i hj
      refine ⟨fun _ => hj, fun _ he => ?_⟩
      obtain ⟨i, rfl⟩ := Int.eq_ofNat_of_zero_le (show 0 ≤ j by omega)
      have hfree := hfit.2 i (by omega) (by omega)
      rw [HeapTable.freeAt, decide_eq_true_eq, ← he] at hfree
      exact takenEntry_ne_free _ _ _ hfree
    · rename_i hj
      exact ⟨fun hne => absurd rfl hne, fun h' => absurd h' hj⟩

/-- 0 番と 2 番だけが塞がった、5 ブロックのヒープ。 -/
def gapHeap : Heap := ⟨⟨fun i => if i = 0 ∨ i = 2 then HEAP_BLOCK_TABLE_ENTRY_TAKEN else HEAP_BLOCK_TABLE_ENTRY_FREE, 5⟩, 0x1000⟩

theorem gapHeap_fits : Fits gapHeap.table.freeAt (blocksFor 5000) gapHeap.table.length.toNat 3 := by
  refine ⟨by decide, ?_⟩
  have hall : ∀ j < 5, 3 ≤ j → gapHeap.table.freeAt j = true := by decide
  exact fun j h1 h2 => hall j h2 h1

theorem heapMalloc_firstFit_gap : ∃ s, Fits gapHeap.table.freeAt (blocksFor 5000) gapHeap.table.length.toNat s ∧
    (∀ s' < s, ¬Fits gapHeap.table.freeAt (blocksFor 5000) gapHeap.table.length.toNat s') ∧
    (heapMalloc gapHeap 5000).1 = gapHeap.startAddr + 4096 * BitVec.ofNat 32 s ∧
    ∀ j : Int, (heapMalloc gapHeap 5000).2.table.entries j ≠ gapHeap.table.entries j ↔
      (s : Int) ≤ j ∧ j < s + blocksFor 5000 :=
  heapMalloc_firstFit (by decide) (by decide) (by decide) ⟨3, gapHeap_fits⟩

/-! ## 塞いだブロックの大きさ -/

/-- `heap_malloc(size)` が新しく塞いだ、表の中のブロック。 -/
def heapReserved (h : Heap) (size : Word) : Finset Nat :=
  (Finset.range h.table.length.toNat).filter fun j =>
    h.table.freeAt j = true ∧ (heapMalloc h size).2.table.freeAt j = false

/-- 0 でないアドレスが返れば、塞いだブロックは `size` に足りて、`kzalloc` がゼロで埋めるバイトは、どれもその中にある。 -/
def SizeReserved (h : Heap) (size : Word) : Prop :=
  (heapMalloc h size).1 ≠ 0 →
    size.toNat ≤ 4096 * (heapReserved h size).card ∧
      ∀ k < size.toNat, ∃ j ∈ heapReserved h size,
        (heapMalloc h size).1 + BitVec.ofNat 32 k = heapBlockToAddress h j + BitVec.ofNat 32 (k % 4096)

theorem mem_heapReserved {j : Nat} : j ∈ heapReserved h size ↔
    j < h.table.length.toNat ∧ h.table.freeAt j = true ∧ (heapMalloc h size).2.table.freeAt j = false := by
  rw [heapReserved, Finset.mem_filter, Finset.mem_range]

theorem heapReserved_fit (hn : h.table.length.toNat < 2 ^ 31) (hpos : 0 < size.toNat)
    (hfit : Fits h.table.freeAt (blocksFor size) h.table.length.toNat s)
    (heq : heapMalloc h size = (heapBlockToAddress h s, heapMarkBlocksTaken h s (blocksFor size))) :
    heapReserved h size = Finset.Ico s (s + blocksFor size) := by
  have hin := hfit.1
  have hentries := heapMarkBlocksTaken_entries (h := h) (s := s) (blocksFor_pos hpos) (by omega)
  ext j
  have hfree' : (heapMalloc h size).2.table.freeAt j = if s ≤ j ∧ j < s + blocksFor size then false else h.table.freeAt j := by
    rw [heq, HeapTable.freeAt, hentries]
    by_cases hj : s ≤ j ∧ j < s + blocksFor size
    · rw [if_pos (by omega), if_pos hj]
      exact decide_eq_false (takenEntry_ne_free _ _ _)
    · rw [if_neg (by omega), if_neg hj]
      rfl
  rw [mem_heapReserved, Finset.mem_Ico, hfree']
  constructor
  · rintro ⟨-, hfree, htaken⟩
    split at htaken
    · assumption
    · rw [hfree] at htaken
      cases htaken
  · intro hj
    exact ⟨by omega, hfit.2 j hj.1 hj.2, if_pos hj⟩

/-- `s` 番から書くなら、塞いだブロックは、それより手前にはない。 -/
theorem heapReserved_subset {n : Int} (heq : (heapMalloc h size).2 = heapMarkBlocksTaken h s n) :
    heapReserved h size ⊆ Finset.Ico s h.table.length.toNat := by
  intro j hj
  obtain ⟨hjn, hfree, htaken⟩ := mem_heapReserved.1 hj
  refine Finset.mem_Ico.2 ⟨?_, hjn⟩
  by_contra hlow
  have hsame : (heapMalloc h size).2.table.entries j = h.table.entries j := by
    rw [heq]
    exact heapMarkTakenLoop_below (by omega)
  rw [HeapTable.freeAt, hsame] at htaken
  exact HeapTable.ne_of_freeAt htaken hfree rfl

theorem heapReserved_unchanged (heq : (heapMalloc h size).2 = h) : heapReserved h size = ∅ := by
  rw [Finset.eq_empty_iff_forall_notMem]
  intro j hj
  obtain ⟨-, hfree, htaken⟩ := mem_heapReserved.1 hj
  rw [heq] at htaken
  exact HeapTable.ne_of_freeAt htaken hfree rfl

theorem sizeReserved_fit (hn : h.table.length.toNat < 2 ^ 31) (hle : size.toNat ≤ 0xFFFFF000)
    (hrun : h.table.HasRun (blocksFor size)) : SizeReserved h size := by
  intro _
  by_cases hzero : size.toNat = 0
  · exact ⟨by omega, fun k hk => by omega⟩
  obtain ⟨s, hfit, -, heq⟩ := heapMalloc_fit hn (Nat.pos_of_ne_zero hzero) hle hrun
  have hblocks : blocksFor size = (size.toNat + 4095) / 4096 := rfl
  rw [heapReserved_fit hn (Nat.pos_of_ne_zero hzero) hfit heq, heq]
  refine ⟨by rw [Nat.card_Ico]; omega, fun k hk => ⟨s + k / 4096, Finset.mem_Ico.2 ⟨by omega, by omega⟩, ?_⟩⟩
  have hsplit : 4096 * s + k = 4096 * (s + k / 4096) + k % 4096 := by omega
  rw [heapBlockToAddress_eq, heapBlockToAddress_eq, BitVec.add_assoc, BitVec.add_assoc]
  congr 1
  have hmul : ∀ x : Nat, (4096 : Word) * BitVec.ofNat 32 x = BitVec.ofNat 32 (4096 * x) := fun x => (BitVec.ofNat_mul 4096 x).symm
  rw [hmul, hmul, ← BitVec.ofNat_add, ← BitVec.ofNat_add, hsplit]

/-- 表の終わりに空きがないか、終わりの空きのアドレスが 0 になる。 -/
def EndsTaken (h : Heap) : Prop :=
  h.table.length.toNat = 0 ∨ h.table.freeAt (h.table.length.toNat - 1) = false ∨
    ∃ s, Tail h.table.freeAt h.table.length.toNat s ∧ h.startAddr + 4096 * BitVec.ofNat 32 s = 0

/-- 収まる場所が無いか、ブロックの数が 0 に戻る大きさでは、0 が返るか、終わりの空きのアドレスが返って、足りるだけは塞がれない。 -/
theorem heapMalloc_tail (hn : h.table.length.toNat < 2 ^ 31)
    (hno : ¬(size.toNat ≤ 0xFFFFF000 ∧ h.table.HasRun (blocksFor size))) :
    ((h.table.length.toNat = 0 ∨ h.table.freeAt (h.table.length.toNat - 1) = false) ∧ (heapMalloc h size).1 = 0) ∨
    ∃ s, Tail h.table.freeAt h.table.length.toNat s ∧ (heapMalloc h size).1 = h.startAddr + 4096 * BitVec.ofNat 32 s ∧
      4096 * (heapReserved h size).card < size.toNat := by
  obtain ⟨total, ht⟩ : ∃ total, heapAlignVal size / BitVec.ofNat 32 ENKI_HEAP_BLOCK_SIZE = total := ⟨_, rfl⟩
  have heq := heapMalloc_scan hn ht
  have hcount : size.toNat ≤ 0xFFFFF000 → total.toNat = blocksFor size := by
    intro hle
    rw [← ht, heapMalloc_blocks hle, BitVec.toNat_ofNat]
    have := blocksFor_lt hle
    omega
  have hwrap : 0xFFFFF000 < size.toNat → total.toNat = 0 := by
    intro hlt
    rw [← ht, heapMalloc_noBlocks hlt]
    rfl
  have hstart : Trail h.table.freeAt 0 0 none := .inl rfl
  have hshort : ¬(0 < total.toNat ∧ ∃ s, Fits h.table.freeAt total.toNat (0 + h.table.length.toNat) s) := by
    rintro ⟨hpos, s, hs⟩
    rw [Nat.zero_add] at hs
    by_cases hle : size.toNat ≤ 0xFFFFF000
    · exact hno ⟨hle, s, hcount hle ▸ hs⟩
    · rw [hwrap (by omega)] at hpos
      exact absurd hpos (Nat.lt_irrefl 0)
  obtain ⟨c, htrail⟩ := (scan_trail (m := total.toNat) (k := h.table.length.toNat) hstart fun _ => rfl).resolve_left hshort
  rw [Nat.zero_add] at htrail
  cases hscan : scan h.table.freeAt total.toNat h.table.length.toNat 0 0 none with
  | none =>
      rw [hscan] at heq htrail
      exact .inl ⟨htrail, by rw [heq]⟩
  | some s =>
      rw [hscan] at heq htrail
      simp only at heq
      obtain ⟨htail, -⟩ := htrail
      have hlt := htail.lt
      refine .inr ⟨s, htail, by rw [heq, heapBlockToAddress_eq], ?_⟩
      by_cases hle : size.toNat ≤ 0xFFFFF000
      · -- 書くのは `s` 番からなので、塞いだブロックは終わりの空きの中にある。
        have hcard := Finset.card_le_card (heapReserved_subset (congrArg Prod.snd heq))
        rw [Nat.card_Ico] at hcard
        have hrun : h.table.length.toNat < s + blocksFor size := by
          by_contra hfits
          exact hno ⟨hle, s, by omega, fun j h1 h2 => htail.run j h1 (by omega)⟩
        have hblocks : blocksFor size = (size.toNat + 4095) / 4096 := rfl
        omega
      · have hsame : (heapMalloc h size).2 = h := by
          rw [heq, hwrap (by omega)]
          exact heapMarkBlocksTaken_zero h s (by omega)
        rw [heapReserved_unchanged hsame, Finset.card_empty]
        omega

/-- 足りるだけ塞がれるのは、大きさが `0xFFFFF000` 以下で収まる場所があるか、0 が返るような表のとき、そのときに限る。 -/
theorem sizeReserved_iff (hn : h.table.length.toNat < 2 ^ 31) (size : Word) :
    SizeReserved h size ↔ (size.toNat ≤ 0xFFFFF000 ∧ h.table.HasRun (blocksFor size)) ∨ EndsTaken h := by
  by_cases hfit : size.toNat ≤ 0xFFFFF000 ∧ h.table.HasRun (blocksFor size)
  · exact ⟨fun _ => .inl hfit, fun _ => sizeReserved_fit hn hfit.1 hfit.2⟩
  · rcases heapMalloc_tail hn hfit with ⟨hlast, hnull⟩ | ⟨s, htail, haddr, hcard⟩
    · refine ⟨fun _ => .inr ?_, fun _ hne => absurd hnull hne⟩
      rcases hlast with h0 | hlast
      · exact .inl h0
      · exact .inr (.inl hlast)
    · have hlt := htail.lt
      have hlast : h.table.freeAt (h.table.length.toNat - 1) = true := htail.run _ (by omega) (by omega)
      constructor
      · intro hres
        refine .inr (.inr (.inr ⟨s, htail, ?_⟩))
        by_contra hne
        rw [← haddr] at hne
        exact absurd (hres hne).1 (by omega)
      · rintro (hf | h0 | hf | ⟨s', htail', hzero⟩) hne
        · exact absurd hf hfit
        · omega
        · rw [hlast] at hf
          cases hf
        · rw [htail.eq htail'] at haddr
          exact absurd (haddr.trans hzero) hne

theorem sizeReserved_iff_gap : SizeReserved gapHeap 5000 :=
  (sizeReserved_iff (by decide) 5000).2 (.inl ⟨by decide, 3, gapHeap_fits⟩)

/-- `0xFFFFF001` バイトの要求は、ブロックの数が 0 に戻り、どのブロックも塞がずに先頭のアドレスを返す。 -/
theorem sizeReserved_fails_wrap : (heapMalloc ⟨(zeroTable 1).clear, 0x1000⟩ 0xFFFFF001).1 = 0x1000 ∧
    heapReserved ⟨(zeroTable 1).clear, 0x1000⟩ 0xFFFFF001 = ∅ ∧ ¬SizeReserved ⟨(zeroTable 1).clear, 0x1000⟩ 0xFFFFF001 := by
  have haddr : (heapMalloc ⟨(zeroTable 1).clear, 0x1000⟩ 0xFFFFF001).1 = 0x1000 := by decide
  have hempty : heapReserved ⟨(zeroTable 1).clear, 0x1000⟩ 0xFFFFF001 = ∅ := by decide
  refine ⟨haddr, hempty, fun hres => ?_⟩
  have hle := (hres (by rw [haddr]; decide)).1
  rw [hempty, Finset.card_empty] at hle
  exact absurd hle (by decide)

end EnkiOs
