import EnkiOs.Heap.Lemmas.Live

/-!
# 囲われたブロック

塞がったブロックの集まりを囲うと、集まりの外のアドレスの解放は、どの順に何度行っても、集まりの中の値を変えない。
割り当てが返した後の、失われたアドレスや二度目の解放があってもよい。
-/

namespace EnkiOs
open Machine

variable {keep : Nat → Prop} {h₀ h h' : Heap} {a p : Word} {n : Nat}

/-- 空いたブロックは `HAS_NEXT` を持たない。 -/
structure Tidy (h : Heap) : Prop extends KernelHeap h where
  guarded : Guarded h
  clean : ∀ b < 25600, h.table.freeAt b = true → h.table.entries b &&& HEAP_BLOCK_HAS_NEXT = 0

theorem tidy_kept : HeapKept Tidy fun _ => True where
  null := trivial
  kzalloc := by
    intro h n ht
    obtain ⟨hk, hg⟩ := (guarded_kept.kzalloc n ⟨ht.toKernelHeap, ht.guarded⟩).1
    have hfree := (freeEntries_kept (p := (· &&& HEAP_BLOCK_HAS_NEXT = 0)) rfl).kzalloc n ⟨ht.toKernelHeap, ht.clean⟩
    exact ⟨⟨hk, hg, hfree.1.2⟩, trivial⟩
  kfree := by
    intro h a ht _
    obtain ⟨hk, hg⟩ := guarded_kept.kfree ⟨ht.toKernelHeap, ht.guarded⟩ (a := a) trivial
    have hfree := (freeEntries_kept (p := (· &&& HEAP_BLOCK_HAS_NEXT = 0)) rfl).kfree ⟨ht.toKernelHeap, ht.clean⟩ (a := a) trivial
    exact ⟨hk, hg, hfree.2⟩

/-! ## 囲い -/

/-- 集まり `keep` の値は `h₀` のときのままで、外の割り当ては、集まりの中へ続かない。 -/
structure Shielded (keep : Nat → Prop) (h₀ h : Heap) : Prop extends KernelHeap h where
  guarded : Guarded h
  same : ∀ b < 25600, keep b → h.table.entries b = h₀.table.entries b
  apart : ∀ b : Nat, b + 1 < 25600 → ¬keep b → keep (b + 1) → h.table.entries b &&& HEAP_BLOCK_HAS_NEXT = 0

/-- 集まりの外のブロックか、表よりずっと手前のアドレス。 -/
def Outside (keep : Nat → Prop) (a : Word) : Prop :=
  blockOf a ≤ -4096 ∨ ∃ b < 25600, a = blockAddr b ∧ ¬keep b

/-- 外から中へ進むと、どこかで境目を越える。 -/
theorem exists_boundary {c b : Nat} (hc : ¬keep c) (hb : keep b) (hlt : c < b) :
    ∃ e, c ≤ e ∧ e < b ∧ ¬keep e ∧ keep (e + 1) := by
  induction b with
  | zero => omega
  | succ b ih =>
      by_cases hkb : keep b
      · have hne : c ≠ b := by
          rintro rfl
          exact hc hkb
        obtain ⟨e, h1, h2, h3, h4⟩ := ih hkb (by omega)
        exact ⟨e, h1, by omega, h3, h4⟩
      · exact ⟨b, by omega, by omega, hkb, hb⟩

/-- 外のアドレスの解放は、集まりの中の値を変えない。 -/
theorem Shielded.kfree_same (hs : Shielded keep h₀ h) (ha : Outside keep a) {b : Nat} (hb : b < 25600) (hkb : keep b) :
    (kfree h a).table.entries b = h.table.entries b := by
  rw [hs.kfree_entries]
  rcases ha with hfar | ⟨c, hc, rfl, hkc⟩
  · obtain ⟨g, h1, h2, hstop⟩ := hs.guarded
    exact heapMarkFreeLoop_beyond (by omega) hstop (by omega)
  · have hne : c ≠ b := by
      rintro rfl
      exact hkc hkb
    rw [blockOf_blockAddr (by omega)]
    rcases Nat.lt_or_gt_of_ne hne with hlt | hgt
    · obtain ⟨e, h1, h2, he, he'⟩ := exists_boundary hkc hkb hlt
      exact heapMarkFreeLoop_beyond (e := (e : Int)) (by omega) (hs.apart e (by omega) he he') (by omega)
    · exact heapMarkFreeLoop_before (by omega)

theorem Shielded.kfree (hs : Shielded keep h₀ h) (ha : Outside keep a) : Shielded keep h₀ (kfree h a) := by
  obtain ⟨hk, hg⟩ := guarded_kept.kfree ⟨hs.toKernelHeap, hs.guarded⟩ (a := a) trivial
  refine ⟨hk, hg, ?_, ?_⟩
  · intro b hb hkb
    rw [hs.kfree_same ha hb hkb]
    exact hs.same b hb hkb
  · intro b hb hkb hkb'
    rw [hs.kfree_entries]
    rcases heapMarkFreeLoop_cases (h.table.length.toInt - blockOf a).toNat (blockOf a) b h.table with he | he
    · rw [he]
      exact hs.apart b hb hkb hkb'
    · rw [he]
      decide

/-- 塞がったブロックの囲いは、割り当てでも、外のアドレスの解放でも保たれる。 -/
theorem shielded_kept (htaken : ∀ b < 25600, keep b → h₀.table.freeAt b = false) :
    HeapKept (Shielded keep h₀) (Outside keep) where
  null := .inl (Int.le_of_eq blockOf_zero)
  kfree hs ha := hs.kfree ha
  kzalloc := by
    intro h n hs
    obtain ⟨hk, hg⟩ := (guarded_kept.kzalloc n ⟨hs.toKernelHeap, hs.guarded⟩).1
    rcases hs.kzalloc_cases n with h0 | ⟨c, m, hc, heq, -⟩
    · rw [h0]
      exact ⟨hs, .inl (Int.le_of_eq blockOf_zero)⟩
    · have hlt := hc.lt
      have hcount := hc.count_lt
      have hfree : ∀ b < 25600, h.table.freeAt b = true → ¬keep b := by
        intro b hb hfree hkb
        rw [HeapTable.freeAt, hs.same b hb hkb] at hfree
        have htb := htaken b hb hkb
        rw [HeapTable.freeAt, hfree] at htb
        cases htb
      have hout : ∀ b < 25600, keep b → ¬((c : Int) ≤ b ∧ (b : Int) < c + m) := by
        rintro b hb hkb ⟨h1, h2⟩
        exact hfree b hb (hc.vacant b (by omega) (by omega) hb) hkb
      rw [heq] at hk hg ⊢
      refine ⟨⟨hk, hg, ?_, ?_⟩, .inr ⟨c, hlt, rfl, hfree c hlt hc.first⟩⟩
      · intro b hb hkb
        rw [markTaken_entries (by omega), if_neg (hout b hb hkb)]
        exact hs.same b hb hkb
      · intro b hb hkb hkb'
        have hnext := hout (b + 1) hb hkb'
        rw [markTaken_entries (by omega)]
        split
        · -- 次のブロックは範囲に入らないので、ここが範囲の終わりである。
          exact takenEntry_hasNext.2 (by omega)
        · exact hs.apart b hb hkb hkb'

/-! ## 塞がったすべてのブロックの囲い -/

def Taken (h : Heap) (b : Nat) : Prop := h.table.freeAt b = false

theorem taken_kept (h₀ : Heap) : HeapKept (Shielded (Taken h₀) h₀) (Outside (Taken h₀)) :=
  shielded_kept fun _ _ hb => hb

theorem Tidy.shielded (ht : Tidy h) : Shielded (Taken h) h h where
  toKernelHeap := ht.toKernelHeap
  guarded := ht.guarded
  same _ _ _ := rfl
  apart b hb hkb _ := ht.clean b (by omega) (by simpa [Taken] using hkb)

theorem Shielded.taken (hs : Shielded (Taken h₀) h₀ h) {b : Nat} (hb : b < 25600) (hkb : Taken h₀ b) : Taken h b := by
  rw [Taken, HeapTable.freeAt, hs.same b hb hkb]
  exact hkb

theorem Shielded.trans (h₁ : Shielded (Taken h₀) h₀ h) (h₂ : Shielded (Taken h) h h') : Shielded (Taken h₀) h₀ h' where
  toKernelHeap := h₂.toKernelHeap
  guarded := h₂.guarded
  same b hb hkb := (h₂.same b hb (h₁.taken hb hkb)).trans (h₁.same b hb hkb)
  apart b hb hkb hkb' := by
    by_cases hb' : Taken h b
    · rw [h₂.same b (by omega) hb']
      exact h₁.apart b hb hkb hkb'
    · exact h₂.apart b hb hb' (h₁.taken hb hkb')

/-! ## 新しい割り当て -/

/-- `h₀` では空いていた、番号 `b` から `m` 個の割り当て。表の終わりを越えることがある。 -/
structure MadeAt (h₀ h : Heap) (b m : Nat) : Prop where
  pos : 0 < m
  lt : b < 25600
  fresh : ∀ i, b ≤ i → i < b + m → i < 25600 → h₀.table.freeAt i = true
  taken : ∀ i, b ≤ i → i < b + m → i < 25600 → h.table.freeAt i = false
  stop : b + m ≤ 25600 → h.table.entries ((b + m - 1 : Nat) : Int) &&& HEAP_BLOCK_HAS_NEXT = 0

/-- `h₀` の後に割り当てたアドレスで、`h` でも塞がったままである。 -/
def Made (h₀ h : Heap) (a : Word) : Prop := ∃ b m, a = blockAddr b ∧ MadeAt h₀ h b m

theorem Made.fresh (hm : Made h₀ h a) : ∃ b < 25600, a = blockAddr b ∧ h₀.table.freeAt b = true := by
  obtain ⟨b, m, rfl, hm⟩ := hm
  have hpos := hm.pos
  exact ⟨b, hm.lt, rfl, hm.fresh b (Nat.le_refl b) (by omega) hm.lt⟩

theorem Made.ne_zero (hm : Made h₀ h a) : a ≠ 0 := by
  obtain ⟨b, hb, rfl, -⟩ := hm.fresh
  exact blockAddr_ne_zero (Nat.le_of_lt hb)

theorem MadeAt.shielded {b m : Nat} (hm : MadeAt h₀ h b m) (hs : Shielded (Taken h) h h') : MadeAt h₀ h' b m where
  pos := hm.pos
  lt := hm.lt
  fresh := hm.fresh
  taken i h1 h2 h3 := hs.taken h3 (hm.taken i h1 h2 h3)
  stop hle := by
    have hpos := hm.pos
    rw [hs.same _ (by omega) (hm.taken _ (by omega) (by omega) (by omega))]
    exact hm.stop hle

theorem MadeAt.later {b m : Nat} (hm : MadeAt h h' b m) (hs : Shielded (Taken h₀) h₀ h) : MadeAt h₀ h' b m where
  pos := hm.pos
  lt := hm.lt
  fresh i h1 h2 h3 := by
    by_contra hno
    have htaken := hs.taken h3 (show Taken h₀ i by simpa [Taken] using hno)
    have hfree := hm.fresh i h1 h2 h3
    rw [htaken] at hfree
    cases hfree
  taken := hm.taken
  stop := hm.stop

/-- 割り当ての後に囲いが保たれていれば、割り当ても残っている。 -/
theorem Made.shielded (hm : Made h₀ h a) (hs : Shielded (Taken h) h h') : Made h₀ h' a := by
  obtain ⟨b, m, rfl, hm⟩ := hm
  exact ⟨b, m, rfl, hm.shielded hs⟩

/-- 後の割り当ては、初めの状態から見ても新しい。 -/
theorem Made.later (hm : Made h h' a) (hs : Shielded (Taken h₀) h₀ h) : Made h₀ h' a := by
  obtain ⟨b, m, rfl, hm⟩ := hm
  exact ⟨b, m, rfl, hm.later hs⟩

/-- 大きさの切り上げが 0 に戻らない割り当ては、その大きさの新しい範囲である。 -/
theorem KernelHeap.madeAt (hk : KernelHeap h) (hpos : 0 < n) (hle : n ≤ 0xFFFFF000) (hmade : kzalloc h n = (p, h'))
    (hne : p ≠ 0) : ∃ b, p = blockAddr b ∧ MadeAt h h' b ((n + 4095) / 4096) := by
  rcases hk.kzalloc_cases n with h0 | ⟨b, m, hb, heq, hm⟩
  · rw [h0] at hmade
    cases hmade
    exact absurd rfl hne
  · have hcount := hm hle
    have hmlt := hb.count_lt
    have hlt := hb.lt
    rw [heq] at hmade
    cases hmade
    rw [← hcount]
    refine ⟨b, rfl, by omega, hlt, hb.vacant, ?_, ?_⟩
    · intro i h1 h2 _
      rw [HeapTable.freeAt, markTaken_entries (by omega), if_pos (by omega)]
      exact decide_eq_false (takenEntry_ne_free _ _ _)
    · intro _
      rw [markTaken_entries (by omega), if_pos (by omega)]
      exact takenEntry_hasNext.2 (by omega)

theorem KernelHeap.made (hk : KernelHeap h) (hpos : 0 < n) (hle : n ≤ 0xFFFFF000) (hmade : kzalloc h n = (p, h'))
    (hne : p ≠ 0) : Made h h' p := by
  obtain ⟨b, hb, hm⟩ := hk.madeAt hpos hle hmade hne
  exact ⟨b, _, hb, hm⟩

end EnkiOs
