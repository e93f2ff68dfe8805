import EnkiOs.Heap.Lemmas.Kernel
import EnkiOs.Paging.Table

/-!
# 作った直後のページの表

`paging_new` は、互いに異なるブロックに 1024 個のテーブルを置き、どのページも自分自身へ割り付ける。
-/

namespace EnkiOs
open Machine

/-! ## 項目のアドレスの部分 -/

/-- 揃ったアドレスとフラグの組から、アドレスの部分を取り出す。 -/
theorem PageAligned.and_mask {a flags : Word} (ha : PageAligned a) (hf : flags.toNat < 4096) :
    (a ||| flags) &&& 0xFFFFF000 = a := by
  have hmask : ∀ i < 32, (0xFFFFF000 : Word).getLsbD i = decide (12 ≤ i) := by decide
  apply BitVec.eq_of_getLsbD_eq
  intro i hi
  rw [BitVec.getLsbD_and, BitVec.getLsbD_or, hmask i hi]
  by_cases hlow : 12 ≤ i
  · have hzero : flags.getLsbD i = false :=
      Nat.testBit_lt_two_pow (Nat.lt_of_lt_of_le hf (Nat.pow_le_pow_right (show 0 < 2 by decide) hlow))
    simp [hzero, hlow]
  · have hzero : a.getLsbD i = false := by
      have hdvd : a.toNat = 2 ^ 12 * (a.toNat / 4096) := by
        simp only [PageAligned] at ha
        omega
      show a.toNat.testBit i = false
      rw [hdvd, Nat.testBit_two_pow_mul, decide_eq_false hlow, Bool.false_and]
    simp [hzero, hlow]

theorem PageAligned.or_toNat {a flags : Word} (ha : PageAligned a) (hf : flags.toNat < 4096) :
    (a ||| flags).toNat = a.toNat + flags.toNat := by
  have hdvd : a.toNat = 2 ^ 12 * (a.toNat / 4096) := by
    simp only [PageAligned] at ha
    omega
  rw [BitVec.toNat_or, hdvd, ← Nat.two_pow_add_eq_or_of_lt (i := 12) (by omega)]

theorem PageAligned.or_inj {a b f g : Word} (ha : PageAligned a) (hb : PageAligned b) (hf : f.toNat < 4096)
    (hg : g.toNat < 4096) : a ||| f = b ||| g ↔ a = b ∧ f = g := by
  constructor
  · intro h
    have hn := congrArg BitVec.toNat h
    rw [ha.or_toNat hf, hb.or_toNat hg] at hn
    simp only [PageAligned] at ha hb
    exact ⟨BitVec.eq_of_toNat_eq (by omega), BitVec.eq_of_toNat_eq (by omega)⟩
  · rintro ⟨rfl, rfl⟩
    rfl

/-- フラグのバイトに、別のフラグを加えても、アドレスの部分に届かない。 -/
theorem flagsOr_lt (flags : Byte) (more : Word) (hmore : more.toNat < 4096) :
    ((flags.setWidth 32 : Word) ||| more).toNat < 4096 := by
  have h8 := flags.isLt
  have hw : (flags.setWidth 32 : Word).toNat = flags.toNat := by
    rw [BitVec.toNat_setWidth]
    omega
  rw [BitVec.toNat_or, hw]
  exact Nat.or_lt_two_pow (n := 12) (by omega) hmore

theorem pageAligned_blockAddr {b : Nat} (hb : b ≤ 25600) : PageAligned (blockAddr b) := by
  rw [PageAligned, blockAddr_toNat hb]
  omega

theorem ofNat_page_aligned (n : Nat) : PageAligned (BitVec.ofNat 32 (4096 * n)) := by
  rw [PageAligned, BitVec.toNat_ofNat]
  omega

/-! ## テーブルの書き込み -/

theorem pagingFillTable_other {flags entry offset x : Word} {k j : Nat} {words : Words}
    (hx : ∀ m, j ≤ m → m < j + k → x ≠ entryAddr entry (BitVec.ofNat 32 m)) :
    pagingFillTable flags entry offset k j words x = words x := by
  induction k generalizing j words with
  | zero => rfl
  | succ k ih =>
      rw [pagingFillTable, ih fun m h1 h2 => hx m (by omega) (by omega)]
      exact Words.set_other _ (hx j (Nat.le_refl j) (by omega))

theorem pagingFillTable_at {flags entry offset : Word} (hal : PageAligned entry) {k j m : Nat} {words : Words}
    (hk : j + k ≤ 1024) (hj : j ≤ m) (hm : m < j + k) :
    pagingFillTable flags entry offset k j words (entryAddr entry (BitVec.ofNat 32 m)) =
      (offset + BitVec.ofNat 32 m * PAGING_PAGE_SIZE) ||| flags := by
  induction k generalizing j words with
  | zero => omega
  | succ k ih =>
      rw [pagingFillTable]
      by_cases he : m = j
      · subst he
        rw [pagingFillTable_other]
        · exact Words.set_same _ _ _
        · intro l h1 h2 heq
          have := (entryAddr_inj hal hal (by omega) (by omega) heq).2
          omega
      · exact ih (by omega) (by omega) (by omega)

theorem entryAddr_apart {x y m l : Nat} (hx : x < 25600) (hy : y < 25600) (hne : x ≠ y) (hm : m < 1024) (hl : l < 1024) :
    entryAddr (blockAddr x) (BitVec.ofNat 32 m) ≠ entryAddr (blockAddr y) (BitVec.ofNat 32 l) := by
  intro heq
  have hblock := (entryAddr_inj (pageAligned_blockAddr (by omega)) (pageAligned_blockAddr (by omega)) hm hl heq).1
  exact hne (blockAddr_inj (by omega) (by omega) hblock)

theorem pagingFillTable_apart {flags offset : Word} {x b m : Nat} {words : Words} (hx : x < 25600) (hb : b < 25600) (hne : x ≠ b)
    (hm : m < 1024) :
    pagingFillTable flags (blockAddr b) offset PAGING_TOTAL_ENTRIES_PER_TABLE 0 words (entryAddr (blockAddr x) (BitVec.ofNat 32 m)) =
      words (entryAddr (blockAddr x) (BitVec.ofNat 32 m)) :=
  pagingFillTable_other fun l _ hl => entryAddr_apart hx hb hne hm (show l < 1024 from Nat.zero_add 1024 ▸ hl)

/-! ## ディレクトリの繰り返し -/

theorem mark_one_freeAt {h : Heap} {b i : Nat} (hb : b < 25600) :
    (heapMarkBlocksTaken h b 1).table.freeAt i = if i = b then false else h.table.freeAt i := by
  have hentry := heapMarkBlocksTaken_entries (h := h) (s := b) (m := 1) (by decide) (by omega) i
  rw [HeapTable.freeAt, show (1 : Int) = ((1 : Nat) : Int) from rfl, hentry]
  by_cases hi : i = b
  · rw [if_pos (by omega), if_pos hi]
    exact decide_eq_false (takenEntry_ne_free _ _ _)
  · rw [if_neg (by omega), if_neg hi]
    rfl

theorem pagingNewLoop_null {flags entries offset : Word} {k i : Nat} {heap heap₁ : Heap} {words : Words}
    (hk : kzalloc heap (4 * PAGING_TOTAL_ENTRIES_PER_TABLE) = (0, heap₁)) :
    pagingNewLoop flags entries (k + 1) i offset heap words = .error .nullDeref := by
  rw [pagingNewLoop, hk]
  exact if_pos rfl

theorem pagingNewLoop_succ {flags entries offset entry : Word} {k i : Nat} {heap heap₁ : Heap} {words : Words}
    (hk : kzalloc heap (4 * PAGING_TOTAL_ENTRIES_PER_TABLE) = (entry, heap₁)) (hne : entry ≠ 0) :
    pagingNewLoop flags entries (k + 1) i offset heap words =
      pagingNewLoop flags entries k (i + 1)
        (offset + BitVec.ofNat 32 PAGING_TOTAL_ENTRIES_PER_TABLE * PAGING_PAGE_SIZE) heap₁
        ((pagingFillTable flags entry offset PAGING_TOTAL_ENTRIES_PER_TABLE 0 words).set
          (entryAddr entries (BitVec.ofNat 32 i)) (entry ||| flags ||| PAGING_IS_WRITEABLE)) := by
  rw [pagingNewLoop, hk]
  exact if_neg hne

theorem tableOffset_succ (i : Nat) :
    BitVec.ofNat 32 (4096 * (1024 * i)) + BitVec.ofNat 32 PAGING_TOTAL_ENTRIES_PER_TABLE * PAGING_PAGE_SIZE =
      BitVec.ofNat 32 (4096 * (1024 * (i + 1))) := by
  rw [Nat.mul_succ, Nat.mul_add, BitVec.ofNat_add]
  rfl

/-- ヒープの性質 `P` が、一ブロックに収まる割り当てで保たれる。割り当ての返すアドレスは `Q` を満たす。 -/
def PageKept (P : Heap → Prop) (Q : Word → Prop) : Prop :=
  ∀ (h : Heap) (n : Nat), 0 < n → n ≤ 4096 → P h → P (kzalloc h n).2 ∧ Q (kzalloc h n).1

theorem HeapKept.pages {P : Heap → Prop} {Q : Word → Prop} (hkept : HeapKept P Q) : PageKept P Q :=
  fun _ n _ _ => hkept.kzalloc n

/-- テーブルを `i` 個作り終えたときの状態。番号 `j` のテーブルはブロック `c j` に、ディレクトリはブロック `e` にある。 -/
structure Built (P : Heap → Prop) (Q : Word → Prop) (flags : Word) (e : Nat) (c : Nat → Nat) (i : Nat) (heap : Heap)
    (words : Words) : Prop where
  kernel : KernelHeap heap
  kept : P heap
  entries_lt : e < 25600
  entries_taken : heap.table.freeAt e = false
  lt : ∀ j < i, c j < 25600
  taken : ∀ j < i, heap.table.freeAt (c j) = false
  inj : ∀ j < i, ∀ k < i, c j = c k → j = k
  ne : ∀ j < i, c j ≠ e
  addr : ∀ j < i, Q (blockAddr (c j))
  dirEntry : ∀ j < i, words (entryAddr (blockAddr e) (BitVec.ofNat 32 j)) =
    blockAddr (c j) ||| flags ||| PAGING_IS_WRITEABLE
  entry : ∀ j < i, ∀ m < 1024, words (entryAddr (blockAddr (c j)) (BitVec.ofNat 32 m)) =
    BitVec.ofNat 32 (4096 * (1024 * j + m)) ||| flags

section

variable {P : Heap → Prop} {Q : Word → Prop} {flags : Word} {e i : Nat} {c : Nat → Nat} {heap : Heap} {words : Words}

theorem Built.ne_of_free (hb : Built P Q flags e c i heap words) {b : Nat} (hfree : heap.table.freeAt b = true) :
    e ≠ b ∧ ∀ j < i, c j ≠ b :=
  ⟨HeapTable.ne_of_freeAt hb.entries_taken hfree, fun j hj => HeapTable.ne_of_freeAt (hb.taken j hj) hfree⟩

/-- テーブルを一つ作る。 -/
theorem Built.step (hkept : PageKept P Q) (hb : Built P Q flags e c i heap words) (hi : i < 1024) {b : Nat} (hlt : b < 25600)
    (hfree : heap.table.freeAt b = true)
    (hk : kzalloc heap (4 * PAGING_TOTAL_ENTRIES_PER_TABLE) = (blockAddr b, heapMarkBlocksTaken heap b 1)) :
    Built P Q flags e (fun j => if j = i then b else c j) (i + 1) (heapMarkBlocksTaken heap b 1)
      ((pagingFillTable flags (blockAddr b) (BitVec.ofNat 32 (4096 * (1024 * i))) PAGING_TOTAL_ENTRIES_PER_TABLE 0
        words).set (entryAddr (blockAddr e) (BitVec.ofNat 32 i)) (blockAddr b ||| flags ||| PAGING_IS_WRITEABLE)) := by
  obtain ⟨hbe, hnew⟩ := hb.ne_of_free hfree
  have he := hb.entries_lt
  have hale : PageAligned (blockAddr e) := pageAligned_blockAddr (by omega)
  have halb : PageAligned (blockAddr b) := pageAligned_blockAddr (by omega)
  have hpage : PAGING_PAGE_SIZE.toNat = 4096 := rfl
  have hkept' := hkept _ (4 * PAGING_TOTAL_ENTRIES_PER_TABLE) (by decide) (by decide) hb.kept
  have hkernel := (kernelHeap_kept.kzalloc (4 * PAGING_TOTAL_ENTRIES_PER_TABLE) hb.kernel).1
  rw [hk] at hkept' hkernel
  constructor
  · exact hkernel
  · exact hkept'.1
  · exact he
  · rw [mark_one_freeAt hlt, if_neg hbe]
    exact hb.entries_taken
  · intro j hj
    split
    · exact hlt
    · exact hb.lt j (by omega)
  · intro j hj
    rw [mark_one_freeAt hlt]
    by_cases hji : j = i
    · rw [if_pos (if_pos hji)]
    · rw [if_neg hji, if_neg (hnew j (by omega))]
      exact hb.taken j (by omega)
  · intro j hj k hk'
    split <;> split
    · omega
    · intro heq
      exact absurd heq.symm (hnew k (by omega))
    · intro heq
      exact absurd heq (hnew j (by omega))
    · exact hb.inj j (by omega) k (by omega)
  · intro j hj
    split
    · exact hbe.symm
    · exact hb.ne j (by omega)
  · intro j hj
    split
    · exact hkept'.2
    · exact hb.addr j (by omega)
  · intro j hj
    by_cases hji : j = i
    · subst hji
      simp
    · have hne : entryAddr (blockAddr e) (BitVec.ofNat 32 j) ≠ entryAddr (blockAddr e) (BitVec.ofNat 32 i) := by
        intro heq
        exact hji (entryAddr_inj hale hale (by omega) hi heq).2
      rw [Words.set_other _ hne, pagingFillTable_apart he hlt hbe (by omega), if_neg hji]
      exact hb.dirEntry j (by omega)
  · intro j hj m hm
    by_cases hji : j = i
    · subst hji
      simp only [if_true]
      rw [Words.set_other _ (entryAddr_apart hlt he hbe.symm hm hi), pagingFillTable_at halb (by decide) (by omega) (by omega)]
      congr 1
      apply BitVec.eq_of_toNat_eq
      simp only [BitVec.toNat_add, BitVec.toNat_mul, BitVec.toNat_ofNat, hpage]
      omega
    · simp only [if_neg hji]
      have hjlt := hb.lt j (by omega)
      rw [Words.set_other _ (entryAddr_apart hjlt he (hb.ne j (by omega)) hm hi),
        pagingFillTable_apart hjlt hlt (hnew j (by omega)) hm]
      exact hb.entry j (by omega) m hm

/-- ディレクトリを置くブロック `d` に、テーブルの並びの位置を書く。 -/
theorem Built.pageDir (hb : Built P Q flags e c 1024 heap words) (hflags : (flags ||| PAGING_IS_WRITEABLE).toNat < 4096) {d : Nat}
    (hd : d < 25600) (hfree : heap.table.freeAt d = true) {words' : Words}
    (hwords : words' = words.set (blockAddr d) (blockAddr e)) :
    PageDir words' (blockAddr d) (blockAddr e) (fun i => blockAddr (c i)) ∧
      (∀ n < 2 ^ 20, words' (pageSlot (fun i => blockAddr (c i)) n) = BitVec.ofNat 32 (4096 * n) ||| flags) ∧
      ∀ i < 1024, words' (entryAddr (blockAddr e) (BitVec.ofNat 32 i)) = blockAddr (c i) ||| (flags ||| PAGING_IS_WRITEABLE) := by
  subst hwords
  obtain ⟨hed, hcd⟩ := hb.ne_of_free hfree
  have helt := hb.entries_lt
  have hinj : ∀ {x y : Nat}, x < 25600 → y < 25600 → blockAddr x = blockAddr y → x = y := fun hx hy h =>
    blockAddr_inj (Nat.le_of_lt hx) (Nat.le_of_lt hy) h
  have halc : ∀ j < 1024, PageAligned (blockAddr (c j)) := fun j hj => pageAligned_blockAddr (Nat.le_of_lt (hb.lt j hj))
  -- ディレクトリの書き込みは、テーブルの項目を変えない。
  have hother : ∀ {x : Nat}, x < 25600 → x ≠ d → ∀ m < 1024,
      entryAddr (blockAddr x) (BitVec.ofNat 32 m) ≠ blockAddr d := by
    intro x hx hxd m hm heq
    rw [← entryAddr_zero (blockAddr d)] at heq
    exact entryAddr_apart hx hd hxd hm (by decide) heq
  have hdirEntry : ∀ i < 1024, words.set (blockAddr d) (blockAddr e) (entryAddr (blockAddr e) (BitVec.ofNat 32 i)) =
      blockAddr (c i) ||| (flags ||| PAGING_IS_WRITEABLE) := by
    intro i hi
    rw [Words.set_other _ (hother helt hed i hi), hb.dirEntry i hi, BitVec.or_assoc]
  refine ⟨⟨Words.set_same _ _ _, ?_, pageAligned_blockAddr (Nat.le_of_lt hd), pageAligned_blockAddr (Nat.le_of_lt helt), halc,
    ?_, ?_, ?_⟩, ?_, hdirEntry⟩
  · intro i hi
    rw [hdirEntry i hi]
    exact (halc i hi).and_mask hflags
  · exact fun i hi j hj heq => hb.inj i hi j hj (hinj (hb.lt i hi) (hb.lt j hj) heq)
  · exact fun i hi heq => hb.ne i hi (hinj (hb.lt i hi) helt heq)
  · exact fun i hi heq => hcd i hi (hinj (hb.lt i hi) hd heq)
  · intro n hn
    have hdiv : n / 1024 < 1024 := by omega
    have hmod : n % 1024 < 1024 := Nat.mod_lt n (by decide)
    rw [pageSlot, Words.set_other _ (hother (hb.lt _ hdiv) (hcd _ hdiv) _ hmod), hb.entry _ hdiv _ hmod, Nat.div_add_mod]

theorem Built.blocks_taken (hb : Built P Q flags e c i heap words) {d : Nat} (hd : d < 25600) (hfree : heap.table.freeAt d = true) :
    ∀ p, (p = blockAddr d ∨ p = blockAddr e ∨ ∃ j < i, p = blockAddr (c j)) →
      ∃ b < 25600, p = blockAddr b ∧ (heapMarkBlocksTaken heap d 1).table.freeAt b = false := by
  obtain ⟨hed, hcd⟩ := hb.ne_of_free hfree
  rintro p (rfl | rfl | ⟨j, hj, rfl⟩)
  · refine ⟨d, hd, rfl, ?_⟩
    rw [mark_one_freeAt hd, if_pos rfl]
  · refine ⟨e, hb.entries_lt, rfl, ?_⟩
    rw [mark_one_freeAt hd, if_neg hed]
    exact hb.entries_taken
  · refine ⟨c j, hb.lt j hj, rfl, ?_⟩
    rw [mark_one_freeAt hd, if_neg (hcd j hj)]
    exact hb.taken j hj

theorem pagingNewLoop_built (hkept : PageKept P Q) {k : Nat} {heap' : Heap} {words' : Words}
    (hb : Built P Q flags e c i heap words) (hi : i + k ≤ 1024)
    (h : pagingNewLoop flags (blockAddr e) k i (BitVec.ofNat 32 (4096 * (1024 * i))) heap words = .ok (heap', words')) :
    ∃ c', Built P Q flags e c' (i + k) heap' words' := by
  induction k generalizing i c heap words with
  | zero =>
      cases h
      exact ⟨c, hb⟩
  | succ k ih =>
      rcases hb.kernel.kzalloc_small (n := 4 * PAGING_TOTAL_ENTRIES_PER_TABLE) (by decide) (by decide) with
        h0 | ⟨b, hlt, hfree, heq⟩
      · rw [pagingNewLoop_null h0] at h
        cases h
      · rw [pagingNewLoop_succ heq (blockAddr_ne_zero (Nat.le_of_lt hlt)), tableOffset_succ] at h
        have hb' := hb.step hkept (show i < 1024 by omega) hlt hfree heq
        rw [show i + (k + 1) = i + 1 + k by omega]
        exact ih hb' (by omega) h

end

/-- `paging_new` の作る表。どのページも自分自身へ割り付けられ、フラグは引数のものである。表のどのブロックも、終わったときに
塞がっている。 -/
theorem pagingNew_built {P : Heap → Prop} {Q : Word → Prop} (hkept : PageKept P Q) {heap heap' : Heap}
    {words words' : Words} {flags : Byte} {dir : Word} (hk : KernelHeap heap) (hP : P heap)
    (h : pagingNew heap words flags = .ok (dir, heap', words')) :
    KernelHeap heap' ∧ P heap' ∧ ∃ entries table, PageDir words' dir entries table ∧
      (∀ n < 2 ^ 20, words' (pageSlot table n) = BitVec.ofNat 32 (4096 * n) ||| flags.setWidth 32) ∧
      (∀ i < 1024, words' (entryAddr entries (BitVec.ofNat 32 i)) = table i ||| (flags.setWidth 32 ||| PAGING_IS_WRITEABLE)) ∧
      (Q dir ∧ Q entries ∧ ∀ i < 1024, Q (table i)) ∧
      ∀ p, (p = dir ∨ p = entries ∨ ∃ i < 1024, p = table i) → ∃ b < 25600, p = blockAddr b ∧ heap'.table.freeAt b = false := by
  have hflags := flagsOr_lt flags PAGING_IS_WRITEABLE (by decide)
  simp only [pagingNew] at h
  rcases hk.kzalloc_small (n := 4 * PAGING_TOTAL_ENTRIES_PER_TABLE) (by decide) (by decide) with
    h0 | ⟨e, helt, hefree, heq⟩
  · rw [h0] at h
    cases h
  · have hP₁ := hkept _ (4 * PAGING_TOTAL_ENTRIES_PER_TABLE) (by decide) (by decide) hP
    have hk₁ := (kernelHeap_kept.kzalloc (4 * PAGING_TOTAL_ENTRIES_PER_TABLE) hk).1
    rw [heq] at h hP₁ hk₁
    simp only [if_neg (blockAddr_ne_zero (Nat.le_of_lt helt))] at h
    obtain ⟨⟨heap₂, words₂⟩, hloop, h⟩ := bind_ok.1 h
    have hstart : Built P Q (flags.setWidth 32) e (fun _ => 0) 0 (heapMarkBlocksTaken heap e 1) words := by
      refine ⟨hk₁, hP₁.1, helt, ?_, ?_, ?_, ?_, ?_, ?_, ?_, ?_⟩
      · rw [mark_one_freeAt helt, if_pos rfl]
      all_goals
        intro j hj
        omega
    have hzero : (0 : Word) = BitVec.ofNat 32 (4096 * (1024 * 0)) := rfl
    rw [hzero] at hloop
    obtain ⟨c, hb⟩ := pagingNewLoop_built hkept hstart (by decide) hloop
    rw [Nat.zero_add] at hb
    simp only at h
    rcases hb.kernel.kzalloc_small (n := 4) (by decide) (by decide) with h0 | ⟨d, hdlt, hdfree, hdeq⟩
    · rw [h0] at h
      cases h
    · have hP₃ := hkept _ 4 (by decide) (by decide) hb.kept
      have hk₃ := (kernelHeap_kept.kzalloc 4 hb.kernel).1
      rw [hdeq] at h hP₃ hk₃
      simp only [if_neg (blockAddr_ne_zero (Nat.le_of_lt hdlt))] at h
      cases h
      obtain ⟨hpage, hself, hdirEntry⟩ := hb.pageDir hflags hdlt hdfree rfl
      exact ⟨hk₃, hP₃.1, blockAddr e, fun i => blockAddr (c i), hpage, hself, hdirEntry, ⟨hP₃.2, hP₁.2, hb.addr⟩,
        hb.blocks_taken hdlt hdfree⟩

theorem pagingNew_pageDir {P : Heap → Prop} {Q : Word → Prop} (hkept : HeapKept P Q) {heap heap' : Heap}
    {words words' : Words} {flags : Byte} {dir : Word} (hk : KernelHeap heap) (hP : P heap)
    (h : pagingNew heap words flags = .ok (dir, heap', words')) :
    KernelHeap heap' ∧ P heap' ∧ ∃ entries table, PageDir words' dir entries table ∧
      (∀ n < 2 ^ 20, words' (pageSlot table n) = BitVec.ofNat 32 (4096 * n) ||| flags.setWidth 32) ∧
      Q dir ∧ Q entries ∧ ∀ i < 1024, Q (table i) := by
  obtain ⟨hk', hP', entries, table, hpage, hself, -, hQ, -⟩ := pagingNew_built hkept.pages hk hP h
  exact ⟨hk', hP', entries, table, hpage, hself, hQ⟩

end EnkiOs
