import EnkiOs.Heap.Shield
import EnkiOs.Paging.New

/-!
# 新しい表と、ほかの表

`paging_new` は新しいブロックだけに書き、表への割り付けは、その表の項目だけを書き換える。塞がっていたブロックにある
ほかの表は変わらない。
-/

namespace EnkiOs
open Machine

variable {h₀ heap heap' : Heap} {words words' : Words} {x dir entries : Word} {table : Nat → Word}

/-! ## 塞がったブロックの語 -/

/-- `x` は、塞がったブロックに並ぶ語である。 -/
def InTaken (h : Heap) (x : Word) : Prop :=
  ∃ b < 25600, Taken h b ∧ ∃ k < 1024, x = entryAddr (blockAddr b) (BitVec.ofNat 32 k)

theorem InTaken.ne (hx : InTaken h₀ x) {b m : Nat} (hb : b < 25600) (hfree : h₀.table.freeAt b = true) (hm : m < 1024) :
    x ≠ entryAddr (blockAddr b) (BitVec.ofNat 32 m) := by
  obtain ⟨c, hc, htaken, k, hk, rfl⟩ := hx
  exact entryAddr_apart hc hb (HeapTable.ne_of_freeAt htaken hfree) hk hm

theorem pagingNewLoop_other {flags entries offset : Word} {k i : Nat} (hk : KernelHeap heap)
    (hfree : ∀ b < 25600, heap.table.freeAt b = true → h₀.table.freeAt b = true) (hx : InTaken h₀ x)
    (hentries : ∃ e < 25600, entries = blockAddr e ∧ h₀.table.freeAt e = true) (hi : i + k ≤ 1024)
    (h : pagingNewLoop flags entries k i offset heap words = .ok (heap', words')) :
    words' x = words x ∧ KernelHeap heap' ∧ ∀ b < 25600, heap'.table.freeAt b = true → h₀.table.freeAt b = true := by
  induction k generalizing i offset heap words with
  | zero =>
      cases h
      exact ⟨rfl, hk, hfree⟩
  | succ k ih =>
      rcases hk.kzalloc_small (n := 4 * PAGING_TOTAL_ENTRIES_PER_TABLE) (by decide) (by decide) with
        h0 | ⟨b, hb, hbfree, heq⟩
      · rw [pagingNewLoop_null h0] at h
        cases h
      · have hk' := (kernelHeap_kept.kzalloc (4 * PAGING_TOTAL_ENTRIES_PER_TABLE) hk).1
        rw [heq] at hk'
        rw [pagingNewLoop_succ heq (blockAddr_ne_zero (Nat.le_of_lt hb))] at h
        have hfree' : ∀ c < 25600, (heapMarkBlocksTaken heap b 1).table.freeAt c = true → h₀.table.freeAt c = true := by
          intro c hc hcfree
          rw [mark_one_freeAt hb] at hcfree
          split at hcfree
          · cases hcfree
          · exact hfree c hc hcfree
        obtain ⟨hwords, hrest⟩ := ih hk' hfree' (by omega) h
        obtain ⟨e, he, rfl, hefree⟩ := hentries
        refine ⟨?_, hrest⟩
        rw [hwords, Words.set_other _ (hx.ne he hefree (by omega)), pagingFillTable_other]
        intro m _ hm
        exact hx.ne hb (hfree b hb hbfree) (by omega)

/-- `paging_new` は、塞がっていたブロックの語を変えない。 -/
theorem pagingNew_other {flags : Byte} (hk : KernelHeap heap) (hx : InTaken heap x)
    (h : pagingNew heap words flags = .ok (dir, heap', words')) : words' x = words x := by
  simp only [pagingNew] at h
  rcases hk.kzalloc_small (n := 4 * PAGING_TOTAL_ENTRIES_PER_TABLE) (by decide) (by decide) with
    h0 | ⟨e, he, hefree, heq⟩
  · rw [h0] at h
    cases h
  · have hk₁ := (kernelHeap_kept.kzalloc (4 * PAGING_TOTAL_ENTRIES_PER_TABLE) hk).1
    rw [heq] at h hk₁
    simp only [if_neg (blockAddr_ne_zero (Nat.le_of_lt he))] at h
    obtain ⟨⟨heap₂, words₂⟩, hloop, h⟩ := bind_ok.1 h
    have hfree₁ : ∀ b < 25600, (heapMarkBlocksTaken heap e 1).table.freeAt b = true → heap.table.freeAt b = true := by
      intro b hb hbfree
      rw [mark_one_freeAt he] at hbfree
      split at hbfree
      · cases hbfree
      · exact hbfree
    obtain ⟨hwords, hk₂, hfree₂⟩ := pagingNewLoop_other hk₁ hfree₁ hx ⟨e, he, rfl, hefree⟩ (by decide) hloop
    simp only at h
    rcases hk₂.kzalloc_small (n := 4) (by decide) (by decide) with h0 | ⟨d, hd, hdfree, hdeq⟩
    · rw [h0] at h
      cases h
    · rw [hdeq] at h
      simp only [if_neg (blockAddr_ne_zero (Nat.le_of_lt hd))] at h
      cases h
      rw [Words.set_other _ (by
        rw [← entryAddr_zero (blockAddr d)]
        exact hx.ne hd (hfree₂ d hd hdfree) (by decide))]
      exact hwords

/-! ## 一ブロックずつの割り当て -/

/-- `h₀` の後に塞がったブロックは、どれも一ブロックの割り当てである。 -/
def Singles (h₀ h : Heap) : Prop :=
  ∀ b < 25600, h₀.table.freeAt b = true → Taken h b → h.table.entries b &&& HEAP_BLOCK_HAS_NEXT = 0

theorem Singles.kzalloc {n : Nat} (hs : Singles h₀ heap) (hk : KernelHeap heap) (hpos : 0 < n) (hle : n ≤ 4096) :
    Singles h₀ (kzalloc heap n).2 := by
  rcases hk.kzalloc_small hpos hle with h0 | ⟨c, hc, hcfree, heq⟩
  · rw [h0]
    exact hs
  · rw [heq]
    intro b hb hfree htaken
    have hentry := markTaken_entries (h := heap) (s := c) (m := 1) (by omega) b
    rw [Int.natCast_one] at hentry
    rw [hentry]
    split
    · exact takenEntry_hasNext.2 (by omega)
    · rename_i hout
      rw [Taken, mark_one_freeAt hc, if_neg (by omega)] at htaken
      exact hs b hb hfree htaken

theorem pagingNewLoop_singles {flags entries offset : Word} {k i : Nat} (hs : Singles h₀ heap) (hk : KernelHeap heap)
    (h : pagingNewLoop flags entries k i offset heap words = .ok (heap', words')) : Singles h₀ heap' ∧ KernelHeap heap' := by
  induction k generalizing i offset heap words with
  | zero =>
      cases h
      exact ⟨hs, hk⟩
  | succ k ih =>
      have hs' := hs.kzalloc hk (n := 4 * PAGING_TOTAL_ENTRIES_PER_TABLE) (by decide) (by decide)
      have hk' := (kernelHeap_kept.kzalloc (4 * PAGING_TOTAL_ENTRIES_PER_TABLE) hk).1
      rw [pagingNewLoop] at h
      simp only at h
      split at h
      · cases h
      · exact ih hs' hk' h

theorem pagingNew_singles {flags : Byte} (hs : Singles h₀ heap) (hk : KernelHeap heap)
    (h : pagingNew heap words flags = .ok (dir, heap', words')) : Singles h₀ heap' := by
  have hs₁ := hs.kzalloc hk (n := 4 * PAGING_TOTAL_ENTRIES_PER_TABLE) (by decide) (by decide)
  have hk₁ := (kernelHeap_kept.kzalloc (4 * PAGING_TOTAL_ENTRIES_PER_TABLE) hk).1
  simp only [pagingNew] at h
  split at h
  · cases h
  · obtain ⟨⟨heap₂, words₂⟩, hloop, h⟩ := bind_ok.1 h
    obtain ⟨hs₂, hk₂⟩ := pagingNewLoop_singles hs₁ hk₁ hloop
    simp only at h
    split at h
    · cases h
    · cases h
      exact hs₂.kzalloc hk₂ (by decide) (by decide)

/-- 新しい表のブロックは、どれも新しい一ブロックの割り当てである。 -/
theorem pagingNew_made {flags : Byte} (ht : Tidy heap) (h : pagingNew heap words flags = .ok (dir, heap', words')) :
    Shielded (Taken heap) heap heap' ∧ ∃ entries table, PageDir words' dir entries table ∧
      Made heap heap' dir ∧ Made heap heap' entries ∧ ∀ i < 1024, Made heap heap' (table i) := by
  have hstart : Singles heap heap := by
    intro b _ hfree htaken
    rw [Taken, hfree] at htaken
    cases htaken
  have hsingle := pagingNew_singles hstart ht.toKernelHeap h
  obtain ⟨-, hs, entries, table, hpage, -, -, ⟨hdir, hentries, htable⟩, htaken⟩ :=
    pagingNew_built (taken_kept heap).pages ht.toKernelHeap ht.shielded h
  have hmade : ∀ p, (p = dir ∨ p = entries ∨ ∃ i < 1024, p = table i) → Outside (Taken heap) p → Made heap heap' p := by
    intro p hp hout
    obtain ⟨b, hb, rfl, hbtaken⟩ := htaken p hp
    have hfree : heap.table.freeAt b = true := by
      rcases hout with hfar | ⟨c, hc, he, hfree⟩
      · rw [blockOf_blockAddr (Nat.le_of_lt hb)] at hfar
        omega
      · obtain rfl := blockAddr_inj (Nat.le_of_lt hb) (Nat.le_of_lt hc) he
        simpa [Taken] using hfree
    refine ⟨b, 1, rfl, by decide, hb, ?_, ?_, ?_⟩
    · intro i h1 h2 _
      obtain rfl : i = b := by omega
      exact hfree
    · intro i h1 h2 _
      obtain rfl : i = b := by omega
      exact hbtaken
    · intro _
      exact hsingle b hb hfree hbtaken
  exact ⟨hs, entries, table, hpage, hmade dir (.inl rfl) hdir, hmade entries (.inr (.inl rfl)) hentries,
    fun i hi => hmade (table i) (.inr (.inr ⟨i, hi, rfl⟩)) (htable i hi)⟩

/-! ## 割り付け -/

theorem PageDir.foldl_put_other (h : PageDir words dir entries table) (hx : ∀ n < 2 ^ 20, x ≠ pageSlot table n)
    (ms : List Mapping) (hal : ∀ m ∈ ms, PageAligned m.virt ∧ PageAligned m.phys) :
    ms.foldl (Mapping.put dir) words x = words x := by
  induction ms generalizing words with
  | nil => rfl
  | cons m ms ih =>
      obtain ⟨hv, hp⟩ := hal m List.mem_cons_self
      have hlt : m.virt.toNat / 4096 < 2 ^ 20 := by
        have := m.virt.isLt
        omega
      have hput : Mapping.put dir words m = words.set (pageSlot table (m.virt.toNat / 4096)) (m.phys ||| m.flags) := by
        rw [Mapping.put, pagingMap_aligned hv hp, h.dir_eq, h.set_eq hv]
      rw [List.foldl_cons, hput, ih (h.set hlt _) fun m' hm' => hal m' (List.mem_cons_of_mem _ hm'),
        Words.set_other _ (hx _ hlt)]

theorem PageDir.mapTo_other (h : PageDir words dir entries table) (hx : ∀ n < 2 ^ 20, x ≠ pageSlot table n)
    (virt phys physEnd flags : Word) : (pagingMapTo words dir virt phys physEnd flags).2 x = words x := by
  rw [pagingMapTo]
  split
  · rfl
  · rename_i hal
    simp only [ne_eq, not_or, not_not, pageAligned_iff] at hal
    split
    · rfl
    · simp only [pagingMapRange]
      rw [pagingMapLoop_eq _ _ _ hal.1 hal.2]
      exact h.foldl_put_other hx _ fun m hm => pageMappings_aligned hal.1 hal.2 hm

end EnkiOs
