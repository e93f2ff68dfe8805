import EnkiOs.Process.Owned

/-!
# ページの表と割り当ての表

`process_malloc` はヒープのページを書き込み可能にし、`process_free` はそれを戻す。ヒープの範囲のページの項目と、
割り当ての表の記録とが、一歩ごとにどう変わるか。
-/

namespace EnkiOs
open Machine Extents

variable {s s' : Kernel} {live : List Allocation} {proc ptr size toFree : Word}

/-! ## ヒープのページ -/

theorem blockAddr_page {b : Nat} (hb : b < 25600) : (blockAddr b).toNat / 4096 = 4096 + b := by
  rw [blockAddr_toNat (by omega)]
  omega

theorem PageDir.get_block {words : Words} {dir entries : Word} {table : Nat → Word} (h : PageDir words dir entries table)
    {b : Nat} (hb : b < 25600) : pagingGet words entries (blockAddr b) = words (pageSlot table (4096 + b)) := by
  rw [h.get_eq (pageAligned_blockAddr (by omega)), blockAddr_page hb]

theorem blockAddr_offset {b c : Nat} (hc : c ≤ b) (hb : b ≤ 25600) :
    (blockAddr b - blockAddr c).toNat = 4096 * (b - c) := by
  have h1 := blockAddr_toNat hb
  have h2 := blockAddr_toNat (Nat.le_trans hc hb)
  rw [BitVec.toNat_sub, h1, h2]
  omega

/-- 番号 `c` から `m` 個のページを自分自身へ割り付けると、その範囲の項目だけが変わる。 -/
theorem PageDir.map_blocks {words : Words} {dir entries : Word} {table : Nat → Word}
    (h : PageDir words dir entries table) (flags : Word) {c m b : Nat} (hfit : c + m ≤ 25600) (hb : b < 25600) :
    (pageMappings (blockAddr c) (blockAddr c) flags m).foldl (Mapping.put dir) words (pageSlot table (4096 + b)) =
      if c ≤ b ∧ b < c + m then blockAddr b ||| flags else words (pageSlot table (4096 + b)) := by
  have hal : PageAligned (blockAddr c) := pageAligned_blockAddr (by omega)
  have hmem : ∀ x : Mapping, x ∈ pageMappings (blockAddr c) (blockAddr c) flags m ↔ PageAligned x.virt ∧
      (x.virt - blockAddr c).toNat < 4096 * m ∧ x.phys = blockAddr c + (x.virt - blockAddr c) ∧ x.flags = flags :=
    fun x => mem_pageMappings_iff hal (by omega)
  rw [(h.foldl_put _ fun x hx => pageMappings_aligned hal hal hx).2 _ (by omega), mappedEntry_eq]
  -- ページ `b` の割り付けは、仮想アドレスが `blockAddr b` のものである。
  have hvirt : ∀ x ∈ pageMappings (blockAddr c) (blockAddr c) flags m, x.virt.toNat / 4096 = 4096 + b →
      x.virt = blockAddr b := by
    intro x hx hpage
    obtain ⟨hxal, -⟩ := (hmem x).1 hx
    apply BitVec.eq_of_toNat_eq
    rw [blockAddr_toNat (by omega)]
    simp only [PageAligned] at hxal
    omega
  by_cases hin : c ≤ b ∧ b < c + m
  · have hoff := blockAddr_offset hin.1 (by omega)
    have hself : blockAddr c + (blockAddr b - blockAddr c) = blockAddr b := by
      rw [BitVec.add_comm, BitVec.sub_add_cancel]
    have hlast : lastMapping (4096 + b) (pageMappings (blockAddr c) (blockAddr c) flags m) =
        some ⟨blockAddr b, blockAddr b, flags⟩ := by
      refine lastMapping_unique ?_ (blockAddr_page hb) ?_
      · exact (hmem _).2 ⟨pageAligned_blockAddr (by omega), by rw [hoff]; omega, hself.symm, rfl⟩
      · intro x hx hpage
        have hx1 := hvirt x hx hpage
        obtain ⟨-, -, hphys, hflags⟩ := (hmem x).1 hx
        obtain ⟨xv, xp, xf⟩ := x
        simp only at hx1 hphys hflags
        rw [hphys, hflags, hx1, hself]
    rw [hlast, if_pos hin]
  · have hlast : lastMapping (4096 + b) (pageMappings (blockAddr c) (blockAddr c) flags m) = none := by
      refine lastMapping_none ?_
      intro x hx hpage
      obtain ⟨-, hlt, -, -⟩ := (hmem x).1 hx
      rw [hvirt x hx hpage] at hlt
      by_cases hcb : c ≤ b
      · rw [blockAddr_offset hcb (by omega)] at hlt
        omega
      · have h1 := blockAddr_toNat (b := b) (by omega)
        have h2 := blockAddr_toNat (b := c) (by omega)
        rw [BitVec.toNat_sub, h1, h2] at hlt
        omega
    rw [hlast, if_neg hin]

/-! ## 項目と記録 -/

/-- プロセスの空でない記録のどれかが、ブロック `b` を占める。 -/
def Recorded (s : Kernel) (proc : Word) (b : Nat) : Prop :=
  ∃ i < ENKI_MAX_PGM_ALLOCATIONS, ((s.procs proc).allocations i).ptr ≠ 0 ∧ ((s.procs proc).allocations i).Covers b

/-- ヒープのページの項目は自分自身を指し、フラグは、記録があるときだけ書き込み可能のものである。 -/
structure PagesMatch (s : Kernel) (proc entries : Word) (table : Nat → Word) : Prop where
  pageDir : PageDir s.words (s.tasks (s.procs proc).task).pageDir entries table
  entry : ∀ b < 25600, ∃ flags ∈ [0, PAGING_IS_PRESENT ||| PAGING_ACCESS_FROM_ALL, userFlags],
    s.words (pageSlot table (4096 + b)) = blockAddr b ||| flags ∧ (flags = userFlags ↔ Recorded s proc b)

variable {entries : Word} {table : Nat → Word}

theorem PagesMatch.congr (hm : PagesMatch s proc entries table) (hwords : s'.words = s.words)
    (htasks : s'.tasks = s.tasks) (hprocs : s'.procs proc = s.procs proc) : PagesMatch s' proc entries table := by
  obtain ⟨hdir, hentry⟩ := hm
  refine ⟨by rw [hwords, htasks, hprocs]; exact hdir, ?_⟩
  intro b hb
  obtain ⟨flags, hmem, heq, hiff⟩ := hentry b hb
  refine ⟨flags, hmem, by rw [hwords]; exact heq, ?_⟩
  rw [hiff, Recorded, Recorded, hprocs]

/-- 記録の占めるブロックを、番号で書く。 -/
theorem covers_blockAddr {c b : Nat} (hc : c ≤ 25600) {r : ProcessAllocation} (hptr : r.ptr = blockAddr c) :
    r.Covers b ↔ c ≤ b ∧ b < c + blocksFor r.size := by
  rw [ProcessAllocation.Covers, hptr, blockOf_blockAddr hc]
  omega

/-! ## 割り当て -/

theorem recorded_malloc {idx : Nat} (hidx : idx < ENKI_MAX_PGM_ALLOCATIONS) (hslot : ((s.procs proc).allocations idx).ptr = 0)
    (hne : (kzalloc s.heap size.toNat).1 ≠ 0) (b : Nat) :
    Recorded (mallocState s proc size idx) proc b ↔
      Recorded s proc b ∨ (⟨(kzalloc s.heap size.toNat).1, size⟩ : ProcessAllocation).Covers b := by
  constructor
  · rintro ⟨i, hi, hptr, hcov⟩
    rcases mallocState_record s proc size idx proc i with ⟨-, -, heq⟩ | ⟨-, heq⟩
    · rw [heq] at hcov
      exact .inr hcov
    · rw [heq] at hptr hcov
      exact .inl ⟨i, hi, hptr, hcov⟩
  · rintro (⟨i, hi, hptr, hcov⟩ | hcov)
    · have hne' : i ≠ idx := by
        rintro rfl
        exact hptr hslot
      refine ⟨i, hi, ?_⟩
      rw [mallocState_same]
      simp only [if_neg hne']
      exact ⟨hptr, hcov⟩
    · refine ⟨idx, hidx, ?_⟩
      rw [mallocState_same]
      simp only [if_true]
      exact ⟨hne, hcov⟩

/-- 項目の列をページの割り付けで変えた後の、ページと記録の対応。 -/
theorem PagesMatch.put_blocks (hm : PagesMatch s proc entries table) {c m : Nat} (flags : Word) (hc : c + m ≤ 25600)
    (hflags : flags ∈ [0, PAGING_IS_PRESENT ||| PAGING_ACCESS_FROM_ALL, userFlags])
    (hwords : s'.words = (pageMappings (blockAddr c) (blockAddr c) flags m).foldl
      (Mapping.put (s.tasks (s.procs proc).task).pageDir) s.words)
    (htasks : s'.tasks = s.tasks) (htask : (s'.procs proc).task = (s.procs proc).task)
    (hin : ∀ b, c ≤ b → b < c + m → (flags = userFlags ↔ Recorded s' proc b))
    (hout : ∀ b, ¬(c ≤ b ∧ b < c + m) → (Recorded s' proc b ↔ Recorded s proc b)) :
    PagesMatch s' proc entries table := by
  have hal : PageAligned (blockAddr c) := pageAligned_blockAddr (by omega)
  refine ⟨?_, ?_⟩
  · rw [hwords, htasks, htask]
    exact (hm.pageDir.foldl_put _ fun x hx => pageMappings_aligned hal hal hx).1
  · intro b hb
    have hentry := hm.pageDir.map_blocks flags hc hb
    rw [← hwords] at hentry
    rw [hentry]
    by_cases hrange : c ≤ b ∧ b < c + m
    · rw [if_pos hrange]
      exact ⟨flags, hflags, rfl, hin b hrange.1 hrange.2⟩
    · rw [if_neg hrange]
      obtain ⟨old, hold, heq, hiff⟩ := hm.entry b hb
      exact ⟨old, hold, heq, hiff.trans (hout b hrange).symm⟩

theorem PagesMatch.afterMalloc (hm : PagesMatch s proc entries table) {c idx : Nat} (hc : c + blocksFor size ≤ 25600)
    (hmade : (kzalloc s.heap size.toNat).1 = blockAddr c) (hidx : idx < ENKI_MAX_PGM_ALLOCATIONS)
    (hslot : ((s.procs proc).allocations idx).ptr = 0) : PagesMatch (mallocState s proc size idx) proc entries table := by
  have hne : (kzalloc s.heap size.toNat).1 ≠ 0 := by
    rw [hmade]
    exact blockAddr_ne_zero (by omega)
  have hcov := fun b : Nat => covers_blockAddr (b := b) (r := ⟨(kzalloc s.heap size.toNat).1, size⟩)
    (show c ≤ 25600 by omega) hmade
  refine hm.put_blocks userFlags hc (by decide) ?_ rfl (by simp [mallocState, Kernel.setProc]) ?_ ?_
  · rw [mallocState_words, hmade, mallocMap_eq hc]
  · intro b h1 h2
    rw [recorded_malloc hidx hslot hne, hcov]
    exact ⟨fun _ => .inr ⟨h1, h2⟩, fun _ => rfl⟩
  · intro b hout
    rw [recorded_malloc hidx hslot hne, hcov]
    exact ⟨fun h => h.resolve_right hout, .inl⟩

theorem PagesMatch.malloc (hm : PagesMatch s proc entries table) (ho : Owned (· = proc) s live) (hpos : 0 < size.toNat)
    (hserve : s.heap.Serves size) (h : processMalloc s proc size = .ok (ptr, s')) : PagesMatch s' proc entries table := by
  rcases processMalloc_cases h with ⟨-, -, hs'⟩ | ⟨h0, -, hfail, hprocs, htasks, -⟩ | ⟨h0, -, -, -, idx, hfind, hs'⟩
  · rw [hs']
    exact hm.congr rfl rfl rfl
  · rcases hfail with ⟨-, hwords⟩ | ⟨-, hneg⟩
    · exact hm.congr hwords htasks (by rw [hprocs])
    · obtain ⟨c, hc, hmade⟩ := ho.made hpos (hserve.resolve_right h0)
      rw [hmade, mallocMap_eq hc] at hneg
      exact absurd hneg (Int.lt_irrefl 0)
  · obtain ⟨c, hc, hmade⟩ := ho.made hpos (hserve.resolve_right h0)
    obtain ⟨hidx, hslot⟩ := processFindFreeAlloc_some hfind
    rw [hs']
    exact hm.afterMalloc hc hmade hidx hslot

/-! ## 解放 -/

theorem Owned.records_apart {who : Word → Prop} (ho : Owned who s live) (hw : who proc) {i j b : Nat}
    (hi : i < ENKI_MAX_PGM_ALLOCATIONS) (hj : j < ENKI_MAX_PGM_ALLOCATIONS)
    (hne : ((s.procs proc).allocations i).ptr ≠ 0) (hne' : ((s.procs proc).allocations j).ptr ≠ 0) (hij : i ≠ j)
    (hcov : ((s.procs proc).allocations i).Covers b) : ¬((s.procs proc).allocations j).Covers b := by
  obtain ⟨a, ha, ha1, ha2⟩ := ho.owned hw i hi hne
  obtain ⟨c, hc, hc1, hc2⟩ := ho.owned hw j hj hne'
  have haddr : a.addr ≠ c.addr := by
    intro heq
    exact hij (ho.distinct hw i hi hw j hj hne (by rw [← ha1, heq, hc1])).2
  intro hcov'
  exact ho.inv.disjoint ha hc haddr ((ho.covers_iff ha ha1 ha2).1 hcov) ((ho.covers_iff hc hc1 hc2).1 hcov')

theorem recorded_free (ho : Owned (· = proc) s live) {j : Nat} (hj : j < ENKI_MAX_PGM_ALLOCATIONS)
    (hne : ((s.procs proc).allocations j).ptr ≠ 0) (b : Nat) :
    Recorded (freeState s proc ((s.procs proc).allocations j).ptr ((s.procs proc).allocations j)) proc b ↔
      Recorded s proc b ∧ ¬((s.procs proc).allocations j).Covers b := by
  constructor
  · rintro ⟨i, hi, hptr, hcov⟩
    obtain ⟨heq, hdrop⟩ := freeState_record hi hptr
    rw [heq] at hptr hcov
    have hij : i ≠ j := by
      rintro rfl
      exact hdrop rfl rfl
    exact ⟨⟨i, hi, hptr, hcov⟩, ho.records_apart rfl hi hj hptr hne hij hcov⟩
  · rintro ⟨⟨i, hi, hptr, hcov⟩, hnot⟩
    have hother : ((s.procs proc).allocations i).ptr ≠ ((s.procs proc).allocations j).ptr := by
      intro heq
      obtain ⟨-, rfl⟩ := ho.distinct rfl i hi rfl j hj hptr heq
      exact hnot hcov
    refine ⟨i, hi, ?_⟩
    rw [freeState_same, processAllocationDrop]
    simp only [hother, and_false, if_false]
    exact ⟨hptr, hcov⟩

theorem PagesMatch.free (hm : PagesMatch s proc entries table) (ho : Owned (· = proc) s live) (hne : toFree ≠ 0)
    (h : processFree s proc toFree = .ok s') : PagesMatch s' proc entries table := by
  rcases processFree_cases h with ⟨-, hs'⟩ | ⟨alloc, hget, -, hmade⟩
  · rw [hs']
    exact hm
  · obtain ⟨j, hj, heq, hptr⟩ := processGetAllocation_some hget
    subst heq
    subst hptr
    obtain ⟨a, ha, haddr, hsize⟩ := ho.owned rfl j hj hne
    obtain ⟨c, hc, hblock, -⟩ := ho.inv.block ho.heap ha
    rw [haddr] at hblock
    rw [hsize] at hc
    have hmap := ho.freeMap_eq rfl hj hne
    have hcov := fun b : Nat => covers_blockAddr (b := b) (show c ≤ 25600 by omega) hblock
    rcases hmade with ⟨hneg, -⟩ | ⟨-, hs'⟩
    · rw [hmap] at hneg
      exact absurd hneg (Int.lt_irrefl 0)
    · rw [hs']
      refine hm.put_blocks 0 hc (by decide) ?_ rfl (by rw [freeState_same]; rfl) ?_ ?_
      · rw [freeState_words, hmap, hblock]
      · intro b h1 h2
        rw [recorded_free ho hj hne, hcov]
        exact ⟨fun h => absurd h (by decide), fun h => absurd ⟨h1, h2⟩ h.2⟩
      · intro b hout
        rw [recorded_free ho hj hne, hcov]
        exact ⟨And.left, fun h => ⟨h, hout⟩⟩

end EnkiOs
