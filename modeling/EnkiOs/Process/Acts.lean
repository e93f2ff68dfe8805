import EnkiOs.Process.Estate

/-!
# プロセスの一歩

プロセスの割り当てと解放、終了は、自分のブロックと空いたブロックのほかには触れない。
-/

namespace EnkiOs
open Machine

variable {s s' s₁ : Kernel} {h : Heap} {base other : Nat → Prop} {p q ptr size toFree : Word} {b c : Nat}

/-! ## 自分のブロックだけに触れる変化 -/

/-- `p` のブロックと空いたブロックのほかには触れない変化。ほかのプロセスの記録と、`p` の表でない語は変わらない。 -/
structure Touches (s s' : Kernel) (p : Word) (base : Nat → Prop) : Prop where
  tidy : Tidy s'.heap
  registry : SameRegistry s s' p
  fatFiles : s'.fatFiles = s.fatFiles
  elfFiles : s'.elfFiles = s.elfFiles
  records : ∀ q, q ≠ p → s'.procs q = s.procs q
  pageDirs : ∀ t, (s'.tasks t).pageDir = (s.tasks t).pageDir
  registers : ∀ t, (s'.tasks t).registers = (s.tasks t).registers
  words : ∀ x, (∀ b, base b → ∀ k < 1024, x ≠ entryAddr (blockAddr b) (BitVec.ofNat 32 k)) → s'.words x = s.words x
  entries : ∀ b < 25600, Taken s.heap b → ¬Owns s p base b → s'.heap.table.entries b = s.heap.table.entries b

/-- ほかのプロセスのブロックには触れない。 -/
theorem Touches.leaves (h : Touches s s' p base) (he : Estate s p base) (heq : Estate s q other) (hne : q ≠ p)
    (hapart : ∀ b, Owns s q other b → ¬Owns s p base b) : Leaves s s' q other where
  record := h.records q hne
  pageDir := h.pageDirs _
  registers := h.registers _
  words b hb k hk := by
    refine h.words _ fun c hc m hm => entryAddr_apart (heq.closed.taken b hb).1 (he.closed.taken c hc).1 ?_ hk hm
    rintro rfl
    exact hapart b (.inl hb) (.inl hc)
  elfFiles b _ := by rw [h.elfFiles]
  entries b hb := by
    obtain ⟨hlt, htaken⟩ := heq.owns_taken hb
    exact h.entries b hlt htaken (hapart b hb)

/-- `p` は、自分のブロックを手放すか、空いたブロックを得る。 -/
structure Acts (s s' : Kernel) (p : Word) (base : Nat → Prop) : Prop extends Touches s s' p base where
  estate : Estate s' p base
  grown : ∀ b, Owns s' p base b → Owns s p base b ∨ s.heap.table.freeAt b = true
  fixed : ∀ b, base b → s'.heap.table.entries b = s.heap.table.entries b

namespace Acts

theorem refl (ht : Tidy s.heap) (he : Estate s p base) : Acts s s p base where
  toTouches := ⟨ht, ⟨rfl, rfl, rfl⟩, rfl, rfl, fun _ _ => rfl, fun _ => rfl, fun _ => rfl, fun _ _ => rfl,
    fun _ _ _ _ => rfl⟩
  estate := he
  grown := fun _ => .inl
  fixed := fun _ _ => rfl

/-- 手放していない、塞がったブロックは、塞がったままである。 -/
theorem still (h : Acts s s₁ p base) (hb : b < 25600) (htaken : Taken s.heap b) (hnot : ¬Owns s p base b) :
    Taken s₁.heap b ∧ ¬Owns s₁ p base b := by
  refine ⟨?_, ?_⟩
  · rw [Taken, HeapTable.freeAt, h.entries b hb htaken hnot]
    exact htaken
  · intro hown
    rcases h.grown b hown with hown | hfree
    · exact hnot hown
    · rw [Taken, hfree] at htaken
      cases htaken

theorem touches (h₁ : Acts s s₁ p base) (h₂ : Touches s₁ s' p base) : Touches s s' p base where
  tidy := h₂.tidy
  registry := h₁.registry.trans h₂.registry
  fatFiles := h₂.fatFiles.trans h₁.fatFiles
  elfFiles := h₂.elfFiles.trans h₁.elfFiles
  records q hq := (h₂.records q hq).trans (h₁.records q hq)
  pageDirs t := (h₂.pageDirs t).trans (h₁.pageDirs t)
  registers t := (h₂.registers t).trans (h₁.registers t)
  words x hx := (h₂.words x hx).trans (h₁.words x hx)
  entries b hb htaken hnot := by
    obtain ⟨htaken₁, hnot₁⟩ := h₁.still hb htaken hnot
    exact (h₂.entries b hb htaken₁ hnot₁).trans (h₁.entries b hb htaken hnot)

theorem trans (h₁ : Acts s s₁ p base) (h₂ : Acts s₁ s' p base) : Acts s s' p base where
  toTouches := h₁.touches h₂.toTouches
  estate := h₂.estate
  grown b hb := by
    rcases h₂.grown b hb with hown | hfree
    · exact h₁.grown b hown
    · by_contra hno
      obtain ⟨hnot, htaken⟩ := not_or.1 hno
      have hlt := (h₂.estate.owns_taken hb).1
      have htaken₁ := (h₁.still hlt (show Taken s.heap b by simpa [Taken] using htaken) hnot).1
      rw [Taken, hfree] at htaken₁
      cases htaken₁
  fixed b hb := (h₂.fixed b hb).trans (h₁.fixed b hb)

/-- 重ならないブロックは、重ならないままである。 -/
theorem apart (h : Acts s s' p base) (he : Estate s p base) (heq : Estate s q other) (hne : q ≠ p)
    (hapart : ∀ b, Owns s q other b → ¬Owns s p base b) (b : Nat) (hb : Owns s' q other b) : ¬Owns s' p base b := by
  have hb := (h.leaves he heq hne hapart).owns_iff.1 hb
  obtain ⟨hlt, htaken⟩ := heq.owns_taken hb
  exact (h.still hlt htaken (hapart b hb)).2

end Acts

/-! ## 割り当て -/

/-- 収まる割り当ての範囲は、表の中にある。 -/
theorem KernelHeap.kzalloc_fit (hk : KernelHeap h) (hpos : 0 < size.toNat) (hrun : h.table.HasRun (blocksFor size)) :
    ∃ c, c + blocksFor size ≤ 25600 ∧ (kzalloc h size.toNat).1 = blockAddr c ∧
      MadeAt h (kzalloc h size.toNat).2 c (blocksFor size) := by
  have hle := hk.size_le hrun
  have hlength : h.table.length.toNat = 25600 := hk.length_eq
  obtain ⟨c, hfits, -, heq⟩ := heapMalloc_fit (by rw [hlength]; decide) hpos (by omega) hrun
  have hsize : BitVec.ofNat 32 size.toNat = size := by simp
  have hm := blocksFor_pos hpos
  have hc := hfits.1
  rw [hlength] at hc
  rw [kzalloc, hsize, heq, hk.blockToAddress]
  refine ⟨c, hc, rfl, hm, by omega, fun i h1 h2 _ => hfits.2 i h1 h2, ?_, ?_⟩
  · intro i h1 h2 _
    rw [HeapTable.freeAt, markTaken_entries (by omega), if_pos (by omega)]
    exact decide_eq_false (takenEntry_ne_free _ _ _)
  · intro _
    rw [markTaken_entries (by omega), if_pos (by omega)]
    exact takenEntry_hasNext.2 (by omega)

/-- 割り当てと解放は、ほかのプロセスの記録と、開いたファイルを変えない。 -/
theorem processMalloc_others (h : processMalloc s p size = .ok (ptr, s')) :
    s'.fatFiles = s.fatFiles ∧ ∀ q, q ≠ p → s'.procs q = s.procs q := by
  simp only [processMalloc, kzallocBytes] at h
  split at h
  · cases h
    exact ⟨rfl, fun _ _ => rfl⟩
  · split at h
    · cases h
      exact ⟨rfl, fun _ _ => rfl⟩
    · obtain ⟨dir, -, h⟩ := bind_ok.1 h
      split at h
      · cases h
        exact ⟨rfl, fun _ _ => rfl⟩
      · cases h
        exact ⟨rfl, fun q hq => if_neg hq⟩

theorem processFree_others (h : processFree s p toFree = .ok s') :
    s'.fatFiles = s.fatFiles ∧ ∀ q, q ≠ p → s'.procs q = s.procs q := by
  rcases processFree_cases h with ⟨-, hs'⟩ | ⟨alloc, -, -, ⟨-, hs'⟩ | ⟨-, hs'⟩⟩
  · rw [hs']
    exact ⟨rfl, fun _ _ => rfl⟩
  · rw [hs']
    exact ⟨rfl, fun _ _ => rfl⟩
  · rw [hs']
    exact ⟨rfl, fun q hq => freeState_other alloc hq⟩

/-- 割り当ての後のヒープは、塞がっていたブロックを変えていない。 -/
theorem processMalloc_shielded (ht : Tidy s.heap) (h : processMalloc s p size = .ok (ptr, s')) :
    Shielded (Taken s.heap) s.heap s'.heap ∧ Tidy s'.heap :=
  processMalloc_kept (shelter_kept s.heap) ⟨ht.shielded, ht⟩ h

/-- 自分の表への割り付けは、自分のブロックでない語を変えない。 -/
theorem Estate.mapTo_other (he : Estate s p base) {virt phys physEnd flags x : Word}
    (hx : ∀ b, base b → ∀ k < 1024, x ≠ entryAddr (blockAddr b) (BitVec.ofNat 32 k)) :
    (pagingMapTo s.words (s.tasks (s.procs p).task).pageDir virt phys physEnd flags).2 x = s.words x := by
  obtain ⟨entries, table, hpage⟩ := he.pageDir
  refine hpage.mapTo_other ?_ _ _ _ _
  intro n hn
  obtain ⟨b, hb, heq⟩ := he.pageDir_base hpage (.inr (.inr ⟨n / 1024, by omega, rfl⟩))
  rw [pageSlot, heq]
  exact hx b hb _ (Nat.mod_lt n (by decide))

/-- 本体と表の項目が同じで、ブロックの値も変わらなければ、割り当ての表の記録だけを調べればよい。 -/
theorem Estate.sameImage (he : Estate s p base) {entries : Word} {table : Nat → Word}
    (hpage : PageDir s.words (s.tasks (s.procs p).task).pageDir entries table) (hsame : SameImage s s' p entries table)
    (hclosed : Closed s'.heap base)
    (hlaid : ∀ i < ENKI_MAX_PGM_ALLOCATIONS, ((s'.procs p).allocations i).ptr ≠ 0 → ((s'.procs p).allocations i).Laid s'.heap)
    (hapart : ∀ i < ENKI_MAX_PGM_ALLOCATIONS, ((s'.procs p).allocations i).ptr ≠ 0 →
      ∀ b, ((s'.procs p).allocations i).Covers b → ¬base b)
    (hdistinct : ∀ i < ENKI_MAX_PGM_ALLOCATIONS, ∀ j < ENKI_MAX_PGM_ALLOCATIONS, i ≠ j →
      ((s'.procs p).allocations i).ptr ≠ 0 → ((s'.procs p).allocations j).ptr ≠ 0 →
      ∀ b, ((s'.procs p).allocations i).Covers b → ¬((s'.procs p).allocations j).Covers b)
    (hblank : ∀ i, ENKI_MAX_PGM_ALLOCATIONS ≤ i ∨ ((s'.procs p).allocations i).ptr = 0 → (s'.procs p).allocations i = {}) :
    Estate s' p base := by
  have htask : (s'.procs p).task = (s.procs p).task := by rw [hsame.record]
  refine ⟨hclosed, he.record, ?_, ⟨entries, table, ?_⟩, ?_, ?_, hlaid, hapart, hdistinct, hblank⟩
  · rw [htask]
    exact he.task
  · rw [htask, hsame.tasks]
    exact hsame.pageDir
  · rw [hsame.releaseCalls_eq hpage]
    exact he.release
  · rw [processFreePgmData_code, hsame.record, ← processFreePgmData_code]
    exact he.released

/-- 成功した割り当てで、得たブロックは空いていた。 -/
theorem Estate.mallocState (he : Estate s p base) (ht : Tidy s.heap) {idx : Nat}
    (hc : c + blocksFor size ≤ 25600) (hmade : (kzalloc s.heap size.toNat).1 = blockAddr c)
    (hat : MadeAt s.heap (kzalloc s.heap size.toNat).2 c (blocksFor size)) (hidx : idx < ENKI_MAX_PGM_ALLOCATIONS)
    (hslot : ((s.procs p).allocations idx).ptr = 0) (hok : processMalloc s p size = .ok (ptr, EnkiOs.mallocState s p size idx)) :
    Estate (EnkiOs.mallocState s p size idx) p base ∧
      ∀ b, Owns (EnkiOs.mallocState s p size idx) p base b → Owns s p base b ∨ s.heap.table.freeAt b = true := by
  obtain ⟨entries, table, hpage⟩ := he.pageDir
  have hne : (kzalloc s.heap size.toNat).1 ≠ 0 := by
    rw [hmade]
    exact blockAddr_ne_zero (by omega)
  have hcov : ∀ b, (⟨(kzalloc s.heap size.toNat).1, size⟩ : ProcessAllocation).Covers b ↔ c ≤ b ∧ b < c + blocksFor size :=
    fun b => covers_blockAddr (by omega) hmade
  have hfree : ∀ b, (⟨(kzalloc s.heap size.toNat).1, size⟩ : ProcessAllocation).Covers b → s.heap.table.freeAt b = true := by
    intro b hb
    obtain ⟨h1, h2⟩ := (hcov b).1 hb
    exact hat.fresh b h1 h2 (by omega)
  have hold : ∀ b, Owns s p base b → ¬(⟨(kzalloc s.heap size.toNat).1, size⟩ : ProcessAllocation).Covers b := by
    intro b hb hnew
    have htaken := (he.owns_taken hb).2
    rw [Taken, hfree b hnew] at htaken
    cases htaken
  have hshield := (processMalloc_shielded ht hok).1
  have hsame : ∀ b, Owns s p base b →
      (EnkiOs.mallocState s p size idx).heap.table.entries b = s.heap.table.entries b := by
    intro b hb
    obtain ⟨hlt, htaken⟩ := he.owns_taken hb
    exact hshield.same b hlt htaken
  refine ⟨he.sameImage hpage (processMalloc_sameImage hok hpage) (he.closed.congr fun b hb => hsame b (.inl hb)) ?_ ?_ ?_ ?_, ?_⟩
  · intro i hi hrec
    rcases mallocState_record s p size idx p i with ⟨-, -, heq⟩ | ⟨-, heq⟩
    · rw [heq]
      refine ⟨⟨c, hmade, hc⟩, hat.pos, ?_⟩
      have hclosed := hat.closed
      refine ⟨fun b hb => hclosed.taken b ?_, fun b hb hlt hnext => (hcov _).2 ?_⟩
      · obtain ⟨h1, h2⟩ := (hcov b).1 hb
        exact ⟨h1, h2, by omega⟩
      · obtain ⟨h1, h2⟩ := (hcov b).1 hb
        obtain ⟨h3, h4, -⟩ := hclosed.next b ⟨h1, h2, by omega⟩ hlt hnext
        exact ⟨h3, h4⟩
    · rw [heq] at hrec ⊢
      obtain ⟨haddr, hpos, hclosed⟩ := he.laid i hi hrec
      exact ⟨haddr, hpos, hclosed.congr fun b hb => hsame b (.inr ⟨i, hi, hrec, hb⟩)⟩
  · intro i hi hrec b hb
    rcases mallocState_record s p size idx p i with ⟨-, -, heq⟩ | ⟨-, heq⟩
    · rw [heq] at hb
      exact fun hbase => hold b (.inl hbase) hb
    · rw [heq] at hrec hb
      exact he.apart i hi hrec b hb
  · intro i hi j hj hij hrec hrec' b hb
    rcases mallocState_record s p size idx p i with ⟨-, hi', heq⟩ | ⟨-, heq⟩
    · rcases mallocState_record s p size idx p j with ⟨-, hj', -⟩ | ⟨-, heq'⟩
      · exact absurd (hi'.trans hj'.symm) hij
      · rw [heq] at hb
        rw [heq'] at hrec' ⊢
        exact fun hb' => hold b (.inr ⟨j, hj, hrec', hb'⟩) hb
    · rw [heq] at hrec hb
      rcases mallocState_record s p size idx p j with ⟨-, -, heq'⟩ | ⟨-, heq'⟩
      · rw [heq']
        exact hold b (.inr ⟨i, hi, hrec, hb⟩)
      · rw [heq'] at hrec' ⊢
        exact he.distinct i hi j hj hij hrec hrec' b hb
  · intro i hblank
    rcases mallocState_record s p size idx p i with ⟨-, hi', heq⟩ | ⟨-, heq⟩
    · rw [heq] at hblank
      rcases hblank with hge | h0
      · omega
      · exact absurd h0 hne
    · rw [heq] at hblank ⊢
      exact he.blank i hblank
  · rintro b (hb | hb)
    · exact .inl (.inl hb)
    · rcases (recorded_malloc hidx hslot hne b).1 hb with hb | hb
      · exact .inl (.inr hb)
      · exact .inr (hfree b hb)

/-- 1 バイト以上の割り当ては、失敗しても成功しても、自分のブロックと空いたブロックのほかには触れない。 -/
theorem Estate.malloc (he : Estate s p base) (ht : Tidy s.heap) (hpos : 0 < size.toNat) (hserve : s.heap.Serves size)
    (h : processMalloc s p size = .ok (ptr, s')) : Acts s s' p base := by
  obtain ⟨hshield, htidy⟩ := processMalloc_shielded ht h
  obtain ⟨hfat, hothers⟩ := processMalloc_others h
  obtain ⟨htasks, hfiles, -, hmap⟩ := processMalloc_frame h
  have hwords : ∀ x, (∀ b, base b → ∀ k < 1024, x ≠ entryAddr (blockAddr b) (BitVec.ofNat 32 k)) → s'.words x = s.words x := by
    intro x hx
    rcases hmap with hmap | hmap
    · rw [hmap]
    · rw [hmap]
      exact he.mapTo_other hx
  have hacts : ∀ (_ : Estate s' p base)
      (_ : ∀ b, Owns s' p base b → Owns s p base b ∨ s.heap.table.freeAt b = true), Acts s s' p base := fun he' hgrown =>
    { toTouches := ⟨htidy, processMalloc_registry h, hfat, hfiles, hothers, fun t => by rw [htasks],
        fun t => by rw [htasks], hwords, fun b hb htaken _ => hshield.same b hb htaken⟩
      estate := he'
      grown := hgrown
      fixed := fun b hb => hshield.same b (he.closed.taken b hb).1 (he.closed.taken b hb).2 }
  rcases processMalloc_cases h with ⟨h0, -, hs'⟩ | ⟨h0, -, hfail, hprocs, -, -⟩ | ⟨h0, -, -, -, idx, hfind, hs'⟩
  · rw [ht.toKernelHeap.kzalloc_zero h0] at hs'
    obtain rfl : s' = s := hs'
    exact .refl ht he
  · obtain ⟨c, hc, hmade, -⟩ := ht.toKernelHeap.kzalloc_fit hpos (hserve.resolve_right h0)
    have hsame : s'.words = s.words := by
      rcases hfail with ⟨-, hwords⟩ | ⟨-, hneg⟩
      · exact hwords
      · rw [hmade, mallocMap_eq hc] at hneg
        exact absurd hneg (Int.lt_irrefl 0)
    have hleaves : Leaves s s' p base := by
      refine ⟨by rw [hprocs], by rw [htasks], by rw [htasks], fun b _ k _ => by rw [hsame], fun b _ => by rw [hfiles], ?_⟩
      intro b hb
      obtain ⟨hlt, htaken⟩ := he.owns_taken hb
      exact hshield.same b hlt htaken
    exact hacts (he.left hleaves) fun b hb => .inl (hleaves.owns_iff.1 hb)
  · obtain ⟨c, hc, hmade, hat⟩ := ht.toKernelHeap.kzalloc_fit hpos (hserve.resolve_right h0)
    obtain ⟨hidx, hslot⟩ := processFindFreeAlloc_some hfind
    rw [hs'] at h ⊢
    rw [hs'] at hacts
    obtain ⟨he', hgrown⟩ := he.mallocState ht hc hmade hat hidx hslot h
    exact hacts he' hgrown

/-! ## 解放 -/

/-- 記録の割り付けを戻すことは、失敗しない。 -/
theorem Estate.freeMap_zero (he : Estate s p base) {i : Nat} (hi : i < ENKI_MAX_PGM_ALLOCATIONS) :
    (freeMap s p ((s.procs p).allocations i)).1 = 0 := by
  by_cases h0 : ((s.procs p).allocations i).ptr = 0
  · rw [he.blank i (.inr h0)]
    rfl
  · obtain ⟨⟨c, hptr, hc⟩, hpos, -⟩ := he.laid i hi h0
    have hto := blockAddr_toNat (b := c) (by omega)
    have hcount : blocksFor ((s.procs p).allocations i).size = (((s.procs p).allocations i).size.toNat + 4095) / 4096 := rfl
    rw [freeMap, hptr, pagingMapTo_blocks (pageAligned_blockAddr (by omega)) (by rw [hto]; omega)]

/-- 解放するアドレスの記録の占めるブロックは、閉じている。空のアドレスの記録は、ブロックを占めない。 -/
theorem Estate.freed_closed (he : Estate s p base) {i : Nat} (hi : i < ENKI_MAX_PGM_ALLOCATIONS) :
    Closed s.heap (fun b => ((s.procs p).allocations i).ptr ≠ 0 ∧ ((s.procs p).allocations i).Covers b) ∧
      (((s.procs p).allocations i).ptr = 0 ∨ ∃ b, (((s.procs p).allocations i).ptr ≠ 0 ∧ ((s.procs p).allocations i).Covers b) ∧
        ((s.procs p).allocations i).ptr = blockAddr b) := by
  by_cases h0 : ((s.procs p).allocations i).ptr = 0
  · exact ⟨⟨fun _ hb => absurd h0 hb.1, fun _ hb => absurd h0 hb.1⟩, .inl h0⟩
  · obtain ⟨⟨c, hptr, hc⟩, hpos, hclosed⟩ := he.laid i hi h0
    refine ⟨⟨fun b hb => hclosed.taken b hb.2, fun b hb hlt hnext => ⟨h0, ?_⟩⟩, .inr ⟨c, ⟨h0, ?_⟩, hptr⟩⟩
    · exact hclosed.next b hb.2 hlt hnext
    · exact (covers_blockAddr (by omega) hptr).2 ⟨Nat.le_refl c, by omega⟩

/-- 解放は、自分の記録のブロックだけを手放す。 -/
theorem Estate.freeState (he : Estate s p base) (ht : Tidy s.heap) {i : Nat} (hi : i < ENKI_MAX_PGM_ALLOCATIONS)
    (hok : processFree s p ((s.procs p).allocations i).ptr =
      .ok (EnkiOs.freeState s p ((s.procs p).allocations i).ptr ((s.procs p).allocations i))) :
    Acts s (EnkiOs.freeState s p ((s.procs p).allocations i).ptr ((s.procs p).allocations i)) p base := by
  obtain ⟨entries, table, hpage⟩ := he.pageDir
  obtain ⟨hfreed, hcall⟩ := he.freed_closed hi
  obtain ⟨hshield, htidy⟩ := hfreed.release ht [((s.procs p).allocations i).ptr] fun a ha => by
    rw [List.mem_singleton.1 ha]
    exact hcall
  -- 残る記録は元のままで、解放するアドレスではない。
  have hrecord : ∀ j < ENKI_MAX_PGM_ALLOCATIONS,
      (((EnkiOs.freeState s p ((s.procs p).allocations i).ptr ((s.procs p).allocations i)).procs p).allocations j).ptr ≠ 0 →
      ((EnkiOs.freeState s p ((s.procs p).allocations i).ptr ((s.procs p).allocations i)).procs p).allocations j =
        (s.procs p).allocations j ∧ ((s.procs p).allocations j).ptr ≠ 0 ∧
          ((s.procs p).allocations j).ptr ≠ ((s.procs p).allocations i).ptr := by
    intro j hj hne
    obtain ⟨heq, hdrop⟩ := freeState_record hj hne
    exact ⟨heq, heq ▸ hne, hdrop rfl⟩
  have hsame : ∀ b < 25600, Taken s.heap b → ¬(((s.procs p).allocations i).ptr ≠ 0 ∧ ((s.procs p).allocations i).Covers b) →
      (EnkiOs.freeState s p ((s.procs p).allocations i).ptr ((s.procs p).allocations i)).heap.table.entries b =
        s.heap.table.entries b := fun b hb htaken hnot => hshield.same b hb ⟨htaken, hnot⟩
  have hfixed : ∀ b, base b →
      (EnkiOs.freeState s p ((s.procs p).allocations i).ptr ((s.procs p).allocations i)).heap.table.entries b =
        s.heap.table.entries b := by
    intro b hb
    obtain ⟨hlt, htaken⟩ := he.closed.taken b hb
    exact hsame b hlt htaken fun hcov => he.apart i hi hcov.1 b hcov.2 hb
  have hkept : ∀ j < ENKI_MAX_PGM_ALLOCATIONS, ((s.procs p).allocations j).ptr ≠ 0 →
      ((s.procs p).allocations j).ptr ≠ ((s.procs p).allocations i).ptr → ∀ b, ((s.procs p).allocations j).Covers b →
      ¬(((s.procs p).allocations i).ptr ≠ 0 ∧ ((s.procs p).allocations i).Covers b) := by
    intro j hj hne hij b hb hcov
    refine he.distinct j hj i hi ?_ hne hcov.1 b hb hcov.2
    rintro rfl
    exact hij rfl
  obtain ⟨hfat, hothers⟩ := processFree_others hok
  obtain ⟨htasks, hfiles, -⟩ := processFree_frame hok
  refine ⟨⟨htidy, processFree_registry hok, hfat, hfiles, hothers, fun t => by rw [htasks], fun t => by rw [htasks],
    fun x hx => he.mapTo_other hx, ?_⟩, ?_, ?_, hfixed⟩
  · intro b hb htaken hnot
    exact hsame b hb htaken fun hcov => hnot (.inr ⟨i, hi, hcov⟩)
  · refine he.sameImage hpage (processFree_sameImage hok hpage) (he.closed.congr hfixed) ?_ ?_ ?_ ?_
    · intro j hj hne
      obtain ⟨heq, hne, hij⟩ := hrecord j hj hne
      rw [heq]
      obtain ⟨haddr, hpos, hclosed⟩ := he.laid j hj hne
      refine ⟨haddr, hpos, hclosed.congr fun b hb => ?_⟩
      obtain ⟨hlt, htaken⟩ := hclosed.taken b hb
      exact hsame b hlt htaken (hkept j hj hne hij b hb)
    · intro j hj hne
      obtain ⟨heq, hne, -⟩ := hrecord j hj hne
      rw [heq]
      exact he.apart j hj hne
    · intro j hj k hk hjk hne hne'
      obtain ⟨heq, hne, -⟩ := hrecord j hj hne
      obtain ⟨heq', hne', -⟩ := hrecord k hk hne'
      rw [heq, heq']
      exact he.distinct j hj k hk hjk hne hne'
    · intro j hblank
      rw [freeState_same, processAllocationDrop] at hblank ⊢
      simp only at hblank ⊢
      split
      · rfl
      · rename_i hdrop
        rw [if_neg hdrop] at hblank
        exact he.blank j hblank
  · rintro b (hb | ⟨j, hj, hne, hcov⟩)
    · exact .inl (.inl hb)
    · obtain ⟨heq, hne, -⟩ := hrecord j hj hne
      rw [heq] at hcov
      exact .inl (.inr ⟨j, hj, hne, hcov⟩)

/-- どのアドレスの解放も、自分のブロックのほかには触れない。 -/
theorem Estate.free (he : Estate s p base) (ht : Tidy s.heap) (h : processFree s p toFree = .ok s') : Acts s s' p base := by
  rcases processFree_cases h with ⟨-, hs'⟩ | ⟨alloc, hget, -, hmade⟩
  · rw [hs']
    exact .refl ht he
  · obtain ⟨i, hi, rfl, rfl⟩ := processGetAllocation_some hget
    rcases hmade with ⟨hneg, -⟩ | ⟨-, rfl⟩
    · rw [he.freeMap_zero hi] at hneg
      exact absurd hneg (Int.lt_irrefl 0)
    · exact he.freeState ht hi h

/-- 解放の後の記録は、空であるか、元のままで、解放したアドレスではない。 -/
theorem Estate.free_record (he : Estate s p base) {i j : Nat} (hi : i < ENKI_MAX_PGM_ALLOCATIONS)
    (hj : j < ENKI_MAX_PGM_ALLOCATIONS) (h : processFree s p ((s.procs p).allocations i).ptr = .ok s') :
    (s'.procs p).allocations j = {} ∨ ((s'.procs p).allocations j = (s.procs p).allocations j ∧ j ≠ i) := by
  rcases processFree_cases h with ⟨hget, -⟩ | ⟨alloc, hget, -, hmade⟩
  · exact absurd rfl (processGetAllocation_none hget hi)
  · obtain ⟨k, hk, rfl, hptr⟩ := processGetAllocation_some hget
    rcases hmade with ⟨hneg, -⟩ | ⟨-, rfl⟩
    · rw [he.freeMap_zero hk] at hneg
      exact absurd hneg (Int.lt_irrefl 0)
    · rw [freeState_same, processAllocationDrop]
      simp only
      split
      · exact .inl rfl
      · rename_i hdrop
        refine .inr ⟨rfl, ?_⟩
        rintro rfl
        exact hdrop ⟨hj, rfl⟩

/-- 一度ずつの解放の後には、調べた記録はどれも空である。 -/
theorem Estate.freeAllocations {k i : Nat} (he : Estate s p base) (ht : Tidy s.heap) (hik : i + k = ENKI_MAX_PGM_ALLOCATIONS)
    (hdone : ∀ j < i, (s.procs p).allocations j = {}) (h : processFreeAllocations p k i s = .ok s') :
    Acts s s' p base ∧ (s'.procs p).allocations = fun _ => {} := by
  induction k generalizing i s with
  | zero =>
      cases h
      refine ⟨.refl ht he, ?_⟩
      funext j
      by_cases hj : j < i
      · exact hdone j hj
      · exact he.blank j (.inl (by omega))
  | succ k ih =>
      obtain ⟨s₁, hfree, h⟩ := bind_ok.1 h
      have hacts := he.free ht hfree
      have hdone₁ : ∀ j < i + 1, (s₁.procs p).allocations j = {} := by
        intro j hj
        rcases he.free_record (i := i) (j := j) (by omega) (by omega) hfree with hempty | ⟨heq, hji⟩
        · exact hempty
        · rw [heq]
          exact hdone j (by omega)
      obtain ⟨hrest, hall⟩ := ih hacts.estate hacts.tidy (by omega) hdone₁ h
      exact ⟨hacts.trans hrest, hall⟩

/-! ## 終了 -/

/-- 記録を外す手前までの終了は、自分のブロックのほかには触れない。 -/
theorem Estate.terminate (he : Estate s p base) (ht : Tidy s.heap) {depth : Nat} {code : Int}
    (h : processTerminate (depth + 1) s p = .ok (code, s')) :
    ∃ s₂, Touches s s₂ p base ∧ processUnlinkWith (processTerminate depth) s₂ p = .ok s' := by
  obtain ⟨s₁, halloc, hend⟩ := processTerminate_steps h
  obtain ⟨hacts, hempty⟩ := he.freeAllocations ht (Nat.zero_add _) (fun j hj => absurd hj (Nat.not_lt_zero j)) halloc
  rcases hend with ⟨hneg, -⟩ | ⟨hpos, s₂, htask, hunlink⟩
  · exact absurd hneg (Int.not_lt.2 hacts.estate.released)
  refine ⟨s₂, hacts.touches ?_, hunlink⟩
  obtain ⟨hheap, hregistry⟩ := processRelease_calls hpos htask
  rw [processFreePgmData_heap] at htask
  obtain ⟨⟨heap, tasks, current, head, tail, hs₂⟩, hpageDirs⟩ := taskFree_frame htask
  obtain ⟨hshield, htidy⟩ := hacts.estate.closed.release hacts.tidy (processReleaseCalls s₁ p)
    fun a ha => .inr (hacts.estate.release a ha)
  rw [← hheap] at hshield htidy
  have hregisters : ∀ t, (s₂.tasks t).registers = (s₁.tasks t).registers := by
    intro t
    rw [taskFree_registers htask t, Kernel.setHeap_tasks, Kernel.setHeap_tasks]
  refine ⟨htidy, hregistry, ?_, ?_, ?_, hpageDirs, hregisters, ?_, ?_⟩
  · rw [hs₂]
    rfl
  · rw [hs₂]
    rfl
  · intro q _
    rw [hs₂]
    rfl
  · intro x _
    rw [hs₂]
    rfl
  · intro b hb htaken hnot
    exact hshield.same b hb ⟨htaken, fun hbase => hnot (.inl hbase)⟩

end EnkiOs
