import EnkiOs.Process.Release
import EnkiOs.Process.Shelter

/-!
# プロセスの領分

登録されたプロセスが終了のときに返すブロックの集まりを、そのプロセスの領分と呼ぶ。読み込みはほかの領分に触れず、
終了は自分の領分だけを返す。
-/

namespace EnkiOs
open Machine

variable {s s' s₁ : Kernel} {fileName : List Byte} {slot result : Int} {proc p x dir entries : Word} {table : Nat → Word}
  {terminate : Kernel → Word → Except Fault (Int × Kernel)}

/-! ## 読み込みの終わり -/

/-- 読み込みの前半が作るもの。 -/
structure Prepared (s s' : Kernel) (proc : Word) : Prop where
  shelters : Shelters s s'
  record : Made s.heap s'.heap proc
  image : ImageMade s.heap s' proc
  stack : Made s.heap s'.heap (s'.procs proc).stack

theorem processPrepareWith_prepared (ht : Tidy s.heap) (hstray : Stray s.toFileState)
    (h : processPrepareWith terminate s fileName slot = .ok (.ok proc, s')) (hfits : ImageFits (s'.procs proc)) :
    Prepared s s' proc := by
  obtain ⟨heap, code, s₁, stack, s₂, hk, hne, hload, hcode, hstack, hstackne, rfl⟩ := processPrepareWith_ok h
  obtain ⟨s₀, hs₀⟩ : ∃ s₀, (s.setHeap heap).setProc proc {} = s₀ := ⟨_, rfl⟩
  have hheap₀ : s₀.heap = heap := by
    rw [← hs₀]
    rfl
  have h₀ : Shelters s s₀ := by
    rw [← hs₀]
    exact ((Shelters.refl ht).kzalloc hk).1.congr rfl rfl rfl
  rw [hs₀] at hload
  have h₁ := processLoadData_shelters h₀.tidy (h₀.stray hstray) hload
  obtain ⟨h₂, -, heap₂, mem₂, rfl⟩ := (Shelters.refl h₁.tidy).kzallocBytes hstack
  have hrecord : Made s.heap s₁.heap proc := .kept ht.toKernelHeap (by decide) (by decide) hk hne hheap₀ h₁
  have hfits₁ : ImageFits (s₁.procs proc) := by simpa [ImageFits, Kernel.setProc] using hfits
  obtain ⟨haddr, hbody⟩ := processLoadData_made h₀.tidy (h₀.stray hstray) hload hcode hfits₁
  have hnew : Made s₁.heap heap₂ stack :=
    .kept h₁.tidy.toKernelHeap (by decide) (by decide) (kzallocBytes_made hstack) hstackne rfl (Shelters.refl h₂.tidy)
  refine ⟨(h₀.trans (h₁.trans h₂)).congr rfl rfl rfl, hrecord.shielded h₂.heap, ?_, ?_⟩
  · simp only [ImageMade, Kernel.setProc, if_true]
    exact ⟨(haddr.later h₀.heap).shielded h₂.heap,
      hbody.imp id fun hbody => ⟨hbody.1, (hbody.2.later h₀.heap).shielded h₂.heap⟩⟩
  · simp only [Kernel.setProc, if_true]
    exact hnew.later (h₀.trans h₁).heap

theorem InTaken.mono {h h' : Heap} (hx : InTaken h x) (hs : Shielded (Taken h) h h') : InTaken h' x := by
  obtain ⟨b, hb, htaken, k, hk, rfl⟩ := hx
  exact ⟨b, hb, hs.taken hb htaken, k, hk, rfl⟩

theorem processMapElfLoop_other {mem : Memory} {file : ElfFile} {k i : Nat} {words : Words}
    (h : PageDir words dir entries table) (hx : ∀ n < 2 ^ 20, x ≠ pageSlot table n) :
    (processMapElfLoop mem file dir k i result words).2 x = words x := by
  induction k generalizing i result words with
  | zero => rfl
  | succ k ih =>
      have hstep : PageDir (processMapPhdr words dir file (elfProgramHeader mem file.elfMemory i)).2 dir entries table :=
        h.mapTo _ _ _ _
      have hsame : (processMapPhdr words dir file (elfProgramHeader mem file.elfMemory i)).2 x = words x :=
        h.mapTo_other hx _ _ _ _
      rw [processMapElfLoop]
      simp only
      split
      · exact hsame
      · exact (ih hstep).trans hsame

/-- 本体の割り付けは、表の項目でない語を変えない。 -/
theorem processMapImage_other {image : Process} {words : Words} (h : PageDir s.words dir entries table)
    (hx : ∀ n < 2 ^ 20, x ≠ pageSlot table n) (hmap : processMapImage s image dir = .ok (result, words)) :
    words x = s.words x := by
  rw [processMapImage] at hmap
  split at hmap
  · cases hmap
    exact h.mapTo_other hx _ _ _ _
  · split at hmap
    · obtain ⟨-, rfl⟩ := Prod.mk.inj (Except.ok.inj hmap)
      exact processMapElfLoop_other h hx
    · cases hmap

/-- 前半の後は、タスクの並びのほかの、ファイルもタスクの表も変わらない。 -/
theorem processLoadSlotWith_tasks (hprep : processPrepareWith terminate s fileName slot = .ok (.ok proc, s₁))
    (h : processLoadSlotWith terminate s fileName slot = .ok (result, proc, s')) (hresult : 0 ≤ result) :
    s'.fatFiles = s₁.fatFiles ∧ ∀ t, t ≠ (s'.procs proc).task → (s'.tasks t).pageDir = (s₁.tasks t).pageDir := by
  obtain ⟨s₂, t, s₃, s₄, hprep', hnew, ht, hmap, rfl⟩ := processLoadSlotWith_ok h hresult
  obtain rfl : s₁ = s₂ := by
    rw [hprep] at hprep'
    cases hprep'
    rfl
  obtain ⟨dir, heap₁, heap₂, words, -, -, happend⟩ := taskNew_ok hnew ht
  obtain ⟨⟨tasks, current, head, tail, rfl⟩, hpd⟩ := taskAppend_frame happend
  obtain ⟨words', rfl⟩ := processMapMemory_frame hmap
  refine ⟨rfl, ?_⟩
  intro x hx
  have hx : x ≠ t := by simpa [Kernel.setProc] using hx
  refine (hpd x).trans ?_
  rw [Kernel.setTask_other _ _ _ hx]

/-- 成功した読み込みは、塞がっていたブロックとほかのページの表に触れず、終了のときに返すのは新しいブロックだけである。 -/
structure Settles (s s' : Kernel) (proc : Word) : Prop where
  shelters : Shelters s s'
  words : ∀ x, InTaken s.heap x → s'.words x = s.words x
  pageDirs : ∀ t, t ≠ (s'.procs proc).task → (s'.tasks t).pageDir = (s.tasks t).pageDir
  record : Made s.heap s'.heap proc
  task : Made s.heap s'.heap (s'.procs proc).task
  pageDir : ∃ entries table, PageDir s'.words (s'.tasks (s'.procs proc).task).pageDir entries table
  release : ∀ a ∈ processReleaseCalls s' proc, Made s.heap s'.heap a
  released : 0 ≤ (processFreePgmData s' proc).1

theorem processLoadSlotWith_settles (ht : Tidy s.heap) (hstray : Stray s.toFileState)
    (h : processLoadSlotWith terminate s fileName slot = .ok (result, proc, s')) (hresult : 0 ≤ result)
    (hfits : ImageFits (s'.procs proc)) : Settles s s' proc := by
  obtain ⟨s₁, t, dir, heap₁, words, words₁, hprep, htne, hkt, hpaging, -, hfiles, hproc, hdir, himg, hwords⟩ :=
    processLoadSlotWith_state h hresult
  have hp := processPrepareWith_prepared ht hstray hprep (by simpa [ImageFits, hproc] using hfits)
  obtain ⟨hfat, hpageDirs⟩ := processLoadSlotWith_tasks hprep h hresult
  obtain ⟨fs, files, p, hs₁, -⟩ := processPrepareWith_frame hprep
  have hwords₁ : s₁.words = s.words := by rw [hs₁]
  have htasks₁ : s₁.tasks = s.tasks := by rw [hs₁]
  have h₁ := (Shelters.refl hp.shelters.tidy).kzalloc hkt
  obtain ⟨hheap₂, entries, table, hpage, hmadeDir, hmadeEntries, hmadeTable⟩ := pagingNew_made h₁.1.tidy hpaging
  have hheap₁ : Shielded (Taken s₁.heap) s₁.heap heap₁ := h₁.1.heap
  have hrest := hheap₁.trans hheap₂
  have hold : ∀ {a}, Made s.heap s₁.heap a → Made s.heap s'.heap a := fun ha => ha.shielded hrest
  have hnew : ∀ {a}, Made heap₁ s'.heap a → Made s.heap s'.heap a := fun ha =>
    (ha.later hheap₁).later hp.shelters.heap
  have htask : Made s.heap s'.heap t :=
    ((hp.shelters.tidy.made (by decide) (by decide) hkt htne).shielded hheap₂).later hp.shelters.heap
  have hpage₁ : PageDir words₁ dir entries table := processMapImage_pageDir (s := { s₁ with words := words }) hpage himg
  have hpage' : PageDir s'.words (s'.tasks (s'.procs proc).task).pageDir entries table := by
    rw [hproc, hdir, hwords, processMapStack]
    exact hpage₁.mapTo _ _ _ _
  refine ⟨?_, ?_, ?_, hold hp.record, ?_, ?_, ?_, ?_⟩
  · refine ⟨hp.shelters.heap.trans hrest, ?_, ?_, ?_⟩
    · exact (pagingNew_pageDir tidy_kept h₁.1.tidy.toKernelHeap h₁.1.tidy hpaging).2.1
    · intro a ha
      rw [hfat]
      exact hp.shelters.fatFiles a ha
    · intro b hb htaken
      rw [hfiles]
      exact hp.shelters.elfFiles b hb htaken
  · intro x hx
    have hslots : ∀ n < 2 ^ 20, x ≠ pageSlot table n := by
      intro n hn
      obtain ⟨b, hb, heq, hfree⟩ := (hnew (hmadeTable (n / 1024) (by omega))).fresh
      rw [pageSlot, heq]
      exact hx.ne hb hfree (by omega)
    have hx₁ : InTaken heap₁ x := (hx.mono hp.shelters.heap).mono hheap₁
    have himage : words₁ x = words x := processMapImage_other (s := { s₁ with words := words }) hpage hslots himg
    rw [hwords, processMapStack, hpage₁.mapTo_other hslots, himage, pagingNew_other h₁.1.tidy.toKernelHeap hx₁ hpaging,
      hwords₁]
  · intro x hx
    rw [hpageDirs x hx, htasks₁]
  · rw [hproc]
    exact htask
  · exact ⟨entries, table, hpage'⟩
  · intro a ha
    have himage := hp.image
    rcases mem_processReleaseCalls hpage' ha with rfl | ⟨helf, rfl⟩ | rfl | rfl | rfl | rfl | ⟨i, hi, rfl⟩
    · rw [hproc]
      exact hold himage.1
    · rw [hproc, hfiles]
      rw [hproc] at helf
      exact hold (himage.2.resolve_left fun hbin => absurd (helf.symm.trans hbin) (by decide)).2
    · rw [hproc]
      exact hold hp.stack
    · rw [hproc]
      exact htask
    · rw [hproc, hdir]
      exact hnew hmadeDir
    · exact hnew hmadeEntries
    · exact hnew (hmadeTable i hi)
  · rw [processFreePgmData, hproc]
    rcases hp.image.2 with hbin | ⟨helf, -⟩
    · rw [hbin]
      exact Int.le_refl 0
    · rw [helf]
      exact Int.le_refl 0

/-! ## 領分 -/

/-- `own` は、`proc` が終了のときに返すブロックと記録のブロックを含み、割り当ての途中で切れない。 -/
structure Territory (s : Kernel) (proc : Word) (own : Nat → Prop) : Prop where
  taken : ∀ b, own b → b < 25600 ∧ Taken s.heap b
  closed : ∀ b, own b → b + 1 < 25600 → s.heap.table.entries b &&& HEAP_BLOCK_HAS_NEXT ≠ 0 → own (b + 1)
  record : ∃ b, own b ∧ proc = blockAddr b
  task : (s.procs proc).task ≠ 0
  pageDir : ∃ entries table, PageDir s.words (s.tasks (s.procs proc).task).pageDir entries table
  release : ∀ a ∈ processReleaseCalls s proc, ∃ b, own b ∧ a = blockAddr b
  released : 0 ≤ (processFreePgmData s proc).1
  empty : (s.procs proc).allocations = fun _ => {}

/-- 新しい割り当てのブロックの集まり。 -/
def Extent (h₀ h : Heap) (a : Word) (j : Nat) : Prop := ∃ b m, a = blockAddr b ∧ MadeAt h₀ h b m ∧ b ≤ j ∧ j < b + m ∧ j < 25600

theorem Made.extent {h₀ h : Heap} {a : Word} (hm : Made h₀ h a) : ∃ b, Extent h₀ h a b ∧ a = blockAddr b := by
  obtain ⟨b, m, rfl, hm⟩ := hm
  have hpos := hm.pos
  exact ⟨b, ⟨b, m, rfl, hm, Nat.le_refl b, by omega, hm.lt⟩, rfl⟩

/-- 成功した読み込みの領分。記録と、終了のときに返すアドレスの割り当てからなる。 -/
def settledOwn (s s' : Kernel) (proc : Word) (j : Nat) : Prop :=
  ∃ a, (a = proc ∨ a ∈ processReleaseCalls s' proc) ∧ Extent s.heap s'.heap a j

theorem settledOwn_free {j : Nat} (h : settledOwn s s' proc j) : j < 25600 ∧ s.heap.table.freeAt j = true := by
  obtain ⟨a, -, b, m, rfl, hm, h1, h2, h3⟩ := h
  exact ⟨h3, hm.fresh j h1 h2 h3⟩

theorem Settles.territory (hs : Settles s s' proc) (hempty : (s'.procs proc).allocations = fun _ => {}) :
    Territory s' proc (settledOwn s s' proc) where
  taken := by
    rintro j ⟨a, -, b, m, rfl, hm, h1, h2, h3⟩
    exact ⟨h3, hm.taken j h1 h2 h3⟩
  closed := by
    rintro j ⟨a, ha, b, m, rfl, hm, h1, h2, h3⟩ hj hnext
    refine ⟨blockAddr b, ha, b, m, rfl, hm, by omega, ?_, hj⟩
    by_contra hend
    -- 割り当ての最後のブロックは、続きを持たない。
    obtain rfl : j = b + m - 1 := by omega
    exact hnext (hm.stop (by omega))
  record := by
    obtain ⟨b, hext, heq⟩ := hs.record.extent
    exact ⟨b, ⟨proc, .inl rfl, hext⟩, heq⟩
  task := hs.task.ne_zero
  pageDir := hs.pageDir
  release := by
    intro a ha
    obtain ⟨b, hext, heq⟩ := (hs.release a ha).extent
    exact ⟨b, ⟨a, .inr ha, hext⟩, heq⟩
  released := hs.released
  empty := hempty

/-- `proc` の領分に触れない変化。 -/
structure Spares (s s' : Kernel) (proc : Word) (own : Nat → Prop) : Prop where
  record : s'.procs proc = s.procs proc
  pageDir : (s'.tasks (s.procs proc).task).pageDir = (s.tasks (s.procs proc).task).pageDir
  words : ∀ x, InTaken s.heap x → s'.words x = s.words x
  elfFiles : ∀ b < 25600, Taken s.heap b → s'.elfFiles (blockAddr b) = s.elfFiles (blockAddr b)
  entries : ∀ b < 25600, own b → s'.heap.table.entries b = s.heap.table.entries b

variable {own : Nat → Prop}

theorem Territory.inTaken (ht : Territory s proc own) {a : Word} (ha : a ∈ processReleaseCalls s proc) {k : Nat} (hk : k < 1024) :
    InTaken s.heap (entryAddr a (BitVec.ofNat 32 k)) := by
  obtain ⟨b, hown, rfl⟩ := ht.release a ha
  exact ⟨b, (ht.taken b hown).1, (ht.taken b hown).2, k, hk, rfl⟩

theorem Territory.mem_release (ht : Territory s proc own) {a : Word}
    (ha : a = (s.procs proc).task ∨ a ∈ pagingFreeCalls s.words (s.tasks (s.procs proc).task).pageDir) :
    a ∈ processReleaseCalls s proc := by
  refine List.mem_append_right _ ?_
  rw [if_neg (Int.not_lt.2 ht.released)]
  rcases ha with rfl | ha
  · exact List.mem_append_right _ List.mem_cons_self
  · exact List.mem_append_left _ (List.mem_cons_of_mem _ ha)

/-- ページの表を返す呼び出しは、変わらない。 -/
theorem Territory.pagingFreeCalls_eq (ht : Territory s proc own) (hs : Spares s s' proc own) :
    pagingFreeCalls s'.words (s.tasks (s.procs proc).task).pageDir =
      pagingFreeCalls s.words (s.tasks (s.procs proc).task).pageDir ∧
    ∃ entries table, PageDir s'.words (s.tasks (s.procs proc).task).pageDir entries table := by
  obtain ⟨entries, table, hpage⟩ := ht.pageDir
  have hmem : ∀ a, (a = entries ∨ a = (s.tasks (s.procs proc).task).pageDir) → a ∈ processReleaseCalls s proc := by
    intro a ha
    refine ht.mem_release (.inr ?_)
    rw [hpage.freeCalls_eq]
    refine List.mem_append_right _ ?_
    rcases ha with rfl | rfl
    · exact List.mem_cons_self
    · exact List.mem_cons_of_mem _ List.mem_cons_self
  have hpage' : PageDir s'.words (s.tasks (s.procs proc).task).pageDir entries table := by
    refine ⟨?_, ?_, hpage.dir_aligned, hpage.entries_aligned, hpage.table_aligned, hpage.table_inj, hpage.table_ne_entries,
      hpage.table_ne_dir⟩
    · have hdir := ht.inTaken (hmem _ (.inr rfl)) (k := 0) (by decide)
      rw [entryAddr_zero] at hdir
      rw [hs.words _ hdir]
      exact hpage.dir_eq
    · intro i hi
      rw [hs.words _ (ht.inTaken (hmem _ (.inl rfl)) hi)]
      exact hpage.dirEntry i hi
  exact ⟨hpage'.freeCalls_eq.trans hpage.freeCalls_eq.symm, entries, table, hpage'⟩

theorem Territory.pgmDataCalls_eq (ht : Territory s proc own) (hs : Spares s s' proc own) :
    processFreePgmDataCalls s' proc = processFreePgmDataCalls s proc := by
  simp only [processFreePgmDataCalls, hs.record]
  by_cases hbin : (s.procs proc).fileType = PROCESS_FILE_TYPE_BIN
  · rw [if_pos hbin, if_pos hbin]
  · rw [if_neg hbin, if_neg hbin]
    by_cases helf : (s.procs proc).fileType = PROCESS_FILE_TYPE_ELF ∧ (s.procs proc).addr ≠ 0
    · rw [if_pos helf, if_pos helf]
      have hmem : (s.procs proc).addr ∈ processReleaseCalls s proc := by
        refine List.mem_append_left _ ?_
        simp only [processFreePgmDataCalls]
        rw [if_neg hbin, if_pos helf]
        exact List.mem_cons_of_mem _ List.mem_cons_self
      obtain ⟨b, hown, heq⟩ := ht.release _ hmem
      rw [heq, hs.elfFiles b (ht.taken b hown).1 (ht.taken b hown).2]
    · rw [if_neg helf, if_neg helf]

/-- 領分に触れない変化の後も、領分は領分である。 -/
theorem Territory.spared (ht : Territory s proc own) (hs : Spares s s' proc own) : Territory s' proc own := by
  obtain ⟨hpaging, entries, table, hpage⟩ := ht.pagingFreeCalls_eq hs
  have hcode : (processFreePgmData s' proc).1 = (processFreePgmData s proc).1 := by
    rw [processFreePgmData_code, processFreePgmData_code, hs.record]
  have hcalls : processReleaseCalls s' proc = processReleaseCalls s proc := by
    rw [processReleaseCalls, processReleaseCalls, ht.pgmDataCalls_eq hs, hcode, hs.record, hs.pageDir, hpaging]
  refine ⟨?_, ?_, ht.record, ?_, ?_, ?_, ?_, ?_⟩
  · intro b hb
    obtain ⟨hlt, htaken⟩ := ht.taken b hb
    refine ⟨hlt, ?_⟩
    rw [Taken, HeapTable.freeAt, hs.entries b hlt hb]
    exact htaken
  · intro b hb hlt hnext
    rw [hs.entries b (ht.taken b hb).1 hb] at hnext
    exact ht.closed b hb hlt hnext
  · rw [hs.record]
    exact ht.task
  · rw [hs.record, hs.pageDir]
    exact ⟨entries, table, hpage⟩
  · rw [hcalls]
    exact ht.release
  · rw [hcode]
    exact ht.released
  · rw [hs.record]
    exact ht.empty

/-- 読み込みは、前からのプロセスの領分に触れない。 -/
theorem Settles.spares (hs : Settles s s' proc) (ht : Territory s p own) (hrecord : s'.procs p = s.procs p) :
    Spares s s' p own where
  record := hrecord
  pageDir := by
    refine hs.pageDirs _ ?_
    intro he
    obtain ⟨b, hown, heq⟩ := ht.release _ (ht.mem_release (.inl rfl))
    obtain ⟨hlt, htaken⟩ := ht.taken b hown
    obtain ⟨c, hc, heq', hfree⟩ := hs.task.fresh
    rw [← he, heq] at heq'
    obtain rfl := blockAddr_inj (Nat.le_of_lt hlt) (Nat.le_of_lt hc) heq'
    rw [Taken, hfree] at htaken
    cases htaken
  words := hs.words
  elfFiles := hs.shelters.elfFiles
  entries b hb hown := hs.shelters.heap.same b hb (ht.taken b hown).2

/-! ## 終了の解放 -/

/-- 終了の解放は、自分の領分のほかの塞がったブロックを変えない。 -/
theorem Releases.shielded (hr : Releases s s' proc) (htidy : Tidy s.heap) (ht : Territory s proc own) :
    Shielded (fun b => Taken s.heap b ∧ ¬own b) s.heap s'.heap ∧ Tidy s'.heap := by
  have hstart : Shielded (fun b => Taken s.heap b ∧ ¬own b) s.heap s.heap := by
    refine ⟨htidy.toKernelHeap, htidy.guarded, fun _ _ _ => rfl, ?_⟩
    rintro b hb hout ⟨htaken, hnot⟩
    by_cases hown : own b
    · by_contra hnext
      exact hnot (ht.closed b hown hb hnext)
    · refine htidy.clean b (by omega) ?_
      by_contra hfree
      exact hout ⟨by simpa [Taken] using hfree, hown⟩
  have hkept : HeapKept (fun h => Shielded (fun b => Taken s.heap b ∧ ¬own b) s.heap h ∧ Tidy h)
      (Outside fun b => Taken s.heap b ∧ ¬own b) := shieldedTidy_kept fun _ _ hb => hb.1
  rw [hr.heap]
  refine foldl_kfree_kept hkept ⟨hstart, htidy⟩ ?_
  intro a ha
  rcases List.mem_append.1 ha with ha | ha
  · rw [List.eq_of_mem_replicate ha]
    exact hkept.null
  · obtain ⟨b, hown, rfl⟩ := ht.release a ha
    exact .inr ⟨b, (ht.taken b hown).1, rfl, fun h => h.2 hown⟩

/-- 終了の解放は、ほかのプロセスの領分に触れない。 -/
theorem Releases.spares (hr : Releases s s' proc) (htidy : Tidy s.heap) (ht : Territory s proc own) {own' : Nat → Prop}
    (ht' : Territory s p own') (hdisjoint : ∀ b, own' b → ¬own b) : Spares s s' p own' := by
  have hshield := (hr.shielded htidy ht).1
  obtain ⟨heap, tasks, current, head, tail, rfl⟩ := hr.frame
  exact ⟨rfl, hr.pageDirs _, fun _ _ => rfl, fun _ _ _ => rfl,
    fun b hb hown => hshield.same b hb ⟨(ht'.taken b hown).2, hdisjoint b hown⟩⟩

end EnkiOs
