import EnkiOs.Process.Loads

/-!
# 読み込みの変えるもの

読み込みのどの段階がカーネルの状態のどこを変えるか。
-/

namespace EnkiOs
open Machine

variable {s s' : Kernel} {fileName : List Byte} {result : Int} {proc elfFile : Word}

theorem kzallocBytes_frame (s : Kernel) (size : Word) :
    ∃ fs, (kzallocBytes s size).2 = { s with toFileState := fs } := by
  simp only [kzallocBytes]
  split
  · exact ⟨_, rfl⟩
  · exact ⟨_, rfl⟩

/-- ELF ファイルの読み込みが変えるのは、ファイルの状態と `struct elf_file` だけである。 -/
theorem elfLoad_frame (h : elfLoad s fileName = .ok (result, elfFile, s')) :
    ∃ fs files, s' = { s with toFileState := fs, elfFiles := files } := by
  obtain ⟨p, heap, fd, fs, -, -, hopened⟩ := elfLoad_path h
  cases hopened with
  | unopened => exact ⟨_, _, rfl⟩
  | unknown => exact ⟨_, _, rfl⟩
  | @known stat memory s₁ _ _ _ _ _ _ _ _ hk _ hend =>
      obtain ⟨fs₁, hs₁⟩ := kzallocBytes_frame _ stat.fileSize
      rw [hk] at hs₁
      subst hs₁
      cases hend with
      | unread => exact ⟨_, _, rfl⟩
      | refused => exact ⟨_, _, rfl⟩
      | loaded => exact ⟨_, _, rfl⟩

/-- プロセスの記録 `proc` のほかに変わるのは、ファイルの状態と `struct elf_file` だけで、記録の `task` と割り当ての表は
変わらない。 -/
def LoadFrame (proc : Word) (s s' : Kernel) : Prop :=
  ∃ fs files p, s' = { s with
    toFileState := fs, elfFiles := files, procs := fun x => if x = proc then p else s.procs x } ∧
    p.task = (s.procs proc).task ∧ p.allocations = (s.procs proc).allocations

theorem LoadFrame.of_files (fs : FileState) (files : Word → ElfFile) :
    LoadFrame proc s { s with toFileState := fs, elfFiles := files } := by
  refine ⟨fs, files, s.procs proc, ?_, rfl, rfl⟩
  congr 1
  funext x
  split
  · rename_i hx
    rw [hx]
  · rfl

theorem LoadFrame.trans {s₁ : Kernel} (h₁ : LoadFrame proc s s₁) (h₂ : LoadFrame proc s₁ s') :
    LoadFrame proc s s' := by
  obtain ⟨fs₁, files₁, p₁, rfl, hp₁, ha₁⟩ := h₁
  obtain ⟨fs₂, files₂, p₂, rfl, hp₂, ha₂⟩ := h₂
  refine ⟨fs₂, files₂, p₂, ?_, ?_, ?_⟩
  · congr 1
    funext x
    split
    · rfl
    · rename_i hx
      exact if_neg hx
  · rw [hp₂]
    simpa using hp₁
  · rw [ha₂]
    simpa using ha₁

theorem LoadFrame.setProc {p : Process} (hp : p.task = (s.procs proc).task)
    (ha : p.allocations = (s.procs proc).allocations) : LoadFrame proc s (s.setProc proc p) :=
  ⟨_, _, p, rfl, hp, ha⟩

theorem processLoadElf_frame (h : processLoadElf s fileName proc = .ok (result, s')) : LoadFrame proc s s' := by
  obtain ⟨⟨code, addr, s₁⟩, hload, h⟩ := bind_ok.1 h
  obtain ⟨fs, files, hs₁⟩ := elfLoad_frame hload
  have hframe : LoadFrame proc s s₁ := hs₁ ▸ .of_files fs files
  simp only at h
  split at h
  · cases h
    exact hframe
  · cases h
    exact hframe.trans (.setProc rfl rfl)

theorem processLoadBin_frame (h : processLoadBin s fileName proc = .ok (result, s')) : LoadFrame proc s s' := by
  obtain ⟨fd, fs, -, hopened⟩ := processLoadBin_path h
  have hmade : ∀ {size data : Word} {s₁ : Kernel}, kzallocBytes { s with toFileState := fs } size = (data, s₁) →
      LoadFrame proc s s₁ := by
    intro size data s₁ hk
    obtain ⟨fs₁, hs₁⟩ := kzallocBytes_frame { s with toFileState := fs } size
    rw [hk] at hs₁
    subst hs₁
    exact .of_files fs₁ s.elfFiles
  cases hopened with
  | unopened => exact .of_files fs s.elfFiles
  | unknown => exact .of_files _ s.elfFiles
  | @unallocated _ s₁ _ _ hk => exact (hmade hk).trans (.of_files _ s₁.elfFiles)
  | @unread _ _ s₁ _ _ _ _ hk => exact (hmade hk).trans (.of_files _ s₁.elfFiles)
  | @loaded _ _ s₁ fs₁ _ _ hk => exact ((hmade hk).trans (.of_files fs₁ s₁.elfFiles)).trans (.setProc rfl rfl)

theorem processLoadData_frame (h : processLoadData s fileName proc = .ok (result, s')) : LoadFrame proc s s' := by
  obtain ⟨⟨code, s₁⟩, helf, h⟩ := bind_ok.1 h
  have hframe := processLoadElf_frame helf
  simp only at h
  split at h
  · exact hframe.trans (processLoadBin_frame h)
  · cases h
    exact hframe

/-- 空の `task` を持つ記録の後始末は、空のポインタを通す。 -/
theorem processTerminate_null {depth : Nat} (htask : (s.procs proc).task = 0) :
    processTerminate (depth + 1) s proc = .error .nullDeref := by
  have hfirst : processGetAllocation (s.procs proc) ((s.procs proc).allocations 0).ptr =
      some ((s.procs proc).allocations 0) := by
    rw [processGetAllocation, processAllocationAt, if_pos rfl]
  have hfree : processFree s proc ((s.procs proc).allocations 0).ptr = .error .nullDeref := by
    simp only [processFree, hfirst, processPageDir, htask, if_true, bind, Except.bind]
  have hall : processFreeAllocations proc ENKI_MAX_PGM_ALLOCATIONS 0 s = .error .nullDeref := by
    rw [processFreeAllocations, hfree]
    rfl
  rw [processTerminate, hall]
  rfl

theorem processTerminate_null_ne_ok {depth : Nat} (htask : (s.procs proc).task = 0) (out : Int × Kernel) :
    processTerminate depth s proc ≠ .ok out := by
  cases depth with
  | zero =>
      intro h
      cases h
  | succ depth =>
      rw [processTerminate_null htask]
      intro h
      cases h

/-- 記録が割り当てられた後の前半は、最後まで進むか、値を返さない。記録の `task` は、まだ空である。 -/
theorem processPrepare_ok {depth : Nat} {slot : Int} {out : Except Int Word} (hslot : processGet s slot = 0)
    (hproc : (kzalloc s.heap PROCESS_SIZE).1 ≠ 0)
    (h : processPrepareWith (processTerminate depth) s fileName slot = .ok (out, s')) :
    out = .ok (kzalloc s.heap PROCESS_SIZE).1 ∧ (s'.procs (kzalloc s.heap PROCESS_SIZE).1).task = 0 := by
  obtain ⟨p, heap, hk⟩ : ∃ p heap, kzalloc s.heap PROCESS_SIZE = (p, heap) := ⟨_, _, rfl⟩
  rw [hk] at hproc ⊢
  simp only [processPrepareWith, hslot, ne_eq, not_true_eq_false, if_false, hk] at h
  rw [if_neg hproc] at h
  obtain ⟨⟨result, s₁⟩, hload, h⟩ := bind_ok.1 h
  have htask : (s₁.procs p).task = 0 := by
    obtain ⟨fs, files, q, rfl, hq, -⟩ := processLoadData_frame hload
    simpa [Kernel.setProc] using hq
  simp only at h
  split at h
  · obtain ⟨_, hterm, -⟩ := bind_ok.1 h
    exact absurd hterm (processTerminate_null_ne_ok htask _)
  · generalize hstack : kzallocBytes s₁ _ = made at h
    obtain ⟨stack, s₂⟩ := made
    obtain ⟨fs, hs₂⟩ := kzallocBytes_frame s₁ (BitVec.ofNat 32 ENKI_USER_PGM_STACK_SIZE)
    rw [hstack] at hs₂
    have htask₂ : (s₂.procs p).task = 0 := by
      rw [show s₂ = _ from hs₂]
      exact htask
    simp only at h
    split at h
    · obtain ⟨_, hterm, -⟩ := bind_ok.1 h
      exact absurd hterm (processTerminate_null_ne_ok htask₂ _)
    · cases h
      exact ⟨rfl, by simpa [Kernel.setProc] using htask₂⟩

theorem processMapMemory_frame (h : processMapMemory s proc = .ok (result, s')) :
    ∃ words, s' = { s with words := words } := by
  obtain ⟨pageDir, -, h⟩ := bind_ok.1 h
  obtain ⟨⟨code, words⟩, -, h⟩ := bind_ok.1 h
  simp only at h
  split at h
  · cases h
    exact ⟨_, rfl⟩
  · cases h
    exact ⟨_, rfl⟩

/-- 用意ができ、タスクが作れれば、結果は割り付けの結果である。 -/
theorem processLoadSlotWith_eq {terminate : Kernel → Word → Except Fault (Int × Kernel)} {slot : Int} {p t : Word}
    {s₁ s₂ s₃ : Kernel} (hprep : processPrepareWith terminate s fileName slot = .ok (.ok p, s₁))
    (hnew : taskNew s₁ p = .ok (t, s₂)) (ht : t ≠ 0)
    (hmap : processMapMemory (s₂.setProc p { s₂.procs p with task := t }) p = .ok (result, s₃)) :
    processLoadSlotWith terminate s fileName slot = .ok (if result < 0 then (result, 0, s₃)
      else (result, p, { s₃ with processes := fun i => if i = slot then p else s₃.processes i })) := by
  refine bind_ok.2 ⟨_, hprep, bind_ok.2 ⟨_, hnew, ?_⟩⟩
  simp only
  rw [if_neg ht]
  refine bind_ok.2 ⟨_, hmap, ?_⟩
  simp only
  split <;> rfl

section

variable {terminate : Kernel → Word → Except Fault (Int × Kernel)} {slot : Int}

/-- 前半が記録を返すなら、記録、読み込み、スタックのどれも用意できている。 -/
theorem processPrepareWith_ok (h : processPrepareWith terminate s fileName slot = .ok (.ok proc, s')) :
    ∃ heap code s₁ stack s₂, kzalloc s.heap PROCESS_SIZE = (proc, heap) ∧ proc ≠ 0 ∧
      processLoadData ((s.setHeap heap).setProc proc {}) fileName proc = .ok (code, s₁) ∧ 0 ≤ code ∧
      kzallocBytes s₁ (BitVec.ofNat 32 ENKI_USER_PGM_STACK_SIZE) = (stack, s₂) ∧ stack ≠ 0 ∧
      s' = s₂.setProc proc { s₂.procs proc with
        stack := stack
        fileName := fileName.take (ENKI_MAX_PATH - 1)
        id := BitVec.ofInt 16 slot } := by
  obtain ⟨p, heap, hk⟩ : ∃ p heap, kzalloc s.heap PROCESS_SIZE = (p, heap) := ⟨_, _, rfl⟩
  simp only [processPrepareWith, hk] at h
  split at h
  · cases h
  · split at h
    · cases h
    · rename_i hp
      obtain ⟨⟨code, s₁⟩, hload, h⟩ := bind_ok.1 h
      simp only at h
      split at h
      · obtain ⟨_, -, h⟩ := bind_ok.1 h
        cases h
      · generalize hstack : kzallocBytes s₁ _ = made at h
        obtain ⟨stack, s₂⟩ := made
        simp only at h
        split at h
        · obtain ⟨_, -, h⟩ := bind_ok.1 h
          cases h
        · cases h
          exact ⟨heap, code, s₁, stack, s₂, hk, hp, hload, by omega, hstack, ‹_›, rfl⟩

theorem processPrepareWith_error (h : processPrepareWith terminate s fileName slot = .ok (.error result, s')) :
    result < 0 := by
  simp only [processPrepareWith] at h
  split at h
  · cases h
    decide
  · split at h
    · cases h
      decide
    · obtain ⟨⟨code, s₁⟩, hload, h⟩ := bind_ok.1 h
      simp only at h
      split at h
      · obtain ⟨_, -, h⟩ := bind_ok.1 h
        cases h
        assumption
      · split at h
        · obtain ⟨_, -, h⟩ := bind_ok.1 h
          cases h
          decide
        · cases h

theorem processLoadSlotWith_ok (h : processLoadSlotWith terminate s fileName slot = .ok (result, proc, s'))
    (hresult : 0 ≤ result) :
    ∃ s₁ t s₂ s₃, processPrepareWith terminate s fileName slot = .ok (.ok proc, s₁) ∧
      taskNew s₁ proc = .ok (t, s₂) ∧ t ≠ 0 ∧
      processMapMemory (s₂.setProc proc { s₂.procs proc with task := t }) proc = .ok (result, s₃) ∧
      s' = { s₃ with processes := fun i => if i = slot then proc else s₃.processes i } := by
  obtain ⟨⟨out, s₁⟩, hprep, h⟩ := bind_ok.1 h
  cases out with
  | error code =>
      cases h
      exact absurd hresult (Int.not_le.2 (processPrepareWith_error hprep))
  | ok p =>
      obtain ⟨⟨t, s₂⟩, hnew, h⟩ := bind_ok.1 h
      simp only at h
      split at h
      · obtain ⟨_, -, h⟩ := bind_ok.1 h
        cases h
        exact absurd hresult (by decide)
      · obtain ⟨⟨code, s₃⟩, hmap, h⟩ := bind_ok.1 h
        simp only at h
        split at h
        · cases h
          omega
        · cases h
          exact ⟨s₁, t, s₂, s₃, hprep, hnew, ‹_›, hmap, rfl⟩

/-- 成功した読み込みの後の状態。タスクのページディレクトリは、`paging_new` の作ったものに割り付けを行ったものである。 -/
theorem processLoadSlotWith_state (h : processLoadSlotWith terminate s fileName slot = .ok (result, proc, s'))
    (hresult : 0 ≤ result) :
    ∃ s₁ t dir heap₁ words words₁, processPrepareWith terminate s fileName slot = .ok (.ok proc, s₁) ∧ t ≠ 0 ∧
      kzalloc s₁.heap TASK_SIZE = (t, heap₁) ∧
      pagingNew heap₁ s₁.words ((PAGING_IS_PRESENT ||| PAGING_ACCESS_FROM_ALL).setWidth 8) = .ok (dir, s'.heap, words) ∧
      s'.mem = s₁.mem ∧ s'.elfFiles = s₁.elfFiles ∧ s'.procs proc = { s₁.procs proc with task := t } ∧
      (s'.tasks t).pageDir = dir ∧
      processMapImage { s₁ with words := words } (s'.procs proc) dir = .ok (result, words₁) ∧
      s'.words = processMapStack words₁ dir (s'.procs proc).stack := by
  obtain ⟨s₁, t, s₂, s₃, hprep, hnew, ht, hmap, rfl⟩ := processLoadSlotWith_ok h hresult
  obtain ⟨dir, heap₁, heap₂, words, hk, hpaging, happend⟩ := taskNew_ok hnew ht
  obtain ⟨⟨tasks, current, head, tail, rfl⟩, hpd⟩ := taskAppend_frame happend
  have hdir : (tasks t).pageDir = dir := by
    have hrec := hpd t
    rwa [Kernel.setTask_same] at hrec
  obtain ⟨dir', hdir', hmap⟩ := bind_ok.1 hmap
  obtain ⟨⟨code, words₁⟩, himage, hmap⟩ := bind_ok.1 hmap
  obtain rfl : dir' = dir := by
    simp only [processPageDir, Kernel.setProc, if_true] at hdir'
    rw [if_neg ht] at hdir'
    cases hdir'
    exact hdir
  simp only at hmap
  split at hmap
  · cases hmap
    omega
  · cases hmap
    refine ⟨s₁, t, dir', heap₁, words, words₁, hprep, ht, hk, hpaging, rfl, rfl, ?_, hdir, himage, rfl⟩
    simp [Kernel.setProc, Kernel.setTask]

end

end EnkiOs
