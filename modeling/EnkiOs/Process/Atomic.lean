import EnkiOs.Process.Registry

/-!
# 失敗した読み込み

`process_load_slot` が失敗したとき、プロセスの表とタスクの並びがどうなるか。
-/

namespace EnkiOs
open Machine

/-- 読み込みの失敗で変わってはならない、プロセスの表とタスクの並び。 -/
structure SameTables (s s' : Kernel) : Prop where
  processes : ∀ i, 0 ≤ i → i < ENKI_MAX_PROCESSES → s'.processes i = s.processes i
  processCurrent : s'.processCurrent = s.processCurrent
  taskHead : s'.taskHead = s.taskHead
  taskTail : s'.taskTail = s.taskTail
  taskCurrent : s'.taskCurrent = s.taskCurrent
  links : ∀ a, (s'.tasks a).next = (s.tasks a).next ∧ (s'.tasks a).prev = (s.tasks a).prev

theorem SameTables.refl (s : Kernel) : SameTables s s := ⟨fun _ _ _ => rfl, rfl, rfl, rfl, rfl, fun _ => ⟨rfl, rfl⟩⟩

/-- 読み込みが失敗する。負の結果を返すか、後始末で空のポインタを通す。 -/
def LoadFails (depth : Nat) (s : Kernel) (fileName : List Byte) (slot : Int) : Prop :=
  match processLoadSlot depth s fileName slot with
  | .ok (result, _) => result < 0
  | .error fault => fault = .nullDeref

/-- 読み込みが、表と並びを変えずに返る。 -/
def KeepsTables (depth : Nat) (s : Kernel) (fileName : List Byte) (slot : Int) : Prop :=
  ∃ result proc s', processLoadSlot depth s fileName slot = .ok (result, proc, s') ∧ SameTables s s'

variable {depth : Nat} {s s' : Kernel} {fileName : List Byte} {slot result : Int} {proc : Word}

theorem processLoadSlot_taken (hslot : processGet s slot ≠ 0) :
    processLoadSlot depth s fileName slot = .ok (-EISTKN, 0, s) := by
  have hprep : processPrepareWith (processTerminate depth) s fileName slot = .ok (.error (-EISTKN), s) := by
    simp only [processPrepareWith]
    rw [if_pos hslot]
    rfl
  exact bind_ok.2 ⟨_, hprep, rfl⟩

theorem processLoadSlot_noRecord (hslot : processGet s slot = 0) (hproc : (kzalloc s.heap PROCESS_SIZE).1 = 0) :
    processLoadSlot depth s fileName slot = .ok (-ENOMEM, 0, s.setHeap (kzalloc s.heap PROCESS_SIZE).2) := by
  have hprep : processPrepareWith (processTerminate depth) s fileName slot =
      .ok (.error (-ENOMEM), s.setHeap (kzalloc s.heap PROCESS_SIZE).2) := by
    simp only [processPrepareWith]
    rw [if_neg (by simp [hslot]), if_pos hproc]
    rfl
  exact bind_ok.2 ⟨_, hprep, rfl⟩

/-- 記録が割り当てられた後の負の結果は、割り付けの失敗によるものである。 -/
theorem processLoadSlot_refused (hslot : processGet s slot = 0) (hproc : (kzalloc s.heap PROCESS_SIZE).1 ≠ 0)
    (h : processLoadSlot depth s fileName slot = .ok (result, proc, s')) (hneg : result < 0) :
    ∃ p s₁ t s₂, processPrepareWith (processTerminate depth) s fileName slot = .ok (.ok p, s₁) ∧
      taskNew s₁ p = .ok (t, s₂) ∧ t ≠ 0 ∧
      processMapMemory (s₂.setProc p { s₂.procs p with task := t }) p = .ok (result, s') := by
  obtain ⟨⟨out, s₁⟩, hprep, h⟩ := bind_ok.1 h
  obtain ⟨rfl, htask⟩ := processPrepare_ok hslot hproc hprep
  generalize (kzalloc s.heap PROCESS_SIZE).1 = p at *
  obtain ⟨⟨t, s₂⟩, hnew, h⟩ := bind_ok.1 h
  simp only at h
  split at h
  · -- タスクが作れなければ、後始末は値を返さない。
    rename_i ht
    subst ht
    rw [taskNew_null hnew] at h
    obtain ⟨_, hterm, -⟩ := bind_ok.1 h
    exact absurd hterm (processTerminate_null_ne_ok (s := s₁.setHeap (kzalloc s₁.heap TASK_SIZE).2) htask _)
  · rename_i ht
    obtain ⟨⟨code, s₃⟩, hmap, h⟩ := bind_ok.1 h
    simp only at h
    split at h
    · cases h
      exact ⟨p, s₁, t, s₂, hprep, hnew, ht, hmap⟩
    · cases h
      omega

/-- 末尾につないだタスクは、新しい先頭になるか、自分が末尾であったなら自分自身へつながる。 -/
theorem taskAppend_links {t : Word} (h : taskAppend s t = .ok s') :
    (s.taskHead = 0 ∧ s'.taskHead = t) ∨
      s.taskHead ≠ 0 ∧ (s.taskTail = t → (s'.tasks t).next = t ∧ (s'.tasks t).prev = t) := by
  simp only [taskAppend] at h
  split at h
  · rename_i hh
    cases h
    exact .inl ⟨hh, rfl⟩
  · rename_i hh
    split at h
    · cases h
    · cases h
      refine .inr ⟨hh, ?_⟩
      rintro rfl
      simp [Kernel.setTask]

/-- 読み込みの作るタスクの記録が、すでに自分自身へつながっている末尾の記録と、同じところに取られる。 -/
structure LandsOnTail (depth : Nat) (s : Kernel) (fileName : List Byte) (slot : Int) : Prop where
  head_ne : s.taskHead ≠ 0
  next_eq : (s.tasks s.taskTail).next = s.taskTail
  prev_eq : (s.tasks s.taskTail).prev = s.taskTail
  record_eq : ∃ p s₁, processPrepareWith (processTerminate depth) s fileName slot = .ok (.ok p, s₁) ∧
    (kzalloc s₁.heap TASK_SIZE).1 = s.taskTail

/-- 負の結果を返した読み込みは、新しいタスクを並びの末尾に残す。表と並びが同じに見えるのは、その記録が自分自身へつながった
末尾に重なったときだけである。 -/
theorem processLoadSlot_negative (hslot : processGet s slot = 0) (hproc : (kzalloc s.heap PROCESS_SIZE).1 ≠ 0)
    (h : processLoadSlot depth s fileName slot = .ok (result, proc, s')) (hneg : result < 0) (hsame : SameTables s s') :
    LandsOnTail depth s fileName slot := by
  obtain ⟨p, s₁, t, s₂, hprep, hnew, ht, hmap⟩ := processLoadSlot_refused hslot hproc h hneg
  obtain ⟨fs, files, q, rfl, -⟩ := processPrepareWith_frame hprep
  obtain ⟨words, rfl⟩ := processMapMemory_frame hmap
  obtain ⟨_, _, _, _, hk, -, happend⟩ := taskNew_ok hnew ht
  have htail := taskAppend_tail happend
  have heq : s.taskTail = t := hsame.taskTail.symm.trans htail
  have hrecord : (kzalloc fs.heap TASK_SIZE).1 = s.taskTail := (congrArg Prod.fst hk).trans heq.symm
  rcases taskAppend_links happend with ⟨hempty, hhead⟩ | ⟨hhead, hlinks⟩
  · exact absurd (hhead.symm.trans (hsame.taskHead.trans hempty)) ht
  · obtain ⟨hnext, hprev⟩ := hlinks heq
    have hold := hsame.links t
    rw [← heq] at hold hnext hprev
    exact ⟨hhead, hold.1.symm.trans hnext, hold.2.symm.trans hprev, p, _, hprep, hrecord⟩

/-- 失敗した読み込みが表と並びを変えずに返るのは、番号がすでに使われているか、プロセスの記録が割り当てられなかったとき、
そのときに限る。記録ができた後の失敗では、後始末が空のタスクを参照するか、つないだタスクが残る。 -/
theorem keepsTables_iff (hfail : LoadFails depth s fileName slot)
    (hfresh : ¬LandsOnTail depth s fileName slot) :
    KeepsTables depth s fileName slot ↔
      processGet s slot ≠ 0 ∨ (kzalloc s.heap PROCESS_SIZE).1 = 0 := by
  constructor
  · rintro ⟨result, proc, s', h, hsame⟩
    by_contra hcond
    rw [not_or, not_not] at hcond
    have hneg : result < 0 := by
      simp only [LoadFails, h] at hfail
      exact hfail
    exact hfresh (processLoadSlot_negative hcond.1 hcond.2 h hneg hsame)
  · intro hcond
    by_cases hslot : processGet s slot = 0
    · have hproc := hcond.resolve_left (not_not.2 hslot)
      exact ⟨_, _, _, processLoadSlot_noRecord hslot hproc, ⟨fun _ _ _ => rfl, rfl, rfl, rfl, rfl, fun _ => ⟨rfl, rfl⟩⟩⟩
    · exact ⟨_, _, _, processLoadSlot_taken hslot, .refl s⟩

/-- どの番号も使われているカーネル。 -/
def fullKernel : Kernel := { Kernel.boot bareState with processes := fun _ => 1 }

/-- 使われている番号への読み込みは、何も変えずに失敗する。 -/
theorem keepsTables_taken : LoadFails 1 fullKernel imageName 0 ∧ KeepsTables 1 fullKernel imageName 0 := by
  have hslot : processGet fullKernel 0 ≠ 0 := by decide
  have hload : processLoadSlot 1 fullKernel imageName 0 = .ok (-EISTKN, 0, fullKernel) := processLoadSlot_taken hslot
  have hfail : LoadFails 1 fullKernel imageName 0 := by
    simp only [LoadFails, hload]
    decide
  refine ⟨hfail, (keepsTables_iff hfail ?_).2 (.inl hslot)⟩
  intro hlands
  exact absurd rfl hlands.head_ne

/-- `p_memsz` が `0xFFFFF000` のヘッダは割り付けられず、読み込みは失敗するが、新しいタスクが並びに残る。 -/
theorem keepsTables_fails_mapping : ∃ (v : Volume) (s' : Kernel), v.disk = imageDisk (elfImage 0xFFFFF000 0) ∧
    processLoadSlot 1 (Kernel.boot (stateWith v 0)) imageName 0 = .ok (-EINVARG, 0, s') ∧
    (Kernel.boot (stateWith v 0)).taskTail = 0 ∧ s'.taskTail = blockAddr 16 ∧
    ¬ SameTables (Kernel.boot (stateWith v 0)) s' := by
  obtain ⟨v, hv⟩ : ∃ v : Volume, v.disk = imageDisk (elfImage 0xFFFFF000 0) := smallDisk_resolved (imageDisk_root _)
  obtain ⟨file, haccept⟩ : ∃ file, elfProcessLoaded (bootImage (elfImage 0xFFFFF000 0)) { elfMemory := blockAddr 11 } =
      (0, file) := ⟨_, rfl⟩
  have hmemory : file.elfMemory = blockAddr 11 := by
    have h := elfProcessLoaded_memory (bootImage (elfImage 0xFFFFF000 0)) { elfMemory := blockAddr 11 }
    rwa [haccept] at h
  have hmap : ∀ words dir, (processMapElf (bootImage (elfImage 0xFFFFF000 0)) words dir file).1 = -EINVARG := by
    intro words dir
    have hphnum : (ElfHeader.at (bootImage (elfImage 0xFFFFF000 0)) (blockAddr 11)).ePhnum.toNat = 1 := rfl
    rw [processMapElf, hmemory, hphnum, processMapElfLoop, processMapPhdr_eq, hmemory, if_pos]
    · rfl
    · rw [phdrEnd, phdrBase, hmemory]
      decide
  obtain ⟨s', -, -, -, htail, hload⟩ := boot_load hv rfl haccept 1 hmap
  rw [if_pos (by decide)] at hload
  refine ⟨v, s', hv, hload, rfl, htail, ?_⟩
  intro hsame
  exact absurd (htail.symm.trans hsame.taskTail) (blockAddr_ne_zero (by decide))

end EnkiOs
