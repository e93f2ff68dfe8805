import EnkiOs.Task.Context
import EnkiOs.Task.Theorems

/-!
# 割り込まれたプログラムの文脈

割り込みで保存した文脈は、ほかのタスクがどのように動いても記録に残る。`task_return` はその記録を読むが、`flags` だけは
読まない。
-/

namespace EnkiOs
open Machine

variable {s s' : Kernel} {task t process : Word} {live live' : List Word}

/-! ## ほかのタスクの実行 -/

/-- `task` を解放しない呼び出しと、ほかのタスクが動いている間の割り込み。 -/
inductive OtherStep (task : Word) : TaskState → TaskState → Prop
  | call {b b' op} (h : TaskStep b op b') (hkeep : op ≠ .free task) : OtherStep task b b'
  | save {s s' live frame} (hother : s.taskCurrent ≠ task) (h : taskCurrentSaveState s frame = .ok s') :
      OtherStep task ⟨s, live⟩ ⟨s', live⟩

def OthersRun (task : Word) : TaskState → TaskState → Prop := Relation.ReflTransGen (OtherStep task)

theorem setTask_registers {x : Word} {record : Task} (h : record.registers = (s.tasks t).registers) :
    ((s.setTask t record).tasks x).registers = (s.tasks x).registers := by
  by_cases hx : x = t
  · rw [hx, Kernel.setTask_same, h]
  · rw [Kernel.setTask_other _ _ _ hx]

theorem taskAppend_registers (h : taskAppend s t = .ok s') (x : Word) :
    (s'.tasks x).registers = (s.tasks x).registers := by
  simp only [taskAppend] at h
  split at h
  · cases h
    rfl
  · split at h
    · cases h
    · cases h
      simp only
      rw [setTask_registers, setTask_registers]
      · rfl
      · rfl

theorem taskUnlinkPrev_registers (s : Kernel) (t x : Word) :
    ((taskUnlinkPrev s t).tasks x).registers = (s.tasks x).registers := by
  simp only [taskUnlinkPrev]
  split
  · rfl
  · exact setTask_registers rfl

theorem taskFree_registers {result : Int} (h : taskFree s t = .ok (result, s')) (x : Word) :
    (s'.tasks x).registers = (s.tasks x).registers := by
  obtain ⟨heap, heap', s₁, hremove, rfl⟩ := taskFree_ok h
  rw [Kernel.setHeap_tasks, (taskListRemove_ok hremove).1]
  exact taskUnlinkPrev_registers _ t x

theorem taskNew_registers (h : taskNew s process = .ok (t, s')) (ht : t ≠ 0) {x : Word} (hx : x ≠ t) :
    (s'.tasks x).registers = (s.tasks x).registers := by
  obtain ⟨pageDir, heap₁, heap, words, -, -, happend⟩ := taskNew_ok h ht
  rw [taskAppend_registers happend x, Kernel.setTask_other _ _ _ hx]

/-- 一歩は、生きている `task` の記録を保つ。 -/
theorem OtherStep.registers {b b' : TaskState} (h : OtherStep task b b') (hm : task ∈ b.live) :
    task ∈ b'.live ∧ (b'.kernel.tasks task).registers = (b.kernel.tasks task).registers := by
  cases h with
  | call hstep hkeep =>
      cases hstep with
      | new hnew hne hfresh =>
          refine ⟨List.mem_append_left _ hm, taskNew_registers hnew hne ?_⟩
          rintro rfl
          exact hfresh hm
      | switch hmem => exact ⟨hm, rfl⟩
      | free hmem hfree =>
          refine ⟨?_, taskFree_registers hfree task⟩
          refine (List.mem_erase_of_ne ?_).2 hm
          rintro rfl
          exact hkeep rfl
      | reuse hdead =>
          refine ⟨hm, ?_⟩
          rw [Kernel.setTask_other]
          rintro rfl
          exact hdead hm
  | save hother hsave =>
      obtain ⟨-, rfl⟩ := taskCurrentSaveState_ok hsave
      refine ⟨hm, ?_⟩
      simp only [taskSaveState]
      rw [Kernel.setTask_other _ _ _ hother.symm]

theorem OthersRun.registers {b b' : TaskState} (h : OthersRun task b b') (hm : task ∈ b.live) :
    task ∈ b'.live ∧ (b'.kernel.tasks task).registers = (b.kernel.tasks task).registers := by
  induction h with
  | refl => exact ⟨hm, rfl⟩
  | tail _ hstep ih =>
      obtain ⟨hlive, hregs⟩ := hstep.registers ih.1
      exact ⟨hlive, hregs.trans ih.2⟩

/-! ## 復帰 -/

/-- `CF`、`PF`、`AF`、`ZF`、`SF`、`DF`、`OF` -/
abbrev STATUS_FLAGS : Word := 0xCD5

abbrev INTERRUPT_FLAG : Word := 0x200

/-- 戻った後の文脈 `c` が、割り込まれたときの文脈 `user` と一致し、割り込みが許されている。 -/
structure Transparent (user c : Cpu) : Prop where
  edi : c.edi = user.edi
  esi : c.esi = user.esi
  ebp : c.ebp = user.ebp
  ebx : c.ebx = user.ebx
  edx : c.edx = user.edx
  ecx : c.ecx = user.ecx
  eax : c.eax = user.eax
  ip : c.eip = user.eip
  cs : c.cs = user.cs
  esp : c.esp = user.esp
  ss : c.ss = user.ss
  flags : c.eflags &&& STATUS_FLAGS = user.eflags &&& STATUS_FLAGS
  enabled : c.eflags &&& INTERRUPT_FLAG = INTERRUPT_FLAG

/-- `task_return(&task->registers)` を呼んだところの CPU。タスクはカーネルのヒープにあり、カーネルのスタックはその下にある。 -/
structure Resumes (c : Cpu) (s : Kernel) (task : Word) : Prop where
  kernelMode : privilege c.cs = 0
  room : 32 ≤ c.esp.toNat
  onStack : c.esp.toNat ≤ KERNEL_STACK.toNat
  inHeap : ENKI_HEAP_ADDRESS.toNat ≤ task.toNat
  fits : task.toNat + TASK_SIZE ≤ ENKI_HEAP_ADDRESS.toNat + ENKI_HEAP_SIZE_BYTES.toNat
  arg : c.mem.word (c.esp + 4) = taskRegisters task
  registers : c.mem.Holds (taskRegisters task) (s.tasks task).registers.words

theorem Resumes.returning {c : Cpu} (h : Resumes c s task) :
    Returning (taskRegisters task) (s.tasks task).registers c [c.mem.word c.esp, taskRegisters task] 8 := by
  have hroom := h.room
  have hstack := h.onStack
  have hheap := h.inHeap
  have hfits := h.fits
  have hregs : (taskRegisters task).toNat = task.toNat + 4 := by
    rw [taskRegisters]
    simp at hheap hfits
    bv_omega
  refine ⟨⟨rfl, h.arg, trivial⟩, by simp, h.registers, ?_, ?_, ?_⟩
  · omega
  · rw [hregs]
    simp at hstack hheap ⊢
    omega
  · rw [hregs]
    simp at hfits
    omega

theorem status_pushed (flags : Word) : (flags &&& 0x00FCFFFF ||| 0x200) &&& STATUS_FLAGS = flags &&& STATUS_FLAGS := by
  rw [BitVec.and_or_distrib_right, BitVec.and_assoc]
  exact BitVec.or_zero

theorem enabled_pushed (flags : Word) :
    (flags &&& 0x00FCFFFF ||| 0x200) &&& INTERRUPT_FLAG = INTERRUPT_FLAG := by
  apply BitVec.eq_of_getElem_eq
  intro i hi
  rw [BitVec.getElem_and, BitVec.getElem_or]
  cases INTERRUPT_FLAG[i] with
  | false => exact Bool.and_false _
  | true => rw [Bool.or_true, Bool.and_true]

/-- 割り込まれた文脈は、`task_return` を呼ぶときのカーネルのフラグが、割り込まれたときのフラグと、演算と向きのビットで
一致するとき、そのときに限り、元のとおりに戻る。 -/
theorem transparent_iff_flags {user c : Cpu} {entry : Word} {s₁ s₂ : Kernel} (alu : Alu) (next : Word)
    (huser : privilege user.cs = 3) (hcur : s.taskCurrent = task) (hlive : task ∈ live)
    (hsave : taskCurrentSaveState s (capturedFrame user entry) = .ok s₁)
    (hrun : OthersRun task ⟨s₁, live⟩ ⟨s₂, live'⟩) (hresume : Resumes c s₂ task) :
    ∃ c', taskReturn alu next c = some c' ∧
      (Transparent user c' ↔ c.eflags &&& STATUS_FLAGS = user.eflags &&& STATUS_FLAGS) := by
  obtain ⟨-, rfl⟩ := taskCurrentSaveState_ok hsave
  have hregs : (s₂.tasks task).registers = _ := (hrun.registers hlive).2
  have hret := hresume.returning
  simp only [hcur, taskSaveState, Kernel.setTask_same, capturedFrame_eq] at hregs
  rw [hregs] at hret
  obtain ⟨c', hc', hgpr, hip, hcs, hflags, hesp, hss⟩ := taskReturn_spec alu next hret (by
    simp [userFrame, huser, hresume.kernelMode])
  refine ⟨c', hc', ?_⟩
  constructor
  · intro h
    rw [← h.flags, hflags, status_pushed]
  · intro h
    refine ⟨hgpr.edi, hgpr.esi, hgpr.ebp, hgpr.ebx, hgpr.edx, hgpr.ecx, hgpr.eax, hip, ?_, hesp, ?_, ?_, ?_⟩
    · rw [hcs]
      simp [userFrame]
    · rw [hss]
      simp [userFrame]
    · rw [hflags, status_pushed]
      exact h
    · rw [hflags]
      exact enabled_pushed c.eflags

/-! ## 二つのタスクの切り替え -/

/-- `CF` の立ったところで割り込まれたプログラム。 -/
def carryUser : Cpu where
  eax := 5
  ecx := 0
  edx := 0
  ebx := 0
  esp := ENKI_PGM_VIRT_STACK_ADDR_START
  ebp := 0
  esi := 0
  edi := 0
  eip := ENKI_PGM_VIRT_ADDR
  eflags := 0x203
  cs := USER_CODE_SEG.setWidth 16
  ss := USER_DATA_SEG.setWidth 16
  ds := USER_DATA_SEG.setWidth 16
  es := USER_DATA_SEG.setWidth 16
  fs := USER_DATA_SEG.setWidth 16
  gs := USER_DATA_SEG.setWidth 16
  mem := fun _ => 0

/-- 引数を積んで `task_return` を呼んだ CPU。 -/
def callingCpu (task : Word) (r : Registers) (flags : Word) : Cpu where
  eax := 0
  ecx := 0
  edx := 0
  ebx := 0
  esp := 0x5FFF00
  ebp := 0
  esi := 0
  edi := 0
  eip := 0
  eflags := flags
  cs := KERNEL_CODE_SEG
  ss := KERNEL_DATA_SEG
  ds := KERNEL_DATA_SEG
  es := KERNEL_DATA_SEG
  fs := KERNEL_DATA_SEG
  gs := KERNEL_DATA_SEG
  mem := (Memory.setWords (fun _ => 0) (taskRegisters task) r.words).setWord 0x5FFF04 (taskRegisters task)

theorem callingCpu_resumes (s : Kernel) (flags : Word) :
    Resumes (callingCpu (blockAddr 0) (s.tasks (blockAddr 0)).registers flags) s (blockAddr 0) := by
  have hesp : (callingCpu (blockAddr 0) (s.tasks (blockAddr 0)).registers flags).esp = 0x5FFF00 := rfl
  have hcs : (callingCpu (blockAddr 0) (s.tasks (blockAddr 0)).registers flags).cs = KERNEL_CODE_SEG := rfl
  refine ⟨by rw [hcs]; decide, by rw [hesp]; decide, by rw [hesp]; decide, by decide, by decide, Memory.setWord_word _ _ _, ?_⟩
  refine (Memory.holds_setWords _ _ _ (by simp [Registers.words])).setWord _ ?_ ?_
  · decide
  · simp only [Registers.words, List.length_cons, List.length_nil]
    decide

/-- 後の方のタスクに切り替わり、割り込まれて、前の方のタスクに戻る。 -/
theorem othersRun_one (s : Kernel) : ∃ s', OthersRun (blockAddr 0) ⟨s, [blockAddr 0, blockAddr 1027]⟩
    ⟨s', [blockAddr 0, blockAddr 1027]⟩ := by
  have h1 : blockAddr 1027 ≠ 0 := blockAddr_ne_zero (by decide)
  have hne : blockAddr 1027 ≠ blockAddr 0 := by
    intro he
    have := blockAddr_inj (by decide) (by decide) he
    omega
  have hother : OtherStep (blockAddr 0) ⟨s, [blockAddr 0, blockAddr 1027]⟩ _ :=
    .call (.switch (show blockAddr 1027 ∈ [blockAddr 0, blockAddr 1027] by simp)) (by simp)
  have hsaved : OtherStep (blockAddr 0) ⟨(taskSwitch s (blockAddr 1027)).2, [blockAddr 0, blockAddr 1027]⟩ _ :=
    .save hne (taskCurrentSaveState_eq (capturedFrame carryUser 0) h1)
  have hback : OtherStep (blockAddr 0) ⟨taskSaveState (taskSwitch s (blockAddr 1027)).2 (blockAddr 1027)
      (capturedFrame carryUser 0), [blockAddr 0, blockAddr 1027]⟩ _ :=
    .call (.switch (show blockAddr 0 ∈ [blockAddr 0, blockAddr 1027] by simp)) (by simp)
  exact ⟨_, ((Relation.ReflTransGen.single hother).tail hsaved).tail hback⟩

/-- 起動の直後に作った二つのタスクの、前の方が割り込まれる。 -/
theorem boot_preempted : ∃ s s₁ s₂, SafeTaskRun ⟨Kernel.boot bareState, []⟩ ⟨s, [blockAddr 0, blockAddr 1027]⟩ ∧
    s.taskCurrent = blockAddr 0 ∧ taskCurrentSaveState s (capturedFrame carryUser 0) = .ok s₁ ∧
    OthersRun (blockAddr 0) ⟨s₁, [blockAddr 0, blockAddr 1027]⟩ ⟨s₂, [blockAddr 0, blockAddr 1027]⟩ := by
  obtain ⟨s₀, s, hstep₁, hstep₂⟩ := boot_two_tasks
  have hsafe : SafeTaskRun ⟨Kernel.boot bareState, []⟩ ⟨(taskSwitch s (blockAddr 0)).2, [blockAddr 0, blockAddr 1027]⟩ :=
    ((Relation.ReflTransGen.single ⟨_, hstep₁, trivial⟩).tail ⟨_, hstep₂, trivial⟩).tail
      ⟨.switch (blockAddr 0), .switch (by simp), trivial⟩
  have hsave := taskCurrentSaveState_eq (s := (taskSwitch s (blockAddr 0)).2) (capturedFrame carryUser 0)
    (blockAddr_ne_zero (show 0 ≤ 25600 by decide))
  obtain ⟨s₂, hrun⟩ := othersRun_one (taskSaveState (taskSwitch s (blockAddr 0)).2 (blockAddr 0) (capturedFrame carryUser 0))
  exact ⟨_, _, s₂, hsafe, rfl, hsave, hrun⟩

/-- カーネルのフラグに `CF` が残っていれば、元のとおりに戻る。 -/
theorem transparent_iff_flags_carry : ∃ s s₁ s₂, SafeTaskRun ⟨Kernel.boot bareState, []⟩ ⟨s, [blockAddr 0, blockAddr 1027]⟩ ∧
    taskCurrentSaveState s (capturedFrame carryUser 0) = .ok s₁ ∧
    OthersRun (blockAddr 0) ⟨s₁, [blockAddr 0, blockAddr 1027]⟩ ⟨s₂, [blockAddr 0, blockAddr 1027]⟩ ∧
    ∃ c', taskReturn ⟨fun f _ _ => f, fun f _ _ => f⟩ 0x100000
      (callingCpu (blockAddr 0) (s₂.tasks (blockAddr 0)).registers 0x3) = some c' ∧ Transparent carryUser c' := by
  obtain ⟨s, s₁, s₂, hboot, hcur, hsave, hrun⟩ := boot_preempted
  obtain ⟨c', hc', hiff⟩ := transparent_iff_flags (c := callingCpu (blockAddr 0) (s₂.tasks (blockAddr 0)).registers 0x3)
    ⟨fun f _ _ => f, fun f _ _ => f⟩ 0x100000 (by decide) hcur (by simp) hsave hrun (callingCpu_resumes s₂ 0x3)
  exact ⟨s, s₁, s₂, hboot, hsave, hrun, c', hc',
    hiff.2 (show (0x3 : Word) &&& STATUS_FLAGS = 0x203 &&& STATUS_FLAGS by decide)⟩

/-- `CF` は、カーネルのフラグに無ければ失われる。 -/
theorem transparent_fails_carry : ∃ s s₁ s₂, SafeTaskRun ⟨Kernel.boot bareState, []⟩ ⟨s, [blockAddr 0, blockAddr 1027]⟩ ∧
    taskCurrentSaveState s (capturedFrame carryUser 0) = .ok s₁ ∧
    OthersRun (blockAddr 0) ⟨s₁, [blockAddr 0, blockAddr 1027]⟩ ⟨s₂, [blockAddr 0, blockAddr 1027]⟩ ∧
    Resumes (callingCpu (blockAddr 0) (s₂.tasks (blockAddr 0)).registers 0x2) s₂ (blockAddr 0) ∧
    ∃ c', taskReturn ⟨fun f _ _ => f, fun f _ _ => f⟩ 0x100000
      (callingCpu (blockAddr 0) (s₂.tasks (blockAddr 0)).registers 0x2) = some c' ∧ c'.eflags = 0x202 ∧
      ¬Transparent carryUser c' := by
  obtain ⟨s, s₁, s₂, hboot, hcur, hsave, hrun⟩ := boot_preempted
  have hresume := callingCpu_resumes s₂ 0x2
  have hcs : (s₂.tasks (blockAddr 0)).registers.cs = USER_CODE_SEG := by
    obtain ⟨-, rfl⟩ := taskCurrentSaveState_ok hsave
    have hregs : (s₂.tasks (blockAddr 0)).registers = _ := (hrun.registers (by simp)).2
    simp only [hcur, taskSaveState, Kernel.setTask_same, capturedFrame_eq] at hregs
    rw [hregs]
    rfl
  obtain ⟨c', hc', -, -, -, hflags, -⟩ := taskReturn_spec ⟨fun f _ _ => f, fun f _ _ => f⟩ 0x100000 hresume.returning
    (by rw [hcs, hresume.kernelMode]; decide)
  have hset : c'.eflags = 0x202 := by
    rw [hflags]
    exact show (0x2 : Word) &&& 0x00FCFFFF ||| 0x200 = 0x202 by decide
  refine ⟨s, s₁, s₂, hboot, hsave, hrun, hresume, c', hc', hset, ?_⟩
  intro h
  have hbits := h.flags
  rw [hset] at hbits
  revert hbits
  decide

end EnkiOs
