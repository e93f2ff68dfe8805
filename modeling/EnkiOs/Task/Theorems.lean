import EnkiOs.Task.Run
import EnkiOs.Paging.Packed

/-!
# タスクの並び
-/

namespace EnkiOs
open Machine

/-- 空の並びから始める。解放がどれも末尾で先頭ではないタスクに対するもので、`task_current` に残った記録が書き換わらなければ、
並びはいつも生きているタスクの作った順の並びであり、次に動かすタスクも生きている。そのような状態からの解放が並びを保つのは、
末尾で先頭ではないタスクを解放するとき、そのときに限る。 -/
theorem taskRun_ok {s : Kernel} (hhead : s.taskHead = 0) (htail : s.taskTail = 0) :
    (∀ b, SafeTaskRun ⟨s, []⟩ b → TasksOk b.kernel b.live) ∧
    ∀ (s₁ s₂ : Kernel) (live : List Word) (t : Word) (result : Int), SafeTaskRun ⟨s, []⟩ ⟨s₁, live⟩ → t ∈ live →
      taskFree s₁ t = .ok (result, s₂) →
      (TasksOk s₂ (live.erase t) ↔ t = s₁.taskTail ∧ t ≠ s₁.taskHead) := by
  have h0 := TaskInv.empty hhead htail
  constructor
  · intro b hr
    exact (hr.inv h0).ok
  · intro s₁ s₂ live t result hr hm hfree
    have hi : TaskInv s₁ live := hr.inv h0
    constructor
    · intro hok
      by_contra hcond
      exact hi.ok.not_free hm hcond hfree hok.list
    · intro hcond
      exact (hi.freeTail hm hcond.1 hcond.2 hfree).ok

/-! ## 起動の直後からの実行 -/

/-- ファイルシステムの無いディスクで起動した直後の状態。 -/
def bareState : FileState where
  heap := bootHeap
  mem := fun _ => 0
  disk := ⟨ENKI_SECTOR_SIZE, fun _ _ => 0, rfl⟩
  priv := none
  fatFiles := fun _ => ⟨⟨0, .file none⟩, 0⟩
  files := fun _ => ⟨0, 0⟩
  fileDescriptors := fun _ => 0

/-- 詰まったヒープでは、新しいタスクが番号 `b` のブロックにできる。 -/
theorem taskNew_packed {s : Kernel} {b : Nat} (process : Word) (hp : Packed s.heap b) (hfit : b + 1027 ≤ 25600)
    (htail : s.taskTail = 0 → s.taskHead = 0) :
    ∃ s', taskNew s process = .ok (blockAddr b, s') ∧ Packed s'.heap (b + 1027) := by
  obtain ⟨h₁, hk, hne, hp₁⟩ := hp.small (show 0 < TASK_SIZE by decide) (by decide) (by omega)
  obtain ⟨heap, words, hnew, hp₂⟩ := pagingNew_packed s.words
    ((PAGING_IS_PRESENT ||| PAGING_ACCESS_FROM_ALL).setWidth 8) hp₁ (by omega)
  have hinit : taskInit (s.setHeap h₁) (blockAddr b) process = _ :=
    taskInit_eq hnew (blockAddr_ne_zero (by omega))
  obtain ⟨s₂, hs₂⟩ : ∃ s₂, s₂ = { s with heap := heap, words := words }.setTask (blockAddr b)
    (taskRecord (s.setHeap h₁) process (blockAddr (b + 1 + 1025))) := ⟨_, rfl⟩
  obtain ⟨s₃, happend, hheap⟩ : ∃ s₃, taskAppend s₂ (blockAddr b) = .ok s₃ ∧ s₃.heap = heap := by
    by_cases hh : s₂.taskHead = 0
    · refine ⟨_, taskAppend_empty hh, ?_⟩
      rw [hs₂]
      rfl
    · have ht : s₂.taskTail ≠ 0 := by
        intro h0
        rw [hs₂] at hh h0
        exact hh (htail h0)
      simp only [taskAppend]
      rw [if_neg hh, if_neg ht]
      refine ⟨_, rfl, ?_⟩
      rw [hs₂]
      rfl
  refine ⟨s₃, ?_, ?_⟩
  · simp only [taskNew, hk]
    rw [if_neg hne]
    refine bind_ok.2 ⟨_, hinit, ?_⟩
    simp only
    rw [if_neg (by decide)]
    exact bind_ok.2 ⟨_, hs₂ ▸ happend, rfl⟩
  · rw [hheap]
    exact hp₂

/-- 起動の直後に、タスクを二つ作る。 -/
theorem boot_two_tasks : ∃ s₁ s₂, TaskStep ⟨Kernel.boot bareState, []⟩ (.new 0) ⟨s₁, [blockAddr 0]⟩ ∧
    TaskStep ⟨s₁, [blockAddr 0]⟩ (.new 0) ⟨s₂, [blockAddr 0, blockAddr 1027]⟩ := by
  obtain ⟨s₁, h₁, hp₁⟩ := taskNew_packed (s := Kernel.boot bareState) 0 bootHeap_packed (by decide) (fun _ => rfl)
  have hstep₁ : TaskStep ⟨Kernel.boot bareState, []⟩ (.new 0) ⟨s₁, [blockAddr 0]⟩ :=
    .new h₁ (blockAddr_ne_zero (by decide)) (by simp)
  have hlist := (hstep₁.inv trivial (TaskInv.empty rfl rfl)).list
  have htail : s₁.taskTail = 0 → s₁.taskHead = 0 := by
    intro h0
    exact absurd (hlist.tail_eq.symm.trans h0) (blockAddr_ne_zero (by decide))
  obtain ⟨s₂, h₂, -⟩ := taskNew_packed 0 hp₁ (by decide) htail
  refine ⟨s₁, s₂, hstep₁, .new h₂ (blockAddr_ne_zero (by decide)) ?_⟩
  intro hmem
  have := blockAddr_inj (by decide) (by decide) (List.mem_singleton.1 hmem)
  omega

/-- 二つのタスクのうち後の方を解放しても、並びは正しい。 -/
theorem taskRun_ok_lastFreed : ∃ s₁ s₂ s₃,
    TaskStep ⟨Kernel.boot bareState, []⟩ (.new 0) ⟨s₁, [blockAddr 0]⟩ ∧
    TaskStep ⟨s₁, [blockAddr 0]⟩ (.new 0) ⟨s₂, [blockAddr 0, blockAddr 1027]⟩ ∧
    TaskStep ⟨s₂, [blockAddr 0, blockAddr 1027]⟩ (.free (blockAddr 1027)) ⟨s₃, [blockAddr 0]⟩ ∧
    TasksOk s₃ [blockAddr 0] := by
  obtain ⟨s₁, s₂, hstep₁, hstep₂⟩ := boot_two_tasks
  have hi₁ := hstep₁.inv trivial (TaskInv.empty rfl rfl)
  have hlist := (hstep₂.inv trivial hi₁).list
  obtain ⟨s₃, h₃⟩ := taskFree_total (s := s₂) (blockAddr_ne_zero (show 1027 ≤ 25600 by decide))
  have hne : blockAddr 0 ≠ blockAddr 1027 := by
    intro he
    have := blockAddr_inj (by decide) (by decide) he
    omega
  have hstep₃ : TaskStep ⟨s₂, [blockAddr 0, blockAddr 1027]⟩ (.free (blockAddr 1027)) ⟨s₃, [blockAddr 0]⟩ := by
    have herase : [blockAddr 0, blockAddr 1027].erase (blockAddr 1027) = [blockAddr 0] := by
      simp [hne]
    rw [← herase]
    exact .free (by simp) h₃
  have hsafe : TaskOp.Safe s₂ (.free (blockAddr 1027)) := by
    refine ⟨hlist.tail_eq.symm, ?_⟩
    rw [hlist.head_eq]
    exact hne.symm
  refine ⟨s₁, s₂, s₃, hstep₁, hstep₂, hstep₃, (taskRun_ok (s := Kernel.boot bareState) rfl rfl).1 ⟨s₃, [blockAddr 0]⟩ ?_⟩
  exact ((Relation.ReflTransGen.single ⟨_, hstep₁, trivial⟩).tail ⟨_, hstep₂, trivial⟩).tail ⟨_, hstep₃, hsafe⟩

/-- ただ一つのタスクを解放すると、生きているタスクは無いのに `task_tail` が残る。 -/
theorem taskRun_ok_fails_only : ∃ s₁ s₂,
    TaskStep ⟨Kernel.boot bareState, []⟩ (.new 0) ⟨s₁, [blockAddr 0]⟩ ∧
    TaskStep ⟨s₁, [blockAddr 0]⟩ (.free (blockAddr 0)) ⟨s₂, []⟩ ∧ ¬ TasksOk s₂ [] := by
  obtain ⟨s₁, -, hstep₁, -⟩ := boot_two_tasks
  have hi := hstep₁.inv trivial (TaskInv.empty rfl rfl)
  obtain ⟨s₂, h₂⟩ := taskFree_total (s := s₁) (blockAddr_ne_zero (show 0 ≤ 25600 by decide))
  have herase : [blockAddr 0].erase (blockAddr 0) = [] := by simp
  have hhead : s₁.taskHead = blockAddr 0 := hi.list.head_eq
  refine ⟨s₁, s₂, hstep₁, ?_, ?_⟩
  · have hstep : TaskStep ⟨s₁, [blockAddr 0]⟩ (.free (blockAddr 0)) ⟨s₂, [blockAddr 0].erase (blockAddr 0)⟩ :=
      .free (by simp) h₂
    rwa [herase] at hstep
  · intro hok
    have hbad := hi.ok.not_free (t := blockAddr 0) (by simp) (fun hc => hc.2 hhead.symm) h₂
    rw [herase] at hbad
    exact hbad hok.list

end EnkiOs
