import EnkiOs.Task.Basic
import EnkiOs.Lib.DoublyLinked
import Mathlib.Logic.Relation

/-!
# タスクの並びの実行と不変条件

タスクの作成、切り替え、解放の列で到達する状態を定める。状態は、カーネルと、まだ解放していないタスクの、作った順の
並びの組である。後の方は C の側には無く、仕様のためだけに持つ。
-/

namespace EnkiOs
open Machine

/-- `live` の並びが、`task_head` と `task_tail` の間に双方向につながっている。 -/
abbrev Kernel.TaskList (s : Kernel) (live : List Word) : Prop :=
  DoublyLinked (fun a => (s.tasks a).next) (fun a => (s.tasks a).prev) 0 s.taskHead s.taskTail live

/-- 並びが正しくつながり、タスクが残っている間は、次に動かすタスクも生きている。 -/
structure TasksOk (s : Kernel) (live : List Word) : Prop where
  list : s.TaskList live
  nextLive : live ≠ [] → ∃ t ∈ live, taskGetNext s = .ok t

structure TaskState where
  kernel : Kernel
  live : List Word

inductive TaskOp
  | new (process : Word)
  | switch (task : Word)
  | free (task : Word)
  | reuse (addr : Word) (junk : Task)

/-- 一回の呼び出し。新しいタスクの場所は、生きているタスクの場所ではない。生きていないタスクの場所は、ほかの割り当てに
使われて書き換わる（`reuse`）。 -/
inductive TaskStep : TaskState → TaskOp → TaskState → Prop
  | new {s s' live process task} (h : taskNew s process = .ok (task, s')) (hne : task ≠ 0)
      (hfresh : task ∉ live) : TaskStep ⟨s, live⟩ (.new process) ⟨s', live ++ [task]⟩
  | switch {s live task} (hmem : task ∈ live) :
      TaskStep ⟨s, live⟩ (.switch task) ⟨(taskSwitch s task).2, live⟩
  | free {s s' live task result} (hmem : task ∈ live) (h : taskFree s task = .ok (result, s')) :
      TaskStep ⟨s, live⟩ (.free task) ⟨s', live.erase task⟩
  | reuse {s live addr junk} (hdead : addr ∉ live) :
      TaskStep ⟨s, live⟩ (.reuse addr junk) ⟨s.setTask addr junk, live⟩

/-- 解放するのは末尾のタスクで、先頭ではない。書き換わる場所は `task_current` の指す場所ではない。 -/
def TaskOp.Safe (s : Kernel) : TaskOp → Prop
  | .new _ => True
  | .switch _ => True
  | .free task => task = s.taskTail ∧ task ≠ s.taskHead
  | .reuse addr _ => addr ≠ s.taskCurrent

def SafeTaskRun : TaskState → TaskState → Prop :=
  Relation.ReflTransGen fun s s' => ∃ op, TaskStep s op s' ∧ op.Safe s.kernel

/-! ## 呼び出しの結果 -/

variable {s s' : Kernel} {t process : Word} {live : List Word}

/-- `task_init` が `task` に作る記録。 -/
def taskRecord (s : Kernel) (process pageDir : Word) : Task where
  pageDir := pageDir
  registers :=
    { ip :=
        if (s.procs process).fileType = PROCESS_FILE_TYPE_ELF then
          (ElfHeader.at s.mem (s.elfFiles (s.procs process).addr).elfMemory).eEntry
        else ENKI_PGM_VIRT_ADDR
      ss := USER_DATA_SEG
      cs := USER_CODE_SEG
      esp := ENKI_PGM_VIRT_STACK_ADDR_START }
  process := process

theorem taskInit_eq {pageDir : Word} {heap : Heap} {words : Words}
    (hnew : pagingNew s.heap s.words ((PAGING_IS_PRESENT ||| PAGING_ACCESS_FROM_ALL).setWidth 8) =
      .ok (pageDir, heap, words)) (hne : pageDir ≠ 0) :
    taskInit s t process =
      .ok (0, { s with heap := heap, words := words }.setTask t (taskRecord s process pageDir)) := by
  refine bind_ok.2 ⟨_, hnew, ?_⟩
  simp only
  rw [if_neg hne]
  simp only [pure, Except.pure, Kernel.setTask, Except.ok.injEq, Prod.mk.injEq, true_and, if_true]
  congr 1
  funext x
  by_cases hx : x = t
  · simp only [hx, if_true]
    rfl
  · simp only [hx, if_false]

theorem pagingNew_ne_zero {heap heap' : Heap} {words words' : Words} {flags : Byte} {pageDir : Word}
    (h : pagingNew heap words flags = .ok (pageDir, heap', words')) : pageDir ≠ 0 := by
  simp only [pagingNew] at h
  split at h
  · cases h
  · obtain ⟨⟨h₂, w₂⟩, -, h⟩ := bind_ok.1 h
    simp only at h
    split at h
    · cases h
    · rename_i hne
      cases h
      exact hne

/-- 新しいタスクは、どこにもつながっていない記録として作られ、それから末尾につながる。 -/
theorem taskNew_ok (h : taskNew s process = .ok (t, s')) (ht : t ≠ 0) :
    ∃ (pageDir : Word) (heap₁ heap : Heap) (words : Words),
      kzalloc s.heap TASK_SIZE = (t, heap₁) ∧
      pagingNew heap₁ s.words ((PAGING_IS_PRESENT ||| PAGING_ACCESS_FROM_ALL).setWidth 8) =
        .ok (pageDir, heap, words) ∧
      taskAppend ({ s with heap := heap, words := words }.setTask t (taskRecord s process pageDir)) t = .ok s' := by
  obtain ⟨t₁, heap₁, hk⟩ : ∃ t₁ heap₁, kzalloc s.heap TASK_SIZE = (t₁, heap₁) := ⟨_, _, rfl⟩
  simp only [taskNew, hk] at h
  split at h
  · cases h
    exact absurd rfl ht
  · obtain ⟨⟨result, s₁⟩, hinit, h⟩ := bind_ok.1 h
    obtain ⟨⟨pageDir, heap, words⟩, hnew, -⟩ := bind_ok.1 hinit
    rw [taskInit_eq (s := s.setHeap heap₁) hnew (pagingNew_ne_zero hnew)] at hinit
    cases hinit
    simp only at h
    rw [if_neg (by decide)] at h
    obtain ⟨s₂, happend, h⟩ := bind_ok.1 h
    cases h
    exact ⟨pageDir, heap₁, heap, words, hk, hnew, happend⟩

/-- 失敗するのは、記録が割り当てられないときだけである。 -/
theorem taskNew_null (h : taskNew s process = .ok (0, s')) : s' = s.setHeap (kzalloc s.heap TASK_SIZE).2 := by
  by_cases hk : (kzalloc s.heap TASK_SIZE).1 = 0
  · simp only [taskNew] at h
    rw [if_pos hk] at h
    cases h
    rfl
  · simp only [taskNew] at h
    rw [if_neg hk] at h
    obtain ⟨⟨result, s₁⟩, hinit, h⟩ := bind_ok.1 h
    obtain ⟨⟨pageDir, heap, words⟩, hnew, -⟩ := bind_ok.1 hinit
    rw [taskInit_eq (s := s.setHeap (kzalloc s.heap TASK_SIZE).2) hnew (pagingNew_ne_zero hnew)] at hinit
    cases hinit
    simp only at h
    rw [if_neg (by decide)] at h
    obtain ⟨s₂, -, h⟩ := bind_ok.1 h
    simp only [pure, Except.pure, Except.ok.injEq, Prod.mk.injEq] at h
    exact absurd h.1 hk

theorem taskAppend_empty (hh : s.taskHead = 0) :
    taskAppend s t = .ok { s with taskHead := t, taskCurrent := t, taskTail := t } := by
  simp [taskAppend, hh, pure, Except.pure]

theorem taskAppend_linked (hh : s.taskHead ≠ 0) (ht : s.taskTail ≠ 0) (hne : t ≠ s.taskTail)
    (h : taskAppend s t = .ok s') :
    s'.taskHead = s.taskHead ∧ s'.taskTail = t ∧ s'.taskCurrent = s.taskCurrent ∧
      s'.tasks s.taskTail = { s.tasks s.taskTail with next := t } ∧
      s'.tasks t = { s.tasks t with prev := s.taskTail } ∧
      ∀ x, x ≠ t → x ≠ s.taskTail → s'.tasks x = s.tasks x := by
  simp only [taskAppend, if_neg hh, if_neg ht, bind, Except.bind, pure, Except.pure] at h
  cases h
  refine ⟨rfl, rfl, rfl, ?_, ?_, ?_⟩
  · simp [Kernel.setTask, hne.symm]
  · simp [Kernel.setTask, hne]
  · intro x hx hx'
    simp [Kernel.setTask, hx, hx']

/-- 末尾につなぐ直前の状態。並びは前のままで、`t` はどこにもつながっていない。 -/
theorem taskNew_append (h : taskNew s process = .ok (t, s')) (ht : t ≠ 0) :
    ∃ s₁, taskAppend s₁ t = .ok s' ∧ s₁.taskHead = s.taskHead ∧ s₁.taskTail = s.taskTail ∧
      s₁.taskCurrent = s.taskCurrent ∧ (s₁.tasks t).next = 0 ∧ (s₁.tasks t).prev = 0 ∧
      ∀ x, x ≠ t → s₁.tasks x = s.tasks x := by
  obtain ⟨pageDir, -, heap, words, -, -, happend⟩ := taskNew_ok h ht
  refine ⟨_, happend, rfl, rfl, rfl, ?_, ?_, ?_⟩
  · rw [Kernel.setTask_same]
    rfl
  · rw [Kernel.setTask_same]
    rfl
  · intro x hx
    rw [Kernel.setTask_other _ _ _ hx]

/-- 最初のタスクは、それだけで並びになる。 -/
theorem taskNew_first (hh : s.taskHead = 0) (h : taskNew s process = .ok (t, s')) (ht : t ≠ 0) :
    s'.taskHead = t ∧ s'.taskTail = t ∧ s'.taskCurrent = t ∧ (s'.tasks t).next = 0 ∧ (s'.tasks t).prev = 0 := by
  obtain ⟨s₁, happend, hhead, -, -, hnext, hprev, -⟩ := taskNew_append h ht
  rw [taskAppend_empty (hhead.trans hh)] at happend
  cases happend
  exact ⟨rfl, rfl, rfl, hnext, hprev⟩

/-- 二つ目からのタスクは、末尾の次につながる。ほかの記録は変わらない。 -/
theorem taskNew_linked (hh : s.taskHead ≠ 0) (htail : s.taskTail ≠ 0) (hne : t ≠ s.taskTail)
    (h : taskNew s process = .ok (t, s')) (ht : t ≠ 0) :
    s'.taskHead = s.taskHead ∧ s'.taskTail = t ∧ s'.taskCurrent = s.taskCurrent ∧
      s'.tasks s.taskTail = { s.tasks s.taskTail with next := t } ∧ (s'.tasks t).next = 0 ∧
      (s'.tasks t).prev = s.taskTail ∧ ∀ x, x ≠ t → x ≠ s.taskTail → s'.tasks x = s.tasks x := by
  obtain ⟨s₁, happend, hhead₁, htail₁, hcur₁, hnext, -, hother⟩ := taskNew_append h ht
  rw [← hhead₁] at hh
  rw [← htail₁] at htail hne
  obtain ⟨hhead', htail', hcur', hlast, hnew, hrest⟩ := taskAppend_linked hh htail hne happend
  rw [← htail₁]
  refine ⟨hhead'.trans hhead₁, htail', hcur'.trans hcur₁, ?_, ?_, ?_, ?_⟩
  · rw [hlast, hother _ hne.symm]
  · rw [hnew]
    exact hnext
  · rw [hnew]
  · intro x hx hx'
    rw [hrest x hx hx', hother x hx]

theorem taskAppend_tail (h : taskAppend s t = .ok s') : s'.taskTail = t := by
  simp only [taskAppend] at h
  split at h
  · cases h
    rfl
  · split at h
    · cases h
    · cases h
      rfl

/-- 末尾につなぐ操作が変えるのは、タスクの記録と並びの両端だけである。`page_dir` は変わらない。 -/
theorem taskAppend_frame (h : taskAppend s t = .ok s') :
    (∃ tasks current head tail, s' = { s with
      tasks := tasks, taskCurrent := current, taskHead := head, taskTail := tail }) ∧
    ∀ x, (s'.tasks x).pageDir = (s.tasks x).pageDir := by
  simp only [taskAppend] at h
  split at h
  · cases h
    exact ⟨⟨_, _, _, _, rfl⟩, fun _ => rfl⟩
  · split at h
    · cases h
    · cases h
      refine ⟨⟨_, _, _, _, rfl⟩, ?_⟩
      intro x
      simp only
      rw [Kernel.setTask_pageDir, Kernel.setTask_pageDir]
      · rfl
      · rfl

/-- 新しいタスクを作っても、メモリの内容とプロセスの記録は変わらない。 -/
theorem taskNew_frame (h : taskNew s process = .ok (t, s')) (ht : t ≠ 0) :
    ∃ heap words tasks current head tail, s' = { s with
      heap := heap, words := words, tasks := tasks, taskCurrent := current, taskHead := head, taskTail := tail } := by
  obtain ⟨_, _, _, _, -, -, happend⟩ := taskNew_ok h ht
  obtain ⟨⟨tasks, current, head, tail, rfl⟩, -⟩ := taskAppend_frame happend
  exact ⟨_, _, tasks, current, head, tail, rfl⟩

section

variable (s t)

@[simp] theorem taskUnlinkPrev_taskHead : (taskUnlinkPrev s t).taskHead = s.taskHead := by
  simp only [taskUnlinkPrev]
  split <;> rfl

@[simp] theorem taskUnlinkPrev_taskTail : (taskUnlinkPrev s t).taskTail = s.taskTail := by
  simp only [taskUnlinkPrev]
  split <;> rfl

@[simp] theorem taskUnlinkPrev_taskCurrent : (taskUnlinkPrev s t).taskCurrent = s.taskCurrent := by
  simp only [taskUnlinkPrev]
  split <;> rfl

@[simp] theorem taskUnlinkPrev_prev (x : Word) :
    ((taskUnlinkPrev s t).tasks x).prev = (s.tasks x).prev := by
  simp only [taskUnlinkPrev]
  split
  · rfl
  · by_cases hx : x = (s.tasks t).prev
    · simp [hx]
    · rw [Kernel.setTask_other _ _ _ hx]

theorem taskUnlinkPrev_pageDir (x : Word) : ((taskUnlinkPrev s t).tasks x).pageDir = (s.tasks x).pageDir := by
  simp only [taskUnlinkPrev]
  split
  · rfl
  · exact Kernel.setTask_pageDir s _ (t := { s.tasks (s.tasks t).prev with next := (s.tasks t).next }) rfl x

theorem taskUnlinkPrev_frame : taskUnlinkPrev s t = { s with tasks := (taskUnlinkPrev s t).tasks } := by
  simp only [taskUnlinkPrev]
  split <;> rfl

end

theorem taskUnlinkPrev_other {x : Word} (hx : x ≠ (s.tasks t).prev) :
    (taskUnlinkPrev s t).tasks x = s.tasks x := by
  simp only [taskUnlinkPrev]
  split
  · rfl
  · exact Kernel.setTask_other _ _ _ hx

theorem taskUnlinkPrev_next (hne : (s.tasks t).prev ≠ 0) :
    ((taskUnlinkPrev s t).tasks (s.tasks t).prev).next = (s.tasks t).next := by
  simp only [taskUnlinkPrev]
  rw [if_neg hne, Kernel.setTask_same]

theorem taskUnlinkPrev_setHeap (heap : Heap) :
    (taskUnlinkPrev (s.setHeap heap) t).tasks = (taskUnlinkPrev s t).tasks := by
  simp only [taskUnlinkPrev]
  by_cases hp : (s.tasks t).prev = 0
  · rw [if_pos hp, if_pos (show ((s.setHeap heap).tasks t).prev = 0 from hp)]
    rfl
  · rw [if_neg hp, if_neg (show ((s.setHeap heap).tasks t).prev ≠ 0 from hp)]
    rfl

theorem taskGetNext_eq (hne : s.taskCurrent ≠ 0) :
    taskGetNext s =
      .ok (if (s.tasks s.taskCurrent).next = 0 then s.taskHead else (s.tasks s.taskCurrent).next) := by
  simp only [taskGetNext]
  rw [if_neg hne]
  rfl

/-- 空でないポインタの解放は、いつでも値を返す。 -/
theorem taskListRemove_total (ht : t ≠ 0) : ∃ s', taskListRemove s t = .ok s' := by
  simp only [taskListRemove]
  split
  · exact ⟨_, rfl⟩
  · split
    · exact ⟨_, rfl⟩
    · split
      · rename_i hcur
        have hne : (taskUnlinkPrev s t).taskCurrent ≠ 0 := hcur ▸ ht
        exact ⟨_, bind_ok.2 ⟨_, taskGetNext_eq hne, rfl⟩⟩
      · exact ⟨_, rfl⟩

theorem taskFree_total (ht : t ≠ 0) : ∃ s', taskFree s t = .ok (0, s') := by
  simp only [taskFree, if_neg ht]
  generalize pagingFree s.heap s.words (s.tasks t).pageDir = heap
  obtain ⟨s₁, h₁⟩ := taskListRemove_total (s := s.setHeap heap) ht
  exact ⟨_, bind_ok.2 ⟨s₁, h₁, rfl⟩⟩

/-- 並びから外す三つの場合。記録のうち書き換わるのは、直前のタスクの `next` だけである。 -/
theorem taskListRemove_ok (h : taskListRemove s t = .ok s') :
    s'.tasks = (taskUnlinkPrev s t).tasks ∧
    ((t = s.taskHead ∧ s'.taskTail = s.taskTail ∧ s'.taskCurrent = s.taskCurrent) ∨
     (t ≠ s.taskHead ∧ t = s.taskTail ∧ s'.taskHead = s.taskHead ∧ s'.taskTail = (s.tasks t).prev ∧
       s'.taskCurrent = s.taskCurrent) ∨
     (t ≠ s.taskHead ∧ t ≠ s.taskTail)) := by
  simp only [taskListRemove, taskUnlinkPrev_taskHead, taskUnlinkPrev_taskTail] at h
  split at h
  · rename_i hhead
    cases h
    exact ⟨rfl, .inl ⟨hhead, rfl, taskUnlinkPrev_taskCurrent s t⟩⟩
  · rename_i hhead
    split at h
    · rename_i htail
      cases h
      exact ⟨rfl, .inr (.inl ⟨hhead, htail, rfl, taskUnlinkPrev_prev s t t, taskUnlinkPrev_taskCurrent s t⟩)⟩
    · rename_i htail
      split at h
      · obtain ⟨next, -, h⟩ := bind_ok.1 h
        cases h
        exact ⟨rfl, .inr (.inr ⟨hhead, htail⟩)⟩
      · cases h
        exact ⟨rfl, .inr (.inr ⟨hhead, htail⟩)⟩

/-- 並びから外すと、タスクの記録と並びのほかは変わらない。 -/
theorem taskListRemove_frame (h : taskListRemove s t = .ok s') :
    ∃ current head tail, s' = { s with
      tasks := (taskUnlinkPrev s t).tasks, taskCurrent := current, taskHead := head, taskTail := tail } := by
  rw [taskListRemove, taskUnlinkPrev_frame s t] at h
  split at h
  · cases h
    exact ⟨_, _, _, rfl⟩
  · split at h
    · cases h
      exact ⟨_, _, _, rfl⟩
    · split at h
      · obtain ⟨next, -, h⟩ := bind_ok.1 h
        cases h
        exact ⟨_, _, _, rfl⟩
      · cases h
        exact ⟨_, _, _, rfl⟩

/-- 解放は、ページの表を返し、並びから外し、記録を返すことである。 -/
theorem taskFree_steps {result : Int} (h : taskFree s t = .ok (result, s')) :
    ∃ s₁, taskListRemove (s.setHeap (pagingFree s.heap s.words (s.tasks t).pageDir)) t = .ok s₁ ∧ result = 0 ∧
      s' = s₁.setHeap (kfree s₁.heap t) := by
  simp only [taskFree] at h
  split at h
  · cases h
  · obtain ⟨s₁, hremove, h⟩ := bind_ok.1 h
    cases h
    exact ⟨s₁, hremove, rfl, rfl⟩

theorem taskFree_ok {result : Int} (h : taskFree s t = .ok (result, s')) :
    ∃ heap heap' s₁, taskListRemove (s.setHeap heap) t = .ok s₁ ∧ s' = s₁.setHeap heap' := by
  obtain ⟨s₁, hremove, -, hs'⟩ := taskFree_steps h
  exact ⟨_, _, s₁, hremove, hs'⟩

/-! ## 不変条件 -/

/-- 実行の間保たれる条件。`task_current` は、生きているか、次が空のまま残った記録を指す。 -/
structure TaskInv (s : Kernel) (live : List Word) : Prop where
  list : s.TaskList live
  current : live ≠ [] → s.taskCurrent ≠ 0 ∧ (s.taskCurrent ∈ live ∨ (s.tasks s.taskCurrent).next = 0)

theorem Kernel.TaskList.head_mem (h : s.TaskList live) (hne : live ≠ []) : s.taskHead ∈ live := by
  cases live with
  | nil => exact absurd rfl hne
  | cons x xs => simp [h.head_eq]

theorem TaskInv.ok (h : TaskInv s live) : TasksOk s live where
  list := h.list
  nextLive := by
    intro hne
    obtain ⟨h0, hcur⟩ := h.current hne
    refine ⟨_, ?_, taskGetNext_eq h0⟩
    split
    · exact h.list.head_mem hne
    · rename_i hnext
      rcases hcur with hmem | hzero
      · rcases h.list.next_mem hmem with hz | hz
        · exact absurd hz hnext
        · exact hz
      · exact absurd hzero hnext

theorem TaskInv.empty (hhead : s.taskHead = 0) (htail : s.taskTail = 0) : TaskInv s [] where
  list := by
    show DoublyLinked _ _ 0 s.taskHead s.taskTail []
    rw [hhead, htail]
    exact .nil
  current := fun h => absurd rfl h

/-- 空でない並びに加わるのは、末尾の要素の次である。 -/
theorem Kernel.TaskList.new_snoc {init : List Word} {z : Word} (hl : s.TaskList (init ++ [z]))
    (h : taskNew s process = .ok (t, s')) (ht : t ≠ 0) (hfresh : t ∉ init ++ [z]) :
    s'.TaskList (init ++ [z] ++ [t]) ∧ s'.taskCurrent = s.taskCurrent ∧ ∀ x, x ≠ t → x ≠ z → s'.tasks x = s.tasks x := by
  have hz : s.taskTail = z := hl.tail_append
  have hhead0 : s.taskHead ≠ 0 := by
    intro he
    simpa using hl.head_eq_null_iff.1 he
  have htail0 : s.taskTail ≠ 0 := hz ▸ hl.ne_null z (by simp)
  have htz : t ≠ z := by
    intro he
    exact hfresh (by simp [he])
  obtain ⟨hhead, htail, hcur, hztask, hnext, hprev, hrest⟩ := taskNew_linked hhead0 htail0 (hz ▸ htz) h ht
  rw [hz] at hztask hprev hrest
  refine ⟨?_, hcur, hrest⟩
  show DoublyLinked _ _ 0 s'.taskHead s'.taskTail _
  rw [hhead, htail]
  refine hl.snoc ht hfresh ?_ ?_ hnext ?_ hprev
  · simp [hztask]
  · intro x hx
    have hxt : x ≠ t := fun he => hfresh (by simp [← he, hx])
    have hxz : x ≠ z := (List.nodup_append.1 hl.nodup).2.2 x hx z (by simp)
    rw [hrest x hxt hxz]
  · intro x hx
    by_cases hxz : x = z
    · simp [hxz, hztask]
    · rw [hrest x (fun he => hfresh (he ▸ hx)) hxz]

/-- 新しいタスクは、並びの末尾に加わる。 -/
theorem Kernel.TaskList.new (hl : s.TaskList live) (h : taskNew s process = .ok (t, s')) (ht : t ≠ 0) (hfresh : t ∉ live) :
    s'.TaskList (live ++ [t]) := by
  rcases List.eq_nil_or_concat live with rfl | ⟨init, z, rfl⟩
  · obtain ⟨hhead, htail, -, hnext, hprev⟩ := taskNew_first hl.head_eq h ht
    show DoublyLinked _ _ 0 s'.taskHead s'.taskTail _
    rw [hhead, htail]
    exact .singleton ht hnext hprev
  · rw [List.concat_eq_append] at *
    exact (hl.new_snoc h ht hfresh).1

theorem TaskInv.new (hi : TaskInv s live) (h : taskNew s process = .ok (t, s')) (ht : t ≠ 0)
    (hfresh : t ∉ live) : TaskInv s' (live ++ [t]) where
  list := hi.list.new h ht hfresh
  current := by
    intro _
    rcases List.eq_nil_or_concat live with rfl | ⟨init, z, rfl⟩
    · obtain ⟨-, -, hcur, -⟩ := taskNew_first hi.list.head_eq h ht
      rw [hcur]
      exact ⟨ht, .inl (by simp)⟩
    · rw [List.concat_eq_append] at *
      obtain ⟨-, hcur, hrest⟩ := hi.list.new_snoc h ht hfresh
      obtain ⟨h0, hlive⟩ := hi.current (by simp)
      rw [hcur]
      refine ⟨h0, ?_⟩
      by_cases hm : s.taskCurrent ∈ init ++ [z] ++ [t]
      · exact .inl hm
      · have hnotin : s.taskCurrent ∉ init ++ [z] := fun hx => hm (List.mem_append_left _ hx)
        have hnt : s.taskCurrent ≠ t := fun hx => hm (by simp [hx])
        have hnz : s.taskCurrent ≠ z := fun hx => hnotin (by simp [hx])
        rw [hrest _ hnt hnz]
        exact .inr (hlive.resolve_left hnotin)

theorem TaskInv.switch (hi : TaskInv s live) (hm : t ∈ live) : TaskInv (taskSwitch s t).2 live where
  list := hi.list
  current := fun _ => ⟨hi.list.ne_null t hm, .inl hm⟩

theorem TaskInv.reuse {junk : Task} (hi : TaskInv s live) (hm : t ∉ live) (hcur : t ≠ s.taskCurrent) :
    TaskInv (s.setTask t junk) live where
  list := by
    have hsame : ∀ x ∈ live, (s.setTask t junk).tasks x = s.tasks x := by
      intro x hx
      have hne : x ≠ t := fun he => hm (he ▸ hx)
      exact Kernel.setTask_other _ _ _ hne
    refine hi.list.congr ?_ ?_
    · intro x hx
      rw [hsame x hx]
    · intro x hx
      rw [hsame x hx]
  current := by
    intro hne
    rw [Kernel.setTask_taskCurrent, Kernel.setTask_other _ _ _ hcur.symm]
    exact hi.current hne

/-- 手前に `z` のある末尾の解放は、`z` を末尾にして、その `next` を空にする。 -/
theorem Kernel.TaskList.free_tail {init : List Word} {z : Word} {result : Int} (hl : s.TaskList (init ++ [z] ++ [t]))
    (h : taskFree s t = .ok (result, s')) :
    s'.taskHead = s.taskHead ∧ s'.taskTail = z ∧ s'.taskCurrent = s.taskCurrent ∧ (s'.tasks z).next = 0 ∧
      (∀ x, x ≠ z → s'.tasks x = s.tasks x) ∧ ∀ x, (s'.tasks x).prev = (s.tasks x).prev := by
  have htail : s.taskTail = t := hl.tail_append
  have hnext : (s.tasks t).next = 0 := hl.last t (by simp)
  have hprev : (s.tasks t).prev = z := by
    have hsplit : init ++ [z] ++ [t] = init ++ z :: t :: [] := by simp
    exact (hsplit ▸ hl).prev_eq
  have hhead : t ≠ s.taskHead := by
    intro he
    have hmem : s.taskHead ∈ init ++ [z] := by
      rw [hl.head_eq]
      cases init <;> simp
    exact (List.nodup_append.1 hl.nodup).2.2 _ hmem t (by simp) he.symm
  have hz0 : (s.tasks t).prev ≠ 0 := hprev ▸ hl.ne_null z (by simp)
  obtain ⟨heap, heap', s₁, hremove, rfl⟩ := taskFree_ok h
  obtain ⟨htasks, hcases⟩ := taskListRemove_ok hremove
  rw [taskUnlinkPrev_setHeap] at htasks
  obtain ⟨hhead', htail', hcur'⟩ : s₁.taskHead = s.taskHead ∧ s₁.taskTail = z ∧ s₁.taskCurrent = s.taskCurrent := by
    rcases hcases with ⟨hc, -⟩ | ⟨-, -, h1, h2, h3⟩ | ⟨-, hc⟩
    · exact absurd hc hhead
    · exact ⟨h1, h2.trans hprev, h3⟩
    · exact absurd htail.symm hc
  refine ⟨hhead', htail', hcur', ?_, ?_, ?_⟩
  · rw [Kernel.setHeap_tasks, htasks, ← hprev, taskUnlinkPrev_next hz0, hnext]
  · intro x hx
    rw [Kernel.setHeap_tasks, htasks, taskUnlinkPrev_other (hprev ▸ hx)]
  · intro x
    rw [Kernel.setHeap_tasks, htasks, taskUnlinkPrev_prev]

/-- 末尾で先頭ではないタスクの解放。 -/
theorem TaskInv.freeTail {result : Int} (hi : TaskInv s live) (hm : t ∈ live) (htail : t = s.taskTail)
    (hhead : t ≠ s.taskHead) (h : taskFree s t = .ok (result, s')) : TaskInv s' (live.erase t) := by
  rcases List.eq_nil_or_concat live with rfl | ⟨pre, t', rfl⟩
  · cases hm
  rw [List.concat_eq_append] at *
  have ht' : t' = t := by rw [htail, hi.list.tail_append]
  subst ht'
  rcases List.eq_nil_or_concat pre with rfl | ⟨init, z, rfl⟩
  · exact absurd hi.list.head_eq.symm hhead
  rw [List.concat_eq_append] at *
  have hnodup := List.nodup_append.1 hi.list.nodup
  have hnot : t' ∉ init ++ [z] := fun hx => hnodup.2.2 t' hx t' (by simp) rfl
  have herase : (init ++ [z] ++ [t']).erase t' = init ++ [z] := by
    rw [List.erase_append_right _ hnot]
    simp
  obtain ⟨hhead', htail', hcur', hznext, hsame, hprev⟩ := hi.list.free_tail h
  rw [herase]
  constructor
  · show DoublyLinked _ _ 0 s'.taskHead s'.taskTail _
    rw [hhead', htail']
    refine hi.list.dropLast hznext ?_ fun x _ => hprev x
    intro x hx
    have hxz : x ≠ z := (List.nodup_append.1 hnodup.1).2.2 x hx z (by simp)
    rw [hsame x hxz]
  · intro _
    obtain ⟨h0, hlive⟩ := hi.current (by simp)
    rw [hcur']
    refine ⟨h0, ?_⟩
    by_cases hc : s.taskCurrent ∈ init ++ [z]
    · exact .inl hc
    · -- 解放した末尾がそのまま `task_current` に残っても、その `next` は空である。
      have hcz : s.taskCurrent ≠ z := fun he => hc (by simp [he])
      rw [hsame _ hcz]
      rcases hlive with hl | hl
      · have hct : s.taskCurrent = t' := by
          rcases List.mem_append.1 hl with hl | hl
          · exact absurd hl hc
          · exact List.mem_singleton.1 hl
        rw [hct]
        exact .inr (hi.list.last t' (by simp))
      · exact .inr hl

/-- そうでないタスクの解放は、並びを壊す。ただ一つのタスクなら `task_tail` が残り、後ろにタスクがあれば、そのタスクの
`prev` が解放したタスクを指したままになる。 -/
theorem TasksOk.not_free {result : Int} (hi : TasksOk s live) (hm : t ∈ live)
    (hcond : ¬ (t = s.taskTail ∧ t ≠ s.taskHead)) (h : taskFree s t = .ok (result, s')) :
    ¬ s'.TaskList (live.erase t) := by
  intro hbad
  obtain ⟨pre, post, rfl⟩ := List.append_of_mem hm
  have ht0 : t ≠ 0 := hi.list.ne_null t hm
  have hpre : t ∉ pre := by
    intro hx
    exact (List.nodup_append.1 hi.list.nodup).2.2 t hx t (by simp) rfl
  have herase : (pre ++ t :: post).erase t = pre ++ post := by
    rw [List.erase_append_right _ hpre]
    simp
  rw [herase] at hbad
  obtain ⟨heap, heap', s₁, hremove, rfl⟩ := taskFree_ok h
  obtain ⟨htasks, hcases⟩ := taskListRemove_ok hremove
  have hprev : ∀ x, (s₁.tasks x).prev = (s.tasks x).prev := by
    intro x
    rw [htasks, taskUnlinkPrev_setHeap, taskUnlinkPrev_prev]
  cases post with
  | nil =>
      -- 末尾なので、条件を満たさないのは先頭でもあるときである。
      have htail : s.taskTail = t := hi.list.tail_append
      have hhead : t = s.taskHead := by
        by_contra hne
        exact hcond ⟨htail.symm, hne⟩
      have hnil : pre = [] := by
        cases pre with
        | nil => rfl
        | cons x xs =>
            have hx : s.taskHead = x := hi.list.head_eq
            exact absurd (by simp [hhead, hx]) hpre
      subst hnil
      rcases hcases with ⟨-, h1, -⟩ | ⟨hc, -⟩ | ⟨hc, -⟩
      · have h2 : s₁.taskTail = 0 := hbad.tail_eq
        exact ht0 (by rw [← htail, ← h2]; exact h1.symm)
      · exact hc hhead
      · exact hc hhead
  | cons y ys =>
      have hy : (s.tasks y).prev = t := hi.list.prev_eq
      rcases List.eq_nil_or_concat pre with rfl | ⟨pre, z, rfl⟩
      · have h0 : (s₁.tasks y).prev = 0 := hbad.first y (by simp)
        rw [hprev, hy] at h0
        exact ht0 h0
      · rw [List.concat_eq_append] at *
        have hl : pre ++ [z] ++ y :: ys = pre ++ z :: y :: ys := by simp
        rw [hl] at hbad
        have hz : (s₁.tasks y).prev = z := hbad.prev_eq
        rw [hprev, hy] at hz
        exact hpre (by simp [hz])

/-! ## 実行 -/

theorem TaskStep.inv {a b : TaskState} {op : TaskOp} (hs : TaskStep a op b) (hsafe : op.Safe a.kernel)
    (hi : TaskInv a.kernel a.live) : TaskInv b.kernel b.live := by
  cases hs with
  | new h hne hfresh => exact hi.new h hne hfresh
  | switch hmem => exact hi.switch hmem
  | free hmem h => exact hi.freeTail hmem hsafe.1 hsafe.2 h
  | reuse hdead => exact hi.reuse hdead hsafe

theorem SafeTaskRun.inv {a b : TaskState} (hr : SafeTaskRun a b) (hi : TaskInv a.kernel a.live) :
    TaskInv b.kernel b.live := by
  induction hr with
  | refl => exact hi
  | tail _ hstep ih =>
      obtain ⟨op, hs, hsafe⟩ := hstep
      exact hs.inv hsafe ih

end EnkiOs
