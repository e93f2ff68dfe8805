import EnkiOs.Task.Context
import EnkiOs.Task.Theorems
import EnkiOs.Heap.Keeps
import EnkiOs.Paging.New

/-!
# タスクの巡回

タスクを作る間は、どのタスクも解放しない。並びの輪は記録には無く、末尾の次を `task_head` と読むことで閉じる。
-/

namespace EnkiOs
open Machine

/-- 次のタスクに切り替え、`task_return` に渡すレジスタの場所を返す。 -/
def taskSwitchNext (s : Kernel) : Except Fault (Word × Kernel) := do
  let next ← taskGetNext s
  if next = 0 then throw .panic
  let (_, s) := taskSwitch s next
  return (taskRegisters next, s)

/-- `n` 回続けて切り替え、切り替えた先のタスクを順に並べる。 -/
def taskRounds : Nat → Kernel → Except Fault (List Word × Kernel)
  | 0, s => return ([], s)
  | n + 1, s => do
      let (_, s) ← taskSwitchNext s
      let (visited, s') ← taskRounds n s
      return (s.taskCurrent :: visited, s')

/-! ## タスクを作る実行 -/

/-- ほかの処理の間、生きているタスクのブロックは解放されず、並びは変わらない。 -/
structure TasksKept (live : List Word) (s s' : Kernel) : Prop where
  head : s'.taskHead = s.taskHead
  tail : s'.taskTail = s.taskTail
  next : ∀ t ∈ live, (s'.tasks t).next = (s.tasks t).next
  prev : ∀ t ∈ live, (s'.tasks t).prev = (s.tasks t).prev
  heap : Keeps live s.heap → Keeps live s'.heap

/-- 解放の無い実行の一歩。`task_new` は、失敗すると 0 を返す。 -/
inductive TaskMade : TaskState → TaskState → Prop
  | new {s s' live process task} (h : taskNew s process = .ok (task, s')) (hne : task ≠ 0) :
      TaskMade ⟨s, live⟩ ⟨s', live ++ [task]⟩
  | null {s s' live process} (h : taskNew s process = .ok (0, s')) : TaskMade ⟨s, live⟩ ⟨s', live⟩
  | switch {s live task} (hmem : task ∈ live) : TaskMade ⟨s, live⟩ ⟨(taskSwitch s task).2, live⟩
  | other {s s' live} (h : TasksKept live s s') : TaskMade ⟨s, live⟩ ⟨s', live⟩

variable {s s' : Kernel} {t process : Word} {live owned : List Word}

/-- 新しいタスクのブロックは、塞がったブロックと重ならない。 -/
theorem taskNew_keeps (hkeep : Keeps owned s.heap) (h : taskNew s process = .ok (t, s')) (ht : t ≠ 0) :
    Keeps (t :: owned) s'.heap := by
  obtain ⟨pageDir, heap₁, heap, words, halloc, hnew, happend⟩ := taskNew_ok h ht
  have hmade : Keeps (t :: owned) heap₁ := hkeep.made (by decide) (by decide) halloc ht
  have hkept : PageKept (Keeps (t :: owned)) fun _ => True := fun _ n _ _ hk => ⟨hk.kzalloc n, trivial⟩
  have hheap := (pagingNew_built hkept hmade.toKernelHeap hmade hnew).2.1
  obtain ⟨⟨tasks, current, head, tail, rfl⟩, -⟩ := taskAppend_frame happend
  exact hheap

/-- 並びがつながり、そのタスクがどれも塞がったブロックにある。 -/
structure MadeInv (s : Kernel) (live : List Word) : Prop where
  list : s.TaskList live
  heap : Keeps live s.heap

theorem MadeInv.new (hi : MadeInv s live) (h : taskNew s process = .ok (t, s')) (ht : t ≠ 0) :
    MadeInv s' (live ++ [t]) where
  list := hi.list.new h ht (List.nodup_cons.1 (taskNew_keeps hi.heap h ht).nodup).1
  heap := (taskNew_keeps hi.heap h ht).perm (List.perm_append_singleton t live).symm

theorem MadeInv.kept (hi : MadeInv s live) (hk : TasksKept live s s') : MadeInv s' live where
  list := by
    show DoublyLinked _ _ 0 s'.taskHead s'.taskTail live
    rw [hk.head, hk.tail]
    exact hi.list.congr hk.next hk.prev
  heap := hk.heap hi.heap

theorem TaskMade.inv {a b : TaskState} (hs : TaskMade a b) (hi : MadeInv a.kernel a.live) :
    MadeInv b.kernel b.live := by
  cases hs with
  | new h hne => exact hi.new h hne
  | null h =>
      rw [taskNew_null h]
      exact ⟨hi.list, hi.heap.kzalloc TASK_SIZE⟩
  | switch hmem => exact ⟨hi.list, hi.heap⟩
  | other h => exact hi.kept h

theorem taskMade_inv {a b : TaskState} (hr : Relation.ReflTransGen TaskMade a b) (hi : MadeInv a.kernel a.live) :
    MadeInv b.kernel b.live := by
  induction hr with
  | refl => exact hi
  | tail _ hs ih => exact hs.inv ih

/-! ## 一巡 -/

theorem taskGetNext_cyclic (hne : s.taskCurrent ≠ 0) :
    taskGetNext s = .ok (cyclicNext (fun a => (s.tasks a).next) 0 s.taskHead s.taskCurrent) := taskGetNext_eq hne

/-- 次のタスクがあれば、`panic` には至らない。 -/
theorem taskSwitchNext_eq (hnext : taskGetNext s = .ok t) (ht : t ≠ 0) :
    taskSwitchNext s = .ok (taskRegisters t, { s with taskCurrent := t }) := by
  refine bind_ok.2 ⟨t, hnext, ?_⟩
  rw [if_neg ht]
  rfl

/-- 今のタスクから輪に沿って並ぶタスクを、順に訪れる。切り替えは輪を変えない。 -/
theorem taskRounds_chain {xs : List Word} (hne : ∀ x ∈ t :: xs, x ≠ 0)
    (hchain : (t :: xs).IsChain fun a b => cyclicNext (fun a => (s.tasks a).next) 0 s.taskHead a = b) :
    taskRounds xs.length { s with taskCurrent := t } = .ok (xs, { s with taskCurrent := xs.getLastD t }) := by
  induction xs generalizing t with
  | nil => rfl
  | cons x xs ih =>
      obtain ⟨hstep, hrest⟩ := List.isChain_cons_cons.1 hchain
      have ht : t ≠ 0 := hne t List.mem_cons_self
      have hx : x ≠ 0 := hne x (by simp)
      have hnext : taskGetNext { s with taskCurrent := t } = .ok x := by
        rw [taskGetNext_cyclic (s := { s with taskCurrent := t }) ht]
        exact congrArg Except.ok hstep
      refine bind_ok.2 ⟨_, taskSwitchNext_eq hnext hx, ?_⟩
      refine bind_ok.2 ⟨_, ih (fun y hy => hne y (List.mem_cons_of_mem t hy)) hrest, ?_⟩
      rw [List.getLastD_cons]
      rfl

/-- `t` から始めると、`t` より後に作ったタスク、最初からのタスク、`t` の順に訪れる。 -/
theorem Kernel.TaskList.taskRounds {xs ys : List Word} (hl : s.TaskList (xs ++ t :: ys)) :
    taskRounds (xs ++ t :: ys).length { s with taskCurrent := t } =
      .ok (ys ++ xs ++ [t], { s with taskCurrent := t }) := by
  have hne : ∀ x ∈ t :: (ys ++ xs ++ [t]), x ≠ 0 := by
    intro x hx
    refine hl.ne_null x ?_
    simp only [List.mem_cons, List.mem_append, List.not_mem_nil, or_false] at hx ⊢
    tauto
  have hround := taskRounds_chain hne hl.cyclic
  rw [List.getLastD_concat] at hround
  have hlength : (ys ++ xs ++ [t]).length = (xs ++ t :: ys).length := by
    simp only [List.length_append, List.length_cons, List.length_nil]
    omega
  rwa [hlength] at hround

/-- 空の並びから、解放せずに作ったタスクは、どのタスクから始めても、タスクの数だけの切り替えで一度ずつ訪れて、始めのタスクに
戻る。 -/
theorem taskRounds_visits {s₀ : Kernel} (hhead : s₀.taskHead = 0) (htail : s₀.taskTail = 0) (hheap : Keeps [] s₀.heap)
    (hrun : Relation.ReflTransGen TaskMade ⟨s₀, []⟩ ⟨s, live⟩) (ht : t ∈ live) :
    ∃ visited, taskRounds live.length { s with taskCurrent := t } = .ok (visited, { s with taskCurrent := t }) ∧
      visited.Nodup ∧ visited.Perm live ∧ visited.getLast? = some t := by
  have hi : MadeInv s live := taskMade_inv hrun ⟨(TaskInv.empty hhead htail).list, hheap⟩
  obtain ⟨xs, ys, rfl⟩ := List.append_of_mem ht
  have hperm : (ys ++ xs ++ [t]).Perm (xs ++ t :: ys) := by
    refine (List.perm_append_singleton t (ys ++ xs)).trans ?_
    exact (List.perm_append_comm.cons t).trans List.perm_middle.symm
  exact ⟨ys ++ xs ++ [t], hi.list.taskRounds, hperm.symm.nodup hi.list.nodup, hperm, List.getLast?_concat⟩

/-- 起動の直後に作った二つのタスクのうち、後の方から始める。 -/
theorem taskRounds_visits_boot : ∃ s visited,
    Relation.ReflTransGen TaskMade ⟨Kernel.boot bareState, []⟩ ⟨s, [blockAddr 0, blockAddr 1027]⟩ ∧
    taskRounds 2 { s with taskCurrent := blockAddr 1027 } = .ok (visited, { s with taskCurrent := blockAddr 1027 }) ∧
    visited.Nodup ∧ visited.Perm [blockAddr 0, blockAddr 1027] ∧ visited.getLast? = some (blockAddr 1027) := by
  obtain ⟨s₁, s₂, hstep₁, hstep₂⟩ := boot_two_tasks
  have hrun : Relation.ReflTransGen TaskMade ⟨Kernel.boot bareState, []⟩ ⟨s₂, [blockAddr 0, blockAddr 1027]⟩ := by
    cases hstep₁ with
    | new h₁ hne₁ =>
        cases hstep₂ with
        | new h₂ hne₂ => exact (Relation.ReflTransGen.single (.new h₁ hne₁)).tail (.new h₂ hne₂)
  obtain ⟨visited, hround⟩ := taskRounds_visits rfl rfl keeps_boot hrun (t := blockAddr 1027) (by simp)
  exact ⟨s₂, visited, hrun, hround⟩

end EnkiOs
