import EnkiOs.Heap.Frees
import EnkiOs.Paging.Free
import EnkiOs.Process.Owned
import EnkiOs.Task.Run

/-!
# 解放と終了の呼び出す `heap_free`

`process_free` と `process_terminate` が `heap_free` へ渡すアドレスの列と、終了の後のヒープがその列で決まること。
-/

namespace EnkiOs
open Machine Extents

variable {s s' : Kernel} {live : List Allocation} {proc toFree : Word}

/-! ## 呼び出しの列 -/

def processFreeCalls (s : Kernel) (proc toFree : Word) : List Word :=
  match processGetAllocation (s.procs proc) toFree with
  | none => []
  | some alloc => if (freeMap s proc alloc).1 < 0 then [] else [toFree]

/-- 残りの回数と `i` を持つ。 -/
def processFreeAllocationsCalls (proc : Word) : Nat → Nat → Kernel → List Word
  | 0, _, _ => []
  | k + 1, i, s =>
      let ptr := ((s.procs proc).allocations i).ptr
      processFreeCalls s proc ptr ++
        match processFree s proc ptr with
        | .ok s => processFreeAllocationsCalls proc k (i + 1) s
        | .error _ => []

def processFreePgmDataCalls (s : Kernel) (proc : Word) : List Word :=
  let p := s.procs proc
  if p.fileType = PROCESS_FILE_TYPE_BIN then [p.addr]
  else if p.fileType = PROCESS_FILE_TYPE_ELF ∧ p.addr ≠ 0 then [(s.elfFiles p.addr).elfMemory, p.addr]
  else []

/-- `process_terminate` の、割り当ての解放より後の呼び出し。 -/
def processReleaseCalls (s : Kernel) (proc : Word) : List Word :=
  processFreePgmDataCalls s proc ++
    if (processFreePgmData s proc).1 < 0 then []
    else (s.procs proc).stack :: pagingFreeCalls s.words (s.tasks (s.procs proc).task).pageDir ++ [(s.procs proc).task]

/-- `process_terminate` が、記録を外す手前までに呼び出す列。 -/
def processTerminateCalls (s : Kernel) (proc : Word) : List Word :=
  processFreeAllocationsCalls proc ENKI_MAX_PGM_ALLOCATIONS 0 s ++
    match processFreeAllocations proc ENKI_MAX_PGM_ALLOCATIONS 0 s with
    | .ok s => processReleaseCalls s proc
    | .error _ => []

/-- 終了のときに返すのは、本体、スタック、タスク、ページの表である。 -/
theorem mem_processReleaseCalls {entries addr : Word} {table : Nat → Word}
    (hdir : PageDir s.words (s.tasks (s.procs proc).task).pageDir entries table) (h : addr ∈ processReleaseCalls s proc) :
    addr = (s.procs proc).addr ∨
      ((s.procs proc).fileType = PROCESS_FILE_TYPE_ELF ∧ addr = (s.elfFiles (s.procs proc).addr).elfMemory) ∨
      addr = (s.procs proc).stack ∨ addr = (s.procs proc).task ∨ addr = (s.tasks (s.procs proc).task).pageDir ∨
      addr = entries ∨ ∃ i < 1024, addr = table i := by
  rcases List.mem_append.1 h with h | h
  · simp only [processFreePgmDataCalls] at h
    split at h
    · exact .inl (List.mem_singleton.1 h)
    · split at h
      · rename_i helf
        simp only [List.mem_cons, List.not_mem_nil, or_false] at h
        exact h.elim (fun h => .inr (.inl ⟨helf.1, h⟩)) .inl
      · cases h
  · right; right
    split at h
    · cases h
    · rcases List.mem_append.1 h with h | h
      · rcases List.mem_cons.1 h with h | h
        · exact .inl h
        · rw [hdir.freeCalls_eq] at h
          right; right
          rcases List.mem_append.1 h with h | h
          · obtain ⟨i, hi, rfl⟩ := List.mem_map.1 h
            exact .inr (.inr ⟨i, List.mem_range.1 hi, rfl⟩)
          · simp only [List.mem_cons, List.not_mem_nil, or_false] at h
            exact h.elim (fun h => .inr (.inl h)) .inl
      · exact .inr (.inl (List.mem_singleton.1 h))

/-! ## ヒープは呼び出しの列で決まる -/

theorem processFree_heap (h : processFree s proc toFree = .ok s') :
    s'.heap = (processFreeCalls s proc toFree).foldl kfree s.heap := by
  rcases processFree_cases h with ⟨hget, hs'⟩ | ⟨alloc, hget, -, ⟨hneg, hs'⟩ | ⟨hpos, hs'⟩⟩
  · rw [processFreeCalls, hget, hs']
    rfl
  · rw [processFreeCalls, hget, hs']
    simp only [if_pos hneg]
    rfl
  · rw [processFreeCalls, hget, hs']
    simp only [if_neg (Int.not_lt.2 hpos)]
    rfl

theorem processFreeAllocations_heap {k i : Nat} (h : processFreeAllocations proc k i s = .ok s') :
    s'.heap = (processFreeAllocationsCalls proc k i s).foldl kfree s.heap := by
  induction k generalizing i s with
  | zero =>
      cases h
      rfl
  | succ k ih =>
      obtain ⟨s₁, hfree, h⟩ := bind_ok.1 h
      rw [processFreeAllocationsCalls, hfree, List.foldl_append, ← processFree_heap hfree]
      exact ih h

theorem processFreePgmData_heap (s : Kernel) (proc : Word) :
    (processFreePgmData s proc).2 = s.setHeap ((processFreePgmDataCalls s proc).foldl kfree s.heap) := by
  simp only [processFreePgmData, processFreePgmDataCalls]
  by_cases hbin : (s.procs proc).fileType = PROCESS_FILE_TYPE_BIN
  · rw [if_pos hbin, if_pos hbin]
    rfl
  · rw [if_neg hbin, if_neg hbin]
    by_cases helf : (s.procs proc).fileType = PROCESS_FILE_TYPE_ELF
    · rw [if_pos helf, elfClose]
      by_cases haddr : (s.procs proc).addr = 0
      · rw [if_pos haddr, if_neg fun h => h.2 haddr]
        rfl
      · rw [if_neg haddr, if_pos ⟨helf, haddr⟩]
        rfl
    · rw [if_neg helf, if_neg fun h => helf h.1]
      rfl

/-- 登録されたプロセスと、`proc` の番号が同じである。 -/
structure SameRegistry (s s' : Kernel) (proc : Word) : Prop where
  processes : s'.processes = s.processes
  current : s'.processCurrent = s.processCurrent
  id : (s'.procs proc).id = (s.procs proc).id

theorem SameRegistry.trans {s₁ s₂ s₃ : Kernel} (h₁ : SameRegistry s₁ s₂ proc) (h₂ : SameRegistry s₂ s₃ proc) :
    SameRegistry s₁ s₃ proc :=
  ⟨h₂.processes.trans h₁.processes, h₂.current.trans h₁.current, h₂.id.trans h₁.id⟩

theorem processFree_registry (h : processFree s proc toFree = .ok s') : SameRegistry s s' proc := by
  rcases processFree_cases h with ⟨-, hs'⟩ | ⟨alloc, -, -, ⟨-, hs'⟩ | ⟨-, hs'⟩⟩
  · rw [hs']
    exact ⟨rfl, rfl, rfl⟩
  · rw [hs']
    exact ⟨rfl, rfl, rfl⟩
  · rw [hs']
    exact ⟨rfl, rfl, by rw [freeState_same]; rfl⟩

theorem processFreeAllocations_registry {k i : Nat} (h : processFreeAllocations proc k i s = .ok s') :
    SameRegistry s s' proc := by
  induction k generalizing i s with
  | zero =>
      cases h
      exact ⟨rfl, rfl, rfl⟩
  | succ k ih =>
      obtain ⟨s₁, hfree, h⟩ := bind_ok.1 h
      exact (processFree_registry hfree).trans (ih h)

theorem setHeap_registry (s : Kernel) (heap : Heap) (proc : Word) : SameRegistry s (s.setHeap heap) proc :=
  ⟨rfl, rfl, by rw [Kernel.setHeap_procs]⟩

theorem taskFree_calls (proc : Word) {task : Word} {result : Int} (h : taskFree s task = .ok (result, s')) :
    s'.heap = (pagingFreeCalls s.words (s.tasks task).pageDir ++ [task]).foldl kfree s.heap ∧ result = 0 ∧
      SameRegistry s s' proc := by
  obtain ⟨s₁, hremove, hresult, hs'⟩ := taskFree_steps h
  rw [List.foldl_append, ← pagingFree_heap, List.foldl_cons, List.foldl_nil]
  generalize pagingFree s.heap s.words (s.tasks task).pageDir = heap at hremove ⊢
  obtain ⟨current, head, tail, hs₁⟩ := taskListRemove_frame hremove
  have hreg : SameRegistry s s₁ proc := by
    rw [hs₁, Kernel.setHeap]
    exact ⟨rfl, rfl, rfl⟩
  have hheap : s₁.heap = heap := by rw [hs₁, Kernel.setHeap]
  rw [hs', Kernel.setHeap_heap, hheap]
  exact ⟨rfl, hresult, hreg.trans (setHeap_registry s₁ _ proc)⟩

/-- タスクの解放は、ヒープと、タスクの記録と並びだけを変える。 -/
theorem taskFree_frame {task : Word} {result : Int} (h : taskFree s task = .ok (result, s')) :
    (∃ heap tasks current head tail, s' = { s with
      heap := heap, tasks := tasks, taskCurrent := current, taskHead := head, taskTail := tail }) ∧
    ∀ x, (s'.tasks x).pageDir = (s.tasks x).pageDir := by
  obtain ⟨heap, heap', s₁, hremove, rfl⟩ := taskFree_ok h
  obtain ⟨current, head, tail, rfl⟩ := taskListRemove_frame hremove
  exact ⟨⟨_, _, _, _, _, rfl⟩, taskUnlinkPrev_pageDir (s.setHeap heap) task⟩

theorem foldl_kfree_around (h : Heap) (calls : List Word) (stack task : Word) :
    (stack :: calls ++ [task]).foldl kfree h = kfree (calls.foldl kfree (kfree h stack)) task := by
  rw [List.foldl_append, List.foldl_cons, List.foldl_cons, List.foldl_nil]

/-- 終了は、割り当てと本体を解放する。本体の種類が分からなければそこで返り、分かればスタックとタスクを解放して記録を外す。 -/
theorem processTerminate_steps {depth : Nat} {code : Int} (h : processTerminate (depth + 1) s proc = .ok (code, s')) :
    ∃ s₁, processFreeAllocations proc ENKI_MAX_PGM_ALLOCATIONS 0 s = .ok s₁ ∧
      ((processFreePgmData s₁ proc).1 < 0 ∧ s' = (processFreePgmData s₁ proc).2 ∨
        ¬(processFreePgmData s₁ proc).1 < 0 ∧ ∃ s₂,
          taskFree ((processFreePgmData s₁ proc).2.setHeap (kfree (processFreePgmData s₁ proc).2.heap
            ((processFreePgmData s₁ proc).2.procs proc).stack)) ((processFreePgmData s₁ proc).2.procs proc).task =
              .ok (0, s₂) ∧
          processUnlinkWith (processTerminate depth) s₂ proc = .ok s') := by
  rw [processTerminate] at h
  obtain ⟨s₁, halloc, h⟩ := bind_ok.1 h
  refine ⟨s₁, halloc, ?_⟩
  simp only at h
  split at h
  · rename_i hneg
    cases h
    exact .inl ⟨hneg, rfl⟩
  · rename_i hpos
    obtain ⟨⟨result, s₂⟩, htask, h⟩ := bind_ok.1 h
    obtain ⟨-, -, hresult, -⟩ := taskFree_steps htask
    subst hresult
    obtain ⟨s₃, hunlink, h⟩ := bind_ok.1 h
    cases h
    exact .inr ⟨hpos, s₂, htask, hunlink⟩

/-- 本体、スタック、タスクの順に解放した後のヒープ。 -/
theorem processRelease_calls {s₂ : Kernel} (hpos : ¬(processFreePgmData s proc).1 < 0)
    (h : taskFree ((processFreePgmData s proc).2.setHeap (kfree (processFreePgmData s proc).2.heap
      ((processFreePgmData s proc).2.procs proc).stack)) ((processFreePgmData s proc).2.procs proc).task = .ok (0, s₂)) :
    s₂.heap = (processReleaseCalls s proc).foldl kfree s.heap ∧ SameRegistry s s₂ proc := by
  rw [processFreePgmData_heap] at h
  obtain ⟨hheap, -, hreg⟩ := taskFree_calls proc h
  refine ⟨?_, ((setHeap_registry s _ proc).trans (setHeap_registry _ _ proc)).trans hreg⟩
  rw [Kernel.setHeap_heap, List.foldl_append, List.foldl_cons, List.foldl_nil] at hheap
  rw [processReleaseCalls, if_neg hpos, List.foldl_append, foldl_kfree_around]
  exact hheap

/-- 終了は、呼び出しの列のとおりに解放してから、記録を外す。本体の種類が分からなければ、そこで返る。 -/
theorem processTerminate_calls {depth : Nat} {code : Int} (h : processTerminate (depth + 1) s proc = .ok (code, s')) :
    ∃ s₁, s₁.heap = (processTerminateCalls s proc).foldl kfree s.heap ∧ SameRegistry s s₁ proc ∧
      (s' = s₁ ∨ processUnlinkWith (processTerminate depth) s₁ proc = .ok s') := by
  obtain ⟨s₁, halloc, hstop | hrun⟩ := processTerminate_steps h
  all_goals
    have hreg := processFreeAllocations_registry halloc
    have hcalls : (processTerminateCalls s proc).foldl kfree s.heap =
        (processReleaseCalls s₁ proc).foldl kfree s₁.heap := by
      rw [processTerminateCalls, halloc, List.foldl_append, ← processFreeAllocations_heap halloc]
    rw [hcalls]
  · obtain ⟨hneg, hs'⟩ := hstop
    rw [processFreePgmData_heap] at hs'
    refine ⟨_, ?_, hreg.trans (setHeap_registry s₁ _ proc), .inl hs'⟩
    rw [processReleaseCalls, if_pos hneg, List.append_nil, Kernel.setHeap_heap]
  · obtain ⟨hpos, s₂, htask, hunlink⟩ := hrun
    obtain ⟨hheap, hreg₂⟩ := processRelease_calls hpos htask
    exact ⟨s₂, hheap, hreg.trans hreg₂, .inr hunlink⟩

end EnkiOs
