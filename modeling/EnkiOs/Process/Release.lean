import EnkiOs.Process.Frees

/-!
# 割り当ての無いプロセスの終了

割り当ての表が空のプロセスの終了は、空のアドレスを表の大きさの回数だけ解放してから、プロセス自身のブロックを返す。
-/

namespace EnkiOs
open Machine

variable {s s' : Kernel} {proc : Word}

theorem pagingMapTo_empty (words : Words) (dir : Word) : pagingMapTo words dir 0 0 (pagingAlignAddress (0 + 0)) 0 = (0, words) := rfl

theorem processFree_empty (halloc : (s.procs proc).allocations = fun _ => {}) (htask : (s.procs proc).task ≠ 0) :
    processFree s proc 0 = .ok (s.setHeap (kfree s.heap 0)) := by
  have hget : processGetAllocation (s.procs proc) 0 = some {} := by
    rw [processGetAllocation, processAllocationAt, halloc]
    rfl
  have hdrop : processAllocationDrop (s.procs proc) 0 = s.procs proc := by
    rw [processAllocationDrop]
    simp only [halloc, ite_self]
    rw [← halloc]
  have hset : ∀ words : Words, ({ s with words := words }.setProc proc (s.procs proc)) = { s with words := words } := by
    intro words
    rw [Kernel.setProc]
    congr 1
    funext x
    split
    · rename_i hx
      rw [hx]
    · rfl
  simp only [processFree, hget, processPageDir, if_neg htask, bind, Except.bind, pagingMapTo_empty, hdrop, hset]
  rw [if_neg (Int.lt_irrefl 0)]
  rfl

theorem processFreeAllocations_empty {k i : Nat} (halloc : (s.procs proc).allocations = fun _ => {})
    (htask : (s.procs proc).task ≠ 0) :
    processFreeAllocations proc k i s = .ok (s.setHeap ((List.replicate k 0).foldl kfree s.heap)) := by
  induction k generalizing i s with
  | zero => rfl
  | succ k ih =>
      have hptr : ((s.procs proc).allocations i).ptr = 0 := by rw [halloc]
      refine bind_ok.2 ⟨s.setHeap (kfree s.heap 0), ?_, ?_⟩
      · rw [hptr]
        exact processFree_empty halloc htask
      · exact ih (s := s.setHeap (kfree s.heap 0)) halloc htask

theorem processFreePgmData_code (s : Kernel) (proc : Word) : (processFreePgmData s proc).1 =
    if (s.procs proc).fileType = PROCESS_FILE_TYPE_BIN ∨ (s.procs proc).fileType = PROCESS_FILE_TYPE_ELF then 0
    else -EINVARG := by
  by_cases hbin : (s.procs proc).fileType = PROCESS_FILE_TYPE_BIN
  · rw [processFreePgmData, if_pos hbin, if_pos (.inl hbin)]
  · by_cases helf : (s.procs proc).fileType = PROCESS_FILE_TYPE_ELF
    · rw [processFreePgmData, if_neg hbin, if_pos helf, if_pos (.inr helf)]
    · rw [processFreePgmData, if_neg hbin, if_neg helf, if_neg fun h => h.elim hbin helf]

/-- 終了は、記録を外す手前までに、ヒープとタスクの並びだけを変える。 -/
structure Releases (s s' : Kernel) (proc : Word) : Prop where
  heap : s'.heap = (List.replicate ENKI_MAX_PGM_ALLOCATIONS 0 ++ processReleaseCalls s proc).foldl kfree s.heap
  frame : ∃ heap tasks current head tail, s' = { s with
    heap := heap, tasks := tasks, taskCurrent := current, taskHead := head, taskTail := tail }
  pageDirs : ∀ t, (s'.tasks t).pageDir = (s.tasks t).pageDir

theorem processTerminate_releases {depth : Nat} {code : Int} (halloc : (s.procs proc).allocations = fun _ => {})
    (htask : (s.procs proc).task ≠ 0) (hreleased : 0 ≤ (processFreePgmData s proc).1)
    (h : processTerminate (depth + 1) s proc = .ok (code, s')) :
    ∃ s₁, Releases s s₁ proc ∧ processUnlinkWith (processTerminate depth) s₁ proc = .ok s' := by
  obtain ⟨s₁, hfree, hend⟩ := processTerminate_steps h
  obtain ⟨heap₁, hheap₁⟩ : ∃ heap₁, (List.replicate ENKI_MAX_PGM_ALLOCATIONS 0).foldl kfree s.heap = heap₁ := ⟨_, rfl⟩
  rw [processFreeAllocations_empty halloc htask, hheap₁] at hfree
  cases hfree
  have hcode : (processFreePgmData (s.setHeap heap₁) proc).1 = (processFreePgmData s proc).1 := by
    rw [processFreePgmData_code, processFreePgmData_code, Kernel.setHeap_procs]
  have hcalls : processReleaseCalls (s.setHeap heap₁) proc = processReleaseCalls s proc := by
    rw [processReleaseCalls, processReleaseCalls, hcode]
    rfl
  rcases hend with ⟨hneg, -⟩ | ⟨hpos, s₂, htaskFree, hunlink⟩
  · rw [hcode] at hneg
    exact absurd hneg (Int.not_lt.2 hreleased)
  · obtain ⟨hheap, -⟩ := processRelease_calls hpos htaskFree
    rw [processFreePgmData_heap] at htaskFree
    obtain ⟨⟨heap₂, tasks, current, head, tail, hs₂⟩, hpd⟩ := taskFree_frame htaskFree
    refine ⟨s₂, ⟨?_, ⟨heap₂, tasks, current, head, tail, hs₂⟩, hpd⟩, hunlink⟩
    rw [hheap, hcalls, List.foldl_append, hheap₁, Kernel.setHeap_heap]

end EnkiOs
