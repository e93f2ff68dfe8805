import EnkiOs.Process.Packed

/-!
# プロセスの表

空いた番号の探索と、読み込みがプロセスの表と記録をどう変えるか。
-/

namespace EnkiOs
open Machine

variable {s s' : Kernel} {fileName : List Byte} {slot result : Int} {proc : Word}

/-! ## 空いた番号 -/

/-- どの番号も使われている。 -/
def SlotsFull (s : Kernel) : Prop := ∀ i, 0 ≤ i → i < ENKI_MAX_PROCESSES → s.processes i ≠ 0

theorem processSlots_some {k : Nat} {i j : Int} (h : processSlots s k i = some j) :
    i ≤ j ∧ j < i + k ∧ s.processes j = 0 := by
  induction k generalizing i with
  | zero => cases h
  | succ k ih =>
      rw [processSlots] at h
      split at h
      · rename_i h0
        cases h
        exact ⟨Int.le_refl _, by omega, h0⟩
      · obtain ⟨h1, h2, h3⟩ := ih h
        exact ⟨by omega, by omega, h3⟩

theorem processSlots_none {k : Nat} {i j : Int} (h : processSlots s k i = none) (hi : i ≤ j) (hj : j < i + k) :
    s.processes j ≠ 0 := by
  induction k generalizing i with
  | zero => omega
  | succ k ih =>
      rw [processSlots] at h
      split at h
      · cases h
      · rename_i hne
        by_cases he : j = i
        · rw [he]
          exact hne
        · exact ih h (by omega) (by omega)

/-- 空いた番号は、表の中の、使われていない番号である。無ければ、どの番号も使われている。 -/
theorem processGetFreeSlot_cases (s : Kernel) :
    (processGetFreeSlot s = -EISTKN ∧ SlotsFull s) ∨
      (0 ≤ processGetFreeSlot s ∧ processGetFreeSlot s < ENKI_MAX_PROCESSES ∧ s.processes (processGetFreeSlot s) = 0) := by
  rw [processGetFreeSlot]
  cases hslot : processSlots s 12 0 with
  | none => exact .inl ⟨rfl, fun i h1 h2 => processSlots_none hslot h1 (by simpa using h2)⟩
  | some i =>
      obtain ⟨h1, h2, h3⟩ := processSlots_some hslot
      exact .inr ⟨h1, by simpa using h2, h3⟩

theorem SlotsFull.not_free (h : SlotsFull s) {i : Int} (h1 : 0 ≤ i) (h2 : i < ENKI_MAX_PROCESSES) (h0 : s.processes i = 0) :
    False := h i h1 h2 h0

/-! ## 読み込み -/

section

variable {terminate : Kernel → Word → Except Fault (Int × Kernel)}

theorem processPrepareWith_slot {out : Word} (h : processPrepareWith terminate s fileName slot = .ok (.ok out, s')) :
    processGet s slot = 0 := by
  by_contra hne
  simp only [processPrepareWith] at h
  rw [if_pos hne] at h
  cases h

/-- 前半が変えるのは、ファイルの状態、`struct elf_file`、新しい記録だけである。 -/
theorem processPrepareWith_frame (h : processPrepareWith terminate s fileName slot = .ok (.ok proc, s')) :
    ∃ fs files p, s' = { s with
      toFileState := fs, elfFiles := files, procs := fun x => if x = proc then p else s.procs x } ∧
      p.id = BitVec.ofInt 16 slot ∧ p.allocations = (fun _ => {}) ∧ p.task = 0 ∧
      proc = (kzalloc s.heap PROCESS_SIZE).1 ∧ proc ≠ 0 := by
  obtain ⟨heap, code, s₁, stack, s₂, hk, hne, hload, -, hstack, -, rfl⟩ := processPrepareWith_ok h
  obtain ⟨fs₁, files₁, p₁, rfl, htask, halloc⟩ := processLoadData_frame hload
  obtain ⟨fs₂, hs₂⟩ := kzallocBytes_frame _ (BitVec.ofNat 32 ENKI_USER_PGM_STACK_SIZE)
  rw [hstack] at hs₂
  simp only at hs₂
  subst hs₂
  refine ⟨fs₂, files₁, { p₁ with
    stack := stack
    fileName := fileName.take (ENKI_MAX_PATH - 1)
    id := BitVec.ofInt 16 slot }, ?_, rfl, ?_, ?_, ?_, hne⟩
  · simp only [Kernel.setProc, Kernel.setHeap, if_true]
    congr 1
    funext x
    by_cases hx : x = proc
    · rw [if_pos hx, if_pos hx]
    · rw [if_neg hx, if_neg hx, if_neg hx, if_neg hx]
  · rw [halloc]
    simp [Kernel.setProc]
  · rw [htask]
    simp [Kernel.setProc]
  · rw [hk]

/-- 成功した読み込みは、空いていた番号に新しい記録を登録する。ほかの記録と、動いているプロセスは変わらない。 -/
structure Enrolls (s s' : Kernel) (slot : Int) (proc : Word) : Prop where
  slot_free : processGet s slot = 0
  record_eq : (kzalloc s.heap PROCESS_SIZE).1 = proc
  record_ne : proc ≠ 0
  processes : s'.processes = fun i => if i = slot then proc else s.processes i
  current : s'.processCurrent = s.processCurrent
  id : (s'.procs proc).id = BitVec.ofInt 16 slot
  allocations : (s'.procs proc).allocations = fun _ => {}
  task : (s'.procs proc).task ≠ 0
  others : ∀ x, x ≠ proc → s'.procs x = s.procs x

theorem processLoadSlotWith_enrolls (h : processLoadSlotWith terminate s fileName slot = .ok (result, proc, s'))
    (hresult : 0 ≤ result) : Enrolls s s' slot proc := by
  obtain ⟨s₁, t, s₂, s₃, hprep, hnew, ht, hmap, rfl⟩ := processLoadSlotWith_ok h hresult
  have hslot := processPrepareWith_slot hprep
  obtain ⟨fs, files, p, rfl, hid, halloc, -, hproc, hne⟩ := processPrepareWith_frame hprep
  obtain ⟨heap₂, words₂, tasks₂, current₂, head₂, tail₂, rfl⟩ := taskNew_frame hnew ht
  obtain ⟨words₃, rfl⟩ := processMapMemory_frame hmap
  refine ⟨hslot, hproc.symm, hne, rfl, rfl, ?_, ?_, ?_, ?_⟩
  · simpa [Kernel.setProc] using hid
  · simpa [Kernel.setProc] using halloc
  · simpa [Kernel.setProc] using ht
  · intro x hx
    simp [Kernel.setProc, hx]

end

end EnkiOs
