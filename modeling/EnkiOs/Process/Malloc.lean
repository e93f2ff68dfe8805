import EnkiOs.Heap.Lemmas.Kernel
import EnkiOs.Heap.Theorems
import EnkiOs.Paging.Table
import EnkiOs.Process.Basic

/-!
# プロセスの割り当てと解放の一歩

`process_malloc` と `process_free` が状態をどう変えるか。
-/

namespace EnkiOs
open Machine

variable {s s' : Kernel} {p : Process} {proc ptr size toFree : Word}

/-! ## 割り当ての表の探索 -/

theorem processFreeAllocFrom_find (p : Process) (k i : Nat) :
    processFreeAllocFrom p k i = (List.range' i k).find? fun i => (p.allocations i).ptr = 0 := by
  induction k generalizing i with
  | zero => rfl
  | succ k ih =>
      rw [processFreeAllocFrom, List.range'_succ, List.find?_cons, ih]
      by_cases h0 : (p.allocations i).ptr = 0
      · rw [if_pos h0, decide_eq_true h0]
      · rw [if_neg h0, decide_eq_false h0]

theorem processFreeAllocFrom_some {k i j : Nat} (h : processFreeAllocFrom p k i = some j) :
    i ≤ j ∧ j < i + k ∧ (p.allocations j).ptr = 0 := by
  rw [processFreeAllocFrom_find, List.find?_range'_eq_some, List.mem_range'_1] at h
  obtain ⟨h0, ⟨h1, h2⟩, -⟩ := h
  exact ⟨h1, h2, by simpa using h0⟩

theorem processFreeAllocFrom_none {k i j : Nat} (h : processFreeAllocFrom p k i = none) (hi : i ≤ j) (hj : j < i + k) :
    (p.allocations j).ptr ≠ 0 := by
  rw [processFreeAllocFrom_find, List.find?_range'_eq_none] at h
  simpa using h j hi hj

theorem processFindFreeAlloc_some {j : Nat} (h : processFindFreeAlloc p = some j) :
    j < ENKI_MAX_PGM_ALLOCATIONS ∧ (p.allocations j).ptr = 0 := by
  obtain ⟨-, h1, h2⟩ := processFreeAllocFrom_some h
  exact ⟨by omega, h2⟩

theorem processAllocationAt_find (p : Process) (ptr : Word) (k i : Nat) :
    processAllocationAt p ptr k i = ((List.range' i k).find? fun i => (p.allocations i).ptr = ptr).map p.allocations := by
  induction k generalizing i with
  | zero => rfl
  | succ k ih =>
      rw [processAllocationAt, List.range'_succ, List.find?_cons, ih]
      by_cases h0 : (p.allocations i).ptr = ptr
      · rw [if_pos h0, decide_eq_true h0]
        rfl
      · rw [if_neg h0, decide_eq_false h0]

theorem processAllocationAt_some {k i : Nat} {alloc : ProcessAllocation} (h : processAllocationAt p ptr k i = some alloc) :
    ∃ j, i ≤ j ∧ j < i + k ∧ p.allocations j = alloc ∧ alloc.ptr = ptr := by
  rw [processAllocationAt_find] at h
  obtain ⟨j, hj, rfl⟩ := Option.map_eq_some_iff.1 h
  rw [List.find?_range'_eq_some, List.mem_range'_1] at hj
  obtain ⟨h0, ⟨h1, h2⟩, -⟩ := hj
  exact ⟨j, h1, h2, rfl, by simpa using h0⟩

theorem processAllocationAt_none {k i j : Nat} (h : processAllocationAt p ptr k i = none) (hi : i ≤ j) (hj : j < i + k) :
    (p.allocations j).ptr ≠ ptr := by
  rw [processAllocationAt_find, Option.map_eq_none_iff, List.find?_range'_eq_none] at h
  simpa using h j hi hj

theorem processGetAllocation_some {alloc : ProcessAllocation} (h : processGetAllocation p ptr = some alloc) :
    ∃ j < ENKI_MAX_PGM_ALLOCATIONS, p.allocations j = alloc ∧ alloc.ptr = ptr := by
  obtain ⟨j, -, hj, heq, hptr⟩ := processAllocationAt_some h
  exact ⟨j, by omega, heq, hptr⟩

theorem processGetAllocation_none (h : processGetAllocation p ptr = none) {j : Nat} (hj : j < ENKI_MAX_PGM_ALLOCATIONS) :
    (p.allocations j).ptr ≠ ptr :=
  processAllocationAt_none h (Nat.zero_le j) (by omega)

/-! ## 一歩 -/

/-- 割り当てのための、ページの割り付け。 -/
def mallocMap (s : Kernel) (proc ptr size : Word) : Int × Words :=
  pagingMapTo s.words (s.tasks (s.procs proc).task).pageDir ptr ptr (pagingAlignAddress (ptr + size)) userFlags

/-- 割り当てに成功した後の状態。 -/
def mallocState (s : Kernel) (proc size : Word) (idx : Nat) : Kernel :=
  let made := kzalloc s.heap size.toNat
  { s with
    heap := made.2
    mem := s.mem.zero made.1 size.toNat
    words := (mallocMap s proc made.1 size).2 }.setProc proc { s.procs proc with
      allocations := fun i => if i = idx then ⟨made.1, size⟩ else (s.procs proc).allocations i }

@[simp] theorem mallocState_heap (idx : Nat) :
    (mallocState s proc size idx).heap = (kzalloc s.heap size.toNat).2 := rfl

theorem mallocState_words (idx : Nat) :
    (mallocState s proc size idx).words = (mallocMap s proc (kzalloc s.heap size.toNat).1 size).2 := rfl

/-- `process_malloc` は、割り当てられないか、割り当てを返して失敗するか、成功して一つの記録を書く。 -/
theorem processMalloc_cases (h : processMalloc s proc size = .ok (ptr, s')) :
    ((kzalloc s.heap size.toNat).1 = 0 ∧ ptr = 0 ∧ s' = s.setHeap (kzalloc s.heap size.toNat).2) ∨
    ((kzalloc s.heap size.toNat).1 ≠ 0 ∧ ptr = 0 ∧
      ((processFindFreeAlloc (s.procs proc) = none ∧ s'.words = s.words) ∨
        ((s.procs proc).task ≠ 0 ∧ (mallocMap s proc (kzalloc s.heap size.toNat).1 size).1 < 0)) ∧
      s'.procs = s.procs ∧ s'.tasks = s.tasks ∧
      s'.heap = kfree (kzalloc s.heap size.toNat).2 (kzalloc s.heap size.toNat).1) ∨
    ((kzalloc s.heap size.toNat).1 ≠ 0 ∧ ptr = (kzalloc s.heap size.toNat).1 ∧ (s.procs proc).task ≠ 0 ∧
      0 ≤ (mallocMap s proc (kzalloc s.heap size.toNat).1 size).1 ∧
      ∃ idx, processFindFreeAlloc (s.procs proc) = some idx ∧ s' = mallocState s proc size idx) := by
  simp only [processMalloc, kzallocBytes] at h
  by_cases h0 : (kzalloc s.heap size.toNat).1 = 0
  · simp only [if_pos h0, if_true] at h
    cases h
    exact .inl ⟨h0, rfl, rfl⟩
  · simp only [if_neg h0] at h
    cases hslot : processFindFreeAlloc (s.procs proc) with
    | none =>
        simp only [hslot] at h
        cases h
        exact .inr (.inl ⟨h0, rfl, .inl ⟨rfl, rfl⟩, rfl, rfl, rfl⟩)
    | some idx =>
        simp only [hslot] at h
        obtain ⟨dir, hdir, h⟩ := bind_ok.1 h
        simp only [processPageDir] at hdir
        split at hdir
        · cases hdir
        · rename_i htask
          cases hdir
          split at h
          · cases h
            exact .inr (.inl ⟨h0, rfl, .inr ⟨htask, ‹_›⟩, rfl, rfl, rfl⟩)
          · cases h
            exact .inr (.inr ⟨h0, rfl, htask, Int.not_lt.1 ‹_›, idx, rfl, rfl⟩)

/-- 解放のための、ページの割り付け。 -/
def freeMap (s : Kernel) (proc : Word) (alloc : ProcessAllocation) : Int × Words :=
  pagingMapTo s.words (s.tasks (s.procs proc).task).pageDir alloc.ptr alloc.ptr
    (pagingAlignAddress (alloc.ptr + alloc.size)) 0

/-- 解放した後の状態。 -/
def freeState (s : Kernel) (proc toFree : Word) (alloc : ProcessAllocation) : Kernel :=
  ({ s with words := (freeMap s proc alloc).2 }.setProc proc (processAllocationDrop (s.procs proc) toFree)).setHeap
    (kfree s.heap toFree)

theorem freeState_words (alloc : ProcessAllocation) :
    (freeState s proc toFree alloc).words = (freeMap s proc alloc).2 := rfl

/-- `process_free` は、記録が無ければ何もせず、あればページの割り付けを戻して、記録を消し、解放する。 -/
theorem processFree_cases (h : processFree s proc toFree = .ok s') :
    (processGetAllocation (s.procs proc) toFree = none ∧ s' = s) ∨
    ∃ alloc, processGetAllocation (s.procs proc) toFree = some alloc ∧ (s.procs proc).task ≠ 0 ∧
      (((freeMap s proc alloc).1 < 0 ∧ s' = { s with words := (freeMap s proc alloc).2 }) ∨
        (0 ≤ (freeMap s proc alloc).1 ∧ s' = freeState s proc toFree alloc)) := by
  simp only [processFree] at h
  cases hget : processGetAllocation (s.procs proc) toFree with
  | none =>
      simp only [hget] at h
      cases h
      exact .inl ⟨rfl, rfl⟩
  | some alloc =>
      simp only [hget] at h
      obtain ⟨dir, hdir, h⟩ := bind_ok.1 h
      simp only [processPageDir] at hdir
      split at hdir
      · cases hdir
      · rename_i htask
        cases hdir
        split at h
        · cases h
          exact .inr ⟨alloc, rfl, htask, .inl ⟨‹_›, rfl⟩⟩
        · cases h
          exact .inr ⟨alloc, rfl, htask, .inr ⟨Int.not_lt.1 ‹_›, rfl⟩⟩

/-! ## ページの割り付け -/

/-- 折り返さない範囲の割り付けは失敗せず、占めるブロックと同じ数のページに及ぶ。 -/
theorem pagingMapTo_blocks {words : Words} {dir flags : Word} (hal : PageAligned ptr)
    (hle : ptr.toNat + size.toNat ≤ 0x7FFFF000) :
    pagingMapTo words dir ptr ptr (pagingAlignAddress (ptr + size)) flags =
      (0, (pageMappings ptr ptr flags (blocksFor size)).foldl (Mapping.put dir) words) := by
  have hsum : (ptr + size).toNat = ptr.toNat + size.toNat := BitVec.toNat_add_of_lt (by omega)
  have hend := pagingAlignAddress_toNat (ptr + size)
  rw [hsum] at hend
  simp only [PageAligned] at hal
  have hge : ptr.toNat ≤ (pagingAlignAddress (ptr + size)).toNat := by omega
  have hnot : ¬ pagingAlignAddress (ptr + size) < ptr := by
    rw [BitVec.lt_def]
    omega
  have hcount : pageCount ptr (pagingAlignAddress (ptr + size)) = blocksFor size := by
    rw [pageCount_eq (BitVec.le_def.2 hge), if_pos (by omega), blocksFor]
    omega
  rw [pagingMapTo_eq hal hal (pageAligned_alignAddress _), if_neg hnot, hcount]

/-- タスクを持つプロセスの割り当ては、必ず返る。 -/
theorem processMalloc_total (s : Kernel) (size : Word) {proc : Word} (htask : (s.procs proc).task ≠ 0) :
    ∃ ptr s', processMalloc s proc size = .ok (ptr, s') := by
  have hdir : ∀ s' : Kernel, s'.procs = s.procs → processPageDir s' proc = .ok (s'.tasks (s.procs proc).task).pageDir := by
    intro s' hprocs
    simp only [processPageDir, hprocs, if_neg htask]
  have hprocs : (kzallocBytes s size).2.procs = s.procs := by
    simp only [kzallocBytes]
    split
    · rfl
    · rfl
  simp only [processMalloc]
  split
  · exact ⟨_, _, rfl⟩
  · split
    · exact ⟨_, _, rfl⟩
    · rw [hdir _ hprocs]
      simp only [bind, Except.bind]
      split
      · exact ⟨_, _, rfl⟩
      · exact ⟨_, _, rfl⟩

theorem processFree_total (toFree : Word) (htask : (s.procs proc).task ≠ 0) : ∃ s', processFree s proc toFree = .ok s' := by
  simp only [processFree]
  split
  · exact ⟨_, rfl⟩
  · simp only [processPageDir, if_neg htask, bind, Except.bind]
    split
    · exact ⟨_, rfl⟩
    · exact ⟨_, rfl⟩

/-! ## ヒープの性質 -/

theorem processMalloc_kept {P : Heap → Prop} {Q : Word → Prop} (hkept : HeapKept P Q) (hp : P s.heap)
    (h : processMalloc s proc size = .ok (ptr, s')) : P s'.heap := by
  obtain ⟨hp', hq⟩ := hkept.kzalloc size.toNat hp
  rcases processMalloc_cases h with ⟨-, -, hs'⟩ | ⟨-, -, -, -, -, hheap⟩ | ⟨-, -, -, -, idx, -, hs'⟩
  · rw [hs']
    exact hp'
  · rw [hheap]
    exact hkept.kfree hp' hq
  · rw [hs']
    exact hp'

theorem processFree_kept {P : Heap → Prop} {Q : Word → Prop} (hkept : HeapKept P Q) (hp : P s.heap) (hq : Q toFree)
    (h : processFree s proc toFree = .ok s') : P s'.heap := by
  rcases processFree_cases h with ⟨-, hs'⟩ | ⟨alloc, -, -, ⟨-, hs'⟩ | ⟨-, hs'⟩⟩
  · rw [hs']
    exact hp
  · rw [hs']
    exact hp
  · rw [hs']
    exact hkept.kfree hp hq

end EnkiOs
