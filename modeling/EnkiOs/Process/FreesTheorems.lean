import EnkiOs.Process.Frees
import EnkiOs.Process.OwnedTheorems
import Mathlib.Data.List.Nodup

/-!
# 解放と終了の定理

`process_free` と `process_terminate` が、生きている割り当てだけを解放するのはいつか。割り当ての表の空いた項目は
アドレス 0 で表されるので、空いた項目があると、アドレス 0 の解放は持ち主の検査を通る。
-/

namespace EnkiOs
open Machine Extents

variable {who : Word → Prop} {s s' : Kernel} {live : List Allocation} {proc toFree : Word}

/-! ## 読み込んだプロセス -/

/-- 割り当ての表の項目がすべて使われている。 -/
def TableFull (s : Kernel) (proc : Word) : Prop :=
  ∀ i < ENKI_MAX_PGM_ALLOCATIONS, ((s.procs proc).allocations i).ptr ≠ 0

/-- 読み込みを終えたプロセス。本体、スタック、ページの表、タスクは、どれも別々の生きている割り当てであり、
割り当ての表の記録とも別である。 -/
structure Loaded (s : Kernel) (proc : Word) : Prop where
  task_ne : (s.procs proc).task ≠ 0
  pageDir : ∃ entries table, PageDir s.words (s.tasks (s.procs proc).task).pageDir entries table
  released : 0 ≤ (processFreePgmData s proc).1
  nodup : (processReleaseCalls s proc).Nodup
  live : ∀ addr ∈ processReleaseCalls s proc, LiveAddr s.heap addr
  apart : ∀ addr ∈ processReleaseCalls s proc, ∀ i < ENKI_MAX_PGM_ALLOCATIONS, ((s.procs proc).allocations i).ptr ≠ addr

/-- `process_free` は、生きている割り当てだけを解放し、持っていないアドレスでは何も変えない。 -/
structure FreeSound (s : Kernel) (proc toFree : Word) : Prop where
  live : FreesLive s.heap (processFreeCalls s proc toFree)
  unowned : (toFree = 0 ∨ ∀ i < ENKI_MAX_PGM_ALLOCATIONS, ((s.procs proc).allocations i).ptr ≠ toFree) →
    processFree s proc toFree = .ok s

/-! ## 持ち主の検査 -/

theorem processGetAllocation_of_ne (h : ∀ i < ENKI_MAX_PGM_ALLOCATIONS, ((s.procs proc).allocations i).ptr ≠ toFree) :
    processGetAllocation (s.procs proc) toFree = none := by
  cases hget : processGetAllocation (s.procs proc) toFree with
  | none => rfl
  | some alloc =>
      obtain ⟨j, hj, heq, hptr⟩ := processGetAllocation_some hget
      exact absurd (heq ▸ hptr) (h j hj)

theorem processFree_unowned (h : ∀ i < ENKI_MAX_PGM_ALLOCATIONS, ((s.procs proc).allocations i).ptr ≠ toFree) :
    processFree s proc toFree = .ok s := by
  rw [processFree, processGetAllocation_of_ne h]
  rfl

/-- 記録のあるアドレスでは、割り付けが失敗しないかぎり、そのアドレスを解放する。 -/
theorem processFreeCalls_owned {j : Nat} (hj : j < ENKI_MAX_PGM_ALLOCATIONS)
    (hptr : ((s.procs proc).allocations j).ptr = toFree)
    (hmap : ∀ alloc : ProcessAllocation, alloc.ptr = toFree → (∃ i < ENKI_MAX_PGM_ALLOCATIONS,
      (s.procs proc).allocations i = alloc) → 0 ≤ (freeMap s proc alloc).1) :
    ∃ alloc, processGetAllocation (s.procs proc) toFree = some alloc ∧ 0 ≤ (freeMap s proc alloc).1 ∧
      processFreeCalls s proc toFree = [toFree] := by
  cases hget : processGetAllocation (s.procs proc) toFree with
  | none => exact absurd hptr (processGetAllocation_none hget hj)
  | some alloc =>
      obtain ⟨i, hi, heq, hptr'⟩ := processGetAllocation_some hget
      have hpos := hmap alloc hptr' ⟨i, hi, heq⟩
      refine ⟨alloc, rfl, hpos, ?_⟩
      rw [processFreeCalls, hget]
      simp only [if_neg (Int.not_lt.2 hpos)]

theorem freeMap_null {alloc : ProcessAllocation} (h0 : alloc.ptr = 0) : 0 ≤ (freeMap s proc alloc).1 := by
  have hal : PageAligned 0 := by decide
  have hnot : ¬ pagingAlignAddress (0 + alloc.size) < 0 := BitVec.not_lt_zero
  have hmap : (freeMap s proc alloc).1 = 0 := by
    rw [freeMap, h0, pagingMapTo_eq hal hal (pageAligned_alignAddress _), if_neg hnot]
  exact Int.le_of_eq hmap.symm

/-- 空いた項目があれば、空のアドレスを解放する。 -/
theorem processFreeCalls_null {j : Nat} (hj : j < ENKI_MAX_PGM_ALLOCATIONS)
    (hptr : ((s.procs proc).allocations j).ptr = 0) : processFreeCalls s proc 0 = [0] := by
  obtain ⟨alloc, -, -, hcalls⟩ := processFreeCalls_owned hj hptr fun alloc h0 _ => freeMap_null h0
  exact hcalls

theorem Owned.processFreeCalls_eq (ho : Owned who s live) (hw : who proc) {i : Nat} (hi : i < ENKI_MAX_PGM_ALLOCATIONS)
    (hne : ((s.procs proc).allocations i).ptr ≠ 0) :
    processGetAllocation (s.procs proc) ((s.procs proc).allocations i).ptr = some ((s.procs proc).allocations i) ∧
      processFreeCalls s proc ((s.procs proc).allocations i).ptr = [((s.procs proc).allocations i).ptr] := by
  have hsame : ∀ alloc : ProcessAllocation, alloc.ptr = ((s.procs proc).allocations i).ptr →
      (∃ j < ENKI_MAX_PGM_ALLOCATIONS, (s.procs proc).allocations j = alloc) → alloc = (s.procs proc).allocations i := by
    rintro alloc hptr ⟨j, hj, rfl⟩
    obtain ⟨-, rfl⟩ := ho.distinct hw i hi hw j hj hne hptr.symm
    rfl
  have hmap : ∀ alloc : ProcessAllocation, alloc.ptr = ((s.procs proc).allocations i).ptr →
      (∃ j < ENKI_MAX_PGM_ALLOCATIONS, (s.procs proc).allocations j = alloc) → (freeMap s proc alloc).1 = 0 := by
    intro alloc hptr hex
    rw [hsame alloc hptr hex, ho.freeMap_eq hw hi hne]
  obtain ⟨alloc, hget, -, hcalls⟩ := processFreeCalls_owned hi rfl fun alloc hptr hex =>
    Int.le_of_eq (hmap alloc hptr hex).symm
  obtain ⟨j, hj, heq, hptr⟩ := processGetAllocation_some hget
  rw [hsame alloc hptr ⟨j, hj, heq⟩] at hget
  exact ⟨hget, hcalls⟩

/-! ## 割り当ての表を空ける繰り返し -/

/-- 解放は、タスクとプロセスの読み込みの項目を変えない。 -/
theorem processFree_frame (h : processFree s proc toFree = .ok s') :
    s'.tasks = s.tasks ∧ s'.elfFiles = s.elfFiles ∧
      s'.procs proc = { s.procs proc with allocations := (s'.procs proc).allocations } := by
  rcases processFree_cases h with ⟨-, hs'⟩ | ⟨alloc, -, -, ⟨-, hs'⟩ | ⟨-, hs'⟩⟩
  · rw [hs']
    exact ⟨rfl, rfl, rfl⟩
  · rw [hs']
    exact ⟨rfl, rfl, rfl⟩
  · rw [hs', freeState_same]
    exact ⟨rfl, rfl, rfl⟩

theorem processFree_task (h : processFree s proc toFree = .ok s') : (s'.procs proc).task = (s.procs proc).task := by
  rw [(processFree_frame h).2.2]

theorem processFree_record (h : processFree s proc toFree = .ok s') {j : Nat}
    (hne : ((s.procs proc).allocations j).ptr ≠ toFree) :
    (s'.procs proc).allocations j = (s.procs proc).allocations j := by
  rcases processFree_cases h with ⟨-, hs'⟩ | ⟨alloc, -, -, ⟨-, hs'⟩ | ⟨-, hs'⟩⟩
  · rw [hs']
  · rw [hs']
  · rw [hs', freeState_same, processAllocationDrop]
    simp [hne]

/-- 空いた項目のところで、空のアドレスを解放する。 -/
theorem zero_mem_processFreeAllocationsCalls {k i j : Nat} (htask : (s.procs proc).task ≠ 0) (hij : i ≤ j) (hjk : j < i + k)
    (hj : j < ENKI_MAX_PGM_ALLOCATIONS) (h0 : ((s.procs proc).allocations j).ptr = 0) :
    (0 : Word) ∈ processFreeAllocationsCalls proc k i s := by
  induction k generalizing i s with
  | zero => omega
  | succ k ih =>
      rw [processFreeAllocationsCalls]
      by_cases hi : ((s.procs proc).allocations i).ptr = 0
      · refine List.mem_append_left _ ?_
        rw [hi, processFreeCalls_null hj h0]
        exact List.mem_singleton.2 rfl
      · have hne : i ≠ j := by
          rintro rfl
          exact hi h0
        obtain ⟨s₁, h₁⟩ := processFree_total ((s.procs proc).allocations i).ptr htask
        refine List.mem_append_right _ ?_
        rw [h₁]
        refine ih (by rw [processFree_task h₁]; exact htask) (by omega) (by omega) ?_
        rw [processFree_record h₁ (by rw [h0]; exact Ne.symm hi)]
        exact h0

/-- 終了の途中で、プロセスの読み込みの項目とページの表が保たれている。 -/
structure SameImage (s s' : Kernel) (proc entries : Word) (table : Nat → Word) : Prop where
  tasks : s'.tasks = s.tasks
  elfFiles : s'.elfFiles = s.elfFiles
  record : s'.procs proc = { s.procs proc with allocations := (s'.procs proc).allocations }
  pageDir : PageDir s'.words (s.tasks (s.procs proc).task).pageDir entries table

/-- 残った記録がどれも空でなければ、記録のアドレスを一度ずつ解放する。 -/
theorem Owned.processFreeAllocations_full {entries : Word} {table : Nat → Word} {k i : Nat} (ho : Owned who s live) (hw : who proc)
    (htask : (s.procs proc).task ≠ 0)
    (hdir : PageDir s.words (s.tasks (s.procs proc).task).pageDir entries table) (hik : i + k ≤ ENKI_MAX_PGM_ALLOCATIONS)
    (hne : ∀ j, i ≤ j → j < i + k → ((s.procs proc).allocations j).ptr ≠ 0) :
    processFreeAllocationsCalls proc k i s = (List.range' i k).map (fun j => ((s.procs proc).allocations j).ptr) ∧
      ∃ s', processFreeAllocations proc k i s = .ok s' ∧ SameImage s s' proc entries table := by
  induction k generalizing i s live with
  | zero => exact ⟨rfl, s, rfl, rfl, rfl, rfl, hdir⟩
  | succ k ih =>
      have hi : i < ENKI_MAX_PGM_ALLOCATIONS := by omega
      have hptr := hne i (Nat.le_refl i) (by omega)
      obtain ⟨hget, hcalls⟩ := ho.processFreeCalls_eq hw hi hptr
      have hmap := ho.freeMap_eq hw hi hptr
      obtain ⟨s₁, h₁⟩ := processFree_total ((s.procs proc).allocations i).ptr htask
      obtain ⟨htasks, helf, hrec⟩ := processFree_frame h₁
      have hs₁ : s₁ = EnkiOs.freeState s proc ((s.procs proc).allocations i).ptr ((s.procs proc).allocations i) := by
        rcases processFree_cases h₁ with ⟨hnone, -⟩ | ⟨alloc, hsome, -, hmade⟩
        · rw [hget] at hnone
          cases hnone
        · rw [hget] at hsome
          cases hsome
          rcases hmade with ⟨hneg, -⟩ | ⟨-, hs₁⟩
          · rw [hmap] at hneg
            exact absurd hneg (Int.lt_irrefl 0)
          · exact hs₁
      obtain ⟨m, a, -, -, ho₁⟩ := ho.freeState hw ((s.procs proc).allocations i) hi rfl hptr
      rw [← hs₁] at ho₁
      have hwords : s₁.words = (freeMap s proc ((s.procs proc).allocations i)).2 := by rw [hs₁]; rfl
      have hdir₁ : PageDir s₁.words (s₁.tasks (s₁.procs proc).task).pageDir entries table := by
        rw [hwords, hmap, htasks, processFree_task h₁]
        have hal := ho.pageAligned hw hi hptr
        exact (hdir.foldl_put _ fun x hx => pageMappings_aligned hal hal hx).1
      have hkeep : ∀ j, i < j → j < i + (k + 1) →
          (s₁.procs proc).allocations j = (s.procs proc).allocations j := by
        intro j h1 h2
        refine processFree_record h₁ ?_
        intro heq
        obtain ⟨-, hij⟩ := ho.distinct hw i hi hw j (by omega) hptr heq.symm
        omega
      obtain ⟨hcalls₁, s₂, h₂, hsame⟩ := ih (i := i + 1) ho₁ (by rw [processFree_task h₁]; exact htask) hdir₁
        (by omega) fun j h1 h2 => by rw [hkeep j (by omega) (by omega)]; exact hne j (by omega) (by omega)
      refine ⟨?_, s₂, bind_ok.2 ⟨s₁, h₁, h₂⟩, ?_⟩
      · rw [processFreeAllocationsCalls, hcalls, h₁, List.range'_succ, List.map_cons]
        simp only [hcalls₁, List.singleton_append, List.cons.injEq, true_and]
        apply List.map_congr_left
        intro j hj
        rw [List.mem_range'_1] at hj
        rw [hkeep j (by omega) (by omega)]
      · refine ⟨hsame.tasks.trans htasks, hsame.elfFiles.trans helf, ?_, ?_⟩
        · rw [hsame.record, hrec]
        · have hpage := hsame.pageDir
          rw [htasks, processFree_task h₁] at hpage
          exact hpage

/-! ## 終了 -/

theorem SameImage.releaseCalls_eq {entries : Word} {table : Nat → Word} (h : SameImage s s' proc entries table)
    (hdir : PageDir s.words (s.tasks (s.procs proc).task).pageDir entries table) :
    processReleaseCalls s' proc = processReleaseCalls s proc := by
  have htype : (s'.procs proc).fileType = (s.procs proc).fileType := by rw [h.record]
  have haddr : (s'.procs proc).addr = (s.procs proc).addr := by rw [h.record]
  have hdata : processFreePgmDataCalls s' proc = processFreePgmDataCalls s proc := by
    simp only [processFreePgmDataCalls, htype, haddr, h.elfFiles]
  have hresult : (processFreePgmData s' proc).1 = (processFreePgmData s proc).1 := by
    simp only [processFreePgmData, htype]
    split
    · rfl
    · split
      · rfl
      · rfl
  have hstack : (s'.procs proc).stack = (s.procs proc).stack := by rw [h.record]
  have htask : (s'.procs proc).task = (s.procs proc).task := by rw [h.record]
  rw [processReleaseCalls, processReleaseCalls, hdata, hresult, hstack, htask, h.tasks, h.pageDir.freeCalls_eq,
    hdir.freeCalls_eq]

/-- 終了が生きている割り当てだけを解放するのは、割り当ての表に空きが無いとき、そのときに限る。 -/
theorem Owned.terminate_iff (ho : Owned who s live) (hw : who proc) (hl : Loaded s proc) :
    FreesLive s.heap (processTerminateCalls s proc) ↔ TableFull s proc := by
  constructor
  · intro hf i hi h0
    refine hf.ne_zero ho.heap (List.mem_append_left _ ?_)
    exact zero_mem_processFreeAllocationsCalls hl.task_ne (Nat.zero_le i) (by omega) hi h0
  · intro hfull
    obtain ⟨entries, table, hdir⟩ := hl.pageDir
    obtain ⟨hcalls, s', h', hsame⟩ := ho.processFreeAllocations_full hw hl.task_ne hdir
      (k := ENKI_MAX_PGM_ALLOCATIONS) (i := 0) (by omega) fun j _ hj => hfull j (by omega)
    rw [processTerminateCalls, hcalls, h']
    simp only [hsame.releaseCalls_eq hdir]
    refine freesLive_of_nodup ho.heap ho.inv (List.nodup_append.2 ⟨?_, hl.nodup, ?_⟩) ?_
    · refine List.Nodup.map_on ?_ List.nodup_range'
      intro i hi j hj heq
      rw [List.mem_range'_1] at hi hj
      exact (ho.distinct hw i (by omega) hw j (by omega) (hfull i (by omega)) heq).2
    · intro x hx addr haddr
      obtain ⟨i, hi, rfl⟩ := List.mem_map.1 hx
      rw [List.mem_range'_1] at hi
      exact hl.apart addr haddr i (by omega)
    · intro addr haddr
      rcases List.mem_append.1 haddr with hx | hx
      · obtain ⟨i, hi, rfl⟩ := List.mem_map.1 hx
        rw [List.mem_range'_1] at hi
        obtain ⟨a, ha, heq, -⟩ := ho.owned hw i (by omega) (hfull i (by omega))
        exact ⟨a, ha, heq⟩
      · exact ho.inv.mem_of_liveAddr ho.heap (hl.live addr hx)

/-! ## 解放 -/

theorem Owned.free_iff (ho : Owned who s live) (hw : who proc) : FreeSound s proc toFree ↔ (toFree ≠ 0 ∨ TableFull s proc) := by
  constructor
  · intro hs
    by_contra hcond
    simp only [not_or, not_not, TableFull, not_forall] at hcond
    obtain ⟨rfl, i, hi, h0⟩ := hcond
    have hlive := hs.live
    rw [processFreeCalls_null hi h0] at hlive
    exact hlive.ne_zero ho.heap List.mem_cons_self
  · intro hcond
    by_cases hown : ∀ i < ENKI_MAX_PGM_ALLOCATIONS, ((s.procs proc).allocations i).ptr ≠ toFree
    · refine ⟨?_, fun _ => processFree_unowned hown⟩
      rw [processFreeCalls, processGetAllocation_of_ne hown]
      trivial
    · simp only [not_forall, not_not] at hown
      obtain ⟨i, hi, rfl⟩ := hown
      have hne : ((s.procs proc).allocations i).ptr ≠ 0 := by
        rcases hcond with hne | hfull
        · exact hne
        · exact hfull i hi
      refine ⟨?_, ?_⟩
      · obtain ⟨a, ha, haddr, -⟩ := ho.owned hw i hi hne
        rw [(ho.processFreeCalls_eq hw hi hne).2]
        refine freesLive_of_nodup ho.heap ho.inv (List.nodup_singleton _) ?_
        intro x hx
        rw [List.mem_singleton.1 hx]
        exact ⟨a, ha, haddr⟩
      · rintro (h0 | hno)
        · exact absurd h0 hne
        · exact absurd rfl (hno i hi)

/-- 大きさが 0 の割り当てを含まない実行で到達した状態では、`process_free` が生きている割り当てだけを解放するのは、
アドレスが 0 でないか、割り当ての表に空きが無いとき、そのときに限る。`process_terminate` では、割り当ての表に空きが
無いとき、そのときに限る。 -/
theorem freesLive_iff (hk : KernelHeap s.heap) (hg : Guarded s.heap) (hi : HeapInv s.heap live) (hempty : NoRecords s)
    (hr : SizedRun s s') :
    (∀ proc toFree, FreeSound s' proc toFree ↔ (toFree ≠ 0 ∨ TableFull s' proc)) ∧
      ∀ proc, Loaded s' proc → (FreesLive s'.heap (processTerminateCalls s' proc) ↔ TableFull s' proc) := by
  obtain ⟨⟨live', ho⟩, -⟩ := hr.owned (Owned.start hk hi fun proc _ => hempty proc) hg
  exact ⟨fun proc toFree => ho.free_iff trivial, fun proc hl => ho.terminate_iff trivial hl⟩

/-! ## 一つのプロセスを読み込んだカーネル

番号 0 に本体、1 から 4 にスタック、5 にタスク、6 にディレクトリ、7 から 1030 にテーブル、1031 に
`struct paging_page_dir` を置く。 -/

/-- 一ブロックの割り当てを続ける。 -/
def allocateBlocks : Nat → Heap → Heap
  | 0, h => h
  | n + 1, h => allocateBlocks n (kzalloc h 4096).2

theorem Packed.kzalloc_live {h : Heap} {b : Nat} (hp : Packed h b) (hi : HeapInv h live) (size : Word)
    (hpos : 0 < size.toNat) (hfit : b + blocksFor size ≤ 25600) :
    ∃ live', HeapInv (EnkiOs.kzalloc h size.toNat).2 live' ∧ (∀ a ∈ live, a ∈ live') ∧ ∃ a ∈ live', a.addr = blockAddr b := by
  have hrun : h.table.HasRun (blocksFor size) :=
    ⟨b, by rw [hp.length_eq]; exact hfit, fun j h1 h2 => hp.vacant j h1 (by omega)⟩
  have hblocks : blocksFor size = (size.toNat + 4095) / 4096 := rfl
  have haddr := (hp.kzalloc hpos (by omega) (by omega)).1
  exact ⟨_, hi.kzalloc_live hp.toKernelHeap hpos hrun, fun a ha => List.mem_cons_of_mem _ ha, _, List.mem_cons_self, haddr⟩

theorem Packed.allocateBlocks {h : Heap} {b n : Nat} (hp : Packed h b) (hi : HeapInv h live) (hfit : b + n ≤ 25600) :
    Packed (EnkiOs.allocateBlocks n h) (b + n) ∧ ∃ live', HeapInv (EnkiOs.allocateBlocks n h) live' ∧
      (∀ a ∈ live, a ∈ live') ∧ ∀ j, b ≤ j → j < b + n → ∃ a ∈ live', a.addr = blockAddr j := by
  induction n generalizing h b live with
  | zero => exact ⟨hp, live, hi, fun _ ha => ha, fun j h1 h2 => by omega⟩
  | succ n ih =>
      obtain ⟨live₁, hi₁, hsub₁, a, ha, haddr⟩ := hp.kzalloc_live hi 4096 (by decide)
        (show b + 1 ≤ 25600 by omega)
      obtain ⟨h₁, hk₁, -, hp₁⟩ := hp.small (show 0 < 4096 by decide) (by decide) (by omega)
      rw [show (4096 : Word).toNat = 4096 from rfl, hk₁] at hi₁
      obtain ⟨hp₂, live₂, hi₂, hsub₂, hall⟩ := ih hp₁ hi₁ (by omega)
      rw [EnkiOs.allocateBlocks, hk₁, show b + (n + 1) = b + 1 + n by omega]
      refine ⟨hp₂, live₂, hi₂, fun x hx => hsub₂ x (hsub₁ x hx), ?_⟩
      intro j h1 h2
      by_cases hj : j = b
      · rw [hj]
        exact ⟨a, hsub₂ a ha, haddr⟩
      · exact hall j (by omega) (by omega)

theorem allocateBlocks_kept {P : Heap → Prop} {Q : Word → Prop} (hkept : HeapKept P Q) (n : Nat) {h : Heap} (hp : P h) :
    P (allocateBlocks n h) := by
  induction n generalizing h with
  | zero => exact hp
  | succ n ih => exact ih (hkept.kzalloc 4096 hp).1

def loadedWords : Words := fun a =>
  if a = blockAddr 1031 then blockAddr 6
  else if (a - blockAddr 6).toNat < 4096 then blockAddr (7 + (a - blockAddr 6).toNat / 4) ||| 7
  else 0

def loadedHeap : Heap := allocateBlocks 1027 (kzalloc (kzalloc bootHeap 1).2 16384).2

def loadedKernel : Kernel :=
  { Kernel.boot bareState with
    heap := loadedHeap
    words := loadedWords
    tasks := fun _ => { pageDir := blockAddr 1031 }
    procs := fun _ => { fileType := PROCESS_FILE_TYPE_BIN, task := blockAddr 5, addr := blockAddr 0, stack := blockAddr 1 } }

theorem loadedKernel_heap : KernelHeap loadedKernel.heap ∧ Guarded loadedKernel.heap ∧
    ∃ live, HeapInv loadedKernel.heap live ∧ ∀ j < 1032, j ∉ [2, 3, 4] → ∃ a ∈ live, a.addr = blockAddr j := by
  obtain ⟨-, hg, hi, -⟩ := idleKernel_heap
  obtain ⟨live₁, hi₁, -, a₁, ha₁, haddr₁⟩ := bootHeap_packed.kzalloc_live hi 1 (by decide) (by decide)
  obtain ⟨h₁, hk₁, -, hp₁⟩ := bootHeap_packed.small (show 0 < 1 by decide) (by decide) (by decide)
  rw [show (1 : Word).toNat = 1 from rfl, hk₁] at hi₁
  obtain ⟨live₂, hi₂, hsub₂, a₂, ha₂, haddr₂⟩ := hp₁.kzalloc_live hi₁ 16384 (by decide) (by decide)
  obtain ⟨-, hp₂⟩ := hp₁.kzalloc (show 0 < 16384 by decide) (by decide) (by decide)
  obtain ⟨hp, live, hi, hsub, hall⟩ := hp₂.allocateBlocks hi₂ (n := 1027) (by decide)
  have hheap : loadedKernel.heap = loadedHeap := by simp only [loadedKernel]
  rw [hheap, loadedHeap, hk₁]
  refine ⟨hp.toKernelHeap, ?_, live, hi, ?_⟩
  · have hkept₁ := (guarded_kept.kzalloc 1 ⟨bootHeap_packed.toKernelHeap, hg⟩).1
    rw [hk₁] at hkept₁
    exact (allocateBlocks_kept guarded_kept 1027 (guarded_kept.kzalloc 16384 hkept₁).1).2
  · intro j hj hne
    simp only [List.mem_cons, List.not_mem_nil, or_false, not_or] at hne
    by_cases h0 : j = 0
    · rw [h0]
      exact ⟨a₁, hsub a₁ (hsub₂ a₁ ha₁), haddr₁⟩
    · by_cases h1 : j = 1
      · rw [h1]
        exact ⟨a₂, hsub a₂ ha₂, haddr₂⟩
      · exact hall j (by omega) (by omega)

theorem loadedWords_pageDir : PageDir loadedWords (blockAddr 1031) (blockAddr 6) fun i => blockAddr (7 + i) where
  dir_eq := if_pos rfl
  dirEntry := by
    intro i hi
    have hto := entryAddr_toNat (pageAligned_blockAddr (b := 6) (by decide)) hi
    have h6 := blockAddr_toNat (b := 6) (by decide)
    have hne : entryAddr (blockAddr 6) (BitVec.ofNat 32 i) ≠ blockAddr 1031 := by
      intro heq
      have hd := blockAddr_toNat (b := 1031) (by decide)
      rw [← heq, hto] at hd
      omega
    have hoff : (entryAddr (blockAddr 6) (BitVec.ofNat 32 i) - blockAddr 6).toNat = 4 * i := by
      rw [BitVec.toNat_sub, hto]
      omega
    rw [loadedWords, if_neg hne, if_pos (by rw [hoff]; omega), hoff, Nat.mul_div_cancel_left _ (by decide)]
    exact (pageAligned_blockAddr (by omega)).and_mask (by decide)
  dir_aligned := pageAligned_blockAddr (by decide)
  entries_aligned := pageAligned_blockAddr (by decide)
  table_aligned := fun i hi => pageAligned_blockAddr (by omega)
  table_inj := by
    intro i hi j hj heq
    have := blockAddr_inj (by omega) (by omega) heq
    omega
  table_ne_entries := by
    intro i hi heq
    have := blockAddr_inj (by omega) (by decide) heq
    omega
  table_ne_dir := by
    intro i hi heq
    have := blockAddr_inj (by omega) (by decide) heq
    omega

/-- 終了のときに、割り当ての表の後で解放する番号。 -/
def loadedBlocks : List Nat := 0 :: 1 :: List.range' 7 1024 ++ [6, 1031, 5]

theorem mem_loadedBlocks {j : Nat} (hj : j ∈ loadedBlocks) : j < 1032 ∧ j ∉ [2, 3, 4] := by
  simp only [loadedBlocks, List.mem_append, List.mem_cons, List.mem_range'_1, List.not_mem_nil, or_false] at hj ⊢
  omega

theorem nodup_loadedBlocks : loadedBlocks.Nodup := by
  refine List.nodup_append.2 ⟨?_, by decide, ?_⟩
  · simp [List.nodup_range']
  · intro i hi j hj
    simp only [List.mem_cons, List.mem_range'_1, List.not_mem_nil, or_false] at hi hj
    omega

theorem loadedKernel_calls (proc : Word) : processReleaseCalls loadedKernel proc =
    loadedBlocks.map blockAddr := by
  have hcalls : pagingFreeCalls loadedKernel.words (blockAddr 1031) = _ := loadedWords_pageDir.freeCalls_eq
  have hrelease : processReleaseCalls loadedKernel proc =
      blockAddr 0 :: blockAddr 1 :: (pagingFreeCalls loadedKernel.words (blockAddr 1031) ++ [blockAddr 5]) := rfl
  rw [hrelease, hcalls, loadedBlocks, List.range'_eq_map_range]
  simp only [List.map_append, List.map_cons, List.map_map, List.map_nil, List.append_assoc, List.cons_append,
    List.nil_append, Function.comp_def]

theorem loadedKernel_loaded (proc : Word) : Loaded loadedKernel proc where
  task_ne := blockAddr_ne_zero (by decide)
  pageDir := ⟨_, _, loadedWords_pageDir⟩
  released := Int.le_refl 0
  nodup := by
    rw [loadedKernel_calls]
    refine List.Nodup.map_on ?_ nodup_loadedBlocks
    intro i hi j hj heq
    have h1 := (mem_loadedBlocks hi).1
    have h2 := (mem_loadedBlocks hj).1
    exact blockAddr_inj (by omega) (by omega) heq
  live := by
    obtain ⟨-, -, live, hi, hall⟩ := loadedKernel_heap
    intro addr haddr
    rw [loadedKernel_calls] at haddr
    obtain ⟨j, hj, rfl⟩ := List.mem_map.1 haddr
    obtain ⟨hlt, hne⟩ := mem_loadedBlocks hj
    exact ⟨live, hi, hall j hlt hne⟩
  apart := by
    intro addr haddr i _ heq
    rw [loadedKernel_calls] at haddr
    obtain ⟨j, hj, rfl⟩ := List.mem_map.1 haddr
    have hlt := (mem_loadedBlocks hj).1
    exact blockAddr_ne_zero (by omega) heq.symm

/-- 割り当ての表が空のプロセスを終了すると、生きていないアドレスを解放する。空でないアドレスの `process_free` は正しい。 -/
theorem freesLive_iff_loaded : Loaded loadedKernel 0x00110000 ∧
    ¬FreesLive loadedKernel.heap (processTerminateCalls loadedKernel 0x00110000) ∧
    FreeSound loadedKernel 0x00110000 0x01000000 := by
  obtain ⟨hk, hg, live, hi, -⟩ := loadedKernel_heap
  have hl := loadedKernel_loaded 0x00110000
  obtain ⟨hfree, hterminate⟩ := freesLive_iff hk hg hi (s := loadedKernel) (fun _ _ _ => rfl) .refl
  refine ⟨hl, ?_, (hfree _ _).2 (.inl (by decide))⟩
  rw [hterminate _ hl]
  intro hfull
  exact hfull 0 (by decide) rfl

/-- 空の表を持つプロセスが空のアドレスを解放すると、生きている割り当てではないアドレス 0 を `heap_free` に渡す。 -/
theorem freesLive_fails_null : KernelHeap idleKernel.heap ∧ Guarded idleKernel.heap ∧ HeapInv idleKernel.heap [] ∧
    NoRecords idleKernel ∧ SizedRun idleKernel idleKernel ∧ processFreeCalls idleKernel 0x00110000 0 = [0] ∧
    heapFreeWrites idleKernel.heap 0 = [-4096] ∧ ¬FreeSound idleKernel 0x00110000 0 := by
  obtain ⟨hk, hg, hi, hempty⟩ := idleKernel_heap
  have hcalls : processFreeCalls idleKernel 0x00110000 0 = [0] := processFreeCalls_null (j := 0) (by decide) rfl
  refine ⟨hk, hg, hi, hempty, .refl, hcalls, ?_, ?_⟩
  · rw [heapFreeWrites, hk.addressToBlock, blockOf_zero]
    rfl
  · intro hs
    have hlive := hs.live
    rw [hcalls] at hlive
    exact hlive.ne_zero hk List.mem_cons_self

end EnkiOs
