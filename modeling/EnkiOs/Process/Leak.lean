import EnkiOs.Heap.Keeps
import EnkiOs.Process.FreesTheorems
import EnkiOs.Process.Kept
import EnkiOs.Process.PageTheorems

/-!
# 終了しても返らないブロック

`process_load_slot` はプロセスの記録のために三ブロックを割り当てるが、`process_terminate` はそれを解放しない。
読み込みから終了までに解放するアドレスは、どれも記録のブロックのものではない。
-/

namespace EnkiOs
open Machine

variable {s s' : Kernel} {proc ptr size toFree entries : Word} {table : Nat → Word}

/-! ## ページの表の形は保たれる -/

theorem processMapElfLoop_pageDir {mem : Memory} {file : ElfFile} {dir : Word} {k i : Nat} {result : Int} {words : Words}
    (h : PageDir words dir entries table) :
    PageDir (processMapElfLoop mem file dir k i result words).2 dir entries table := by
  induction k generalizing i result words with
  | zero => exact h
  | succ k ih =>
      have hstep : PageDir (processMapPhdr words dir file (elfProgramHeader mem file.elfMemory i)).2 dir entries table :=
        h.mapTo _ _ _ _
      rw [processMapElfLoop]
      simp only
      split
      · exact hstep
      · exact ih hstep

theorem processMapImage_pageDir {p : Process} {dir : Word} {result : Int} {words : Words}
    (h : PageDir s.words dir entries table) (hmap : processMapImage s p dir = .ok (result, words)) :
    PageDir words dir entries table := by
  rw [processMapImage] at hmap
  split at hmap
  · cases hmap
    exact h.mapTo _ _ _ _
  · split at hmap
    · obtain ⟨-, rfl⟩ := Prod.mk.inj (Except.ok.inj hmap)
      exact processMapElfLoop_pageDir h
    · cases hmap

theorem processFree_sameImage (h : processFree s proc toFree = .ok s')
    (hdir : PageDir s.words (s.tasks (s.procs proc).task).pageDir entries table) : SameImage s s' proc entries table := by
  obtain ⟨htasks, hfiles, hrec⟩ := processFree_frame h
  refine ⟨htasks, hfiles, hrec, ?_⟩
  rcases processFree_cases h with ⟨-, hs'⟩ | ⟨alloc, -, -, ⟨-, hs'⟩ | ⟨-, hs'⟩⟩
  · rw [hs']
    exact hdir
  · rw [hs']
    exact hdir.mapTo _ _ _ _
  · rw [hs']
    exact hdir.mapTo _ _ _ _

/-- 割り当てが変えるのは、ヒープと、割り当てたメモリ、ページの表、割り当ての表だけである。 -/
theorem processMalloc_frame (h : processMalloc s proc size = .ok (ptr, s')) :
    s'.tasks = s.tasks ∧ s'.elfFiles = s.elfFiles ∧
      s'.procs proc = { s.procs proc with allocations := (s'.procs proc).allocations } ∧
      (s'.words = s.words ∨ s'.words = (mallocMap s proc (kzalloc s.heap size.toNat).1 size).2) := by
  simp only [processMalloc, kzallocBytes] at h
  split at h
  · cases h
    exact ⟨rfl, rfl, rfl, .inl rfl⟩
  · split at h
    · cases h
      exact ⟨rfl, rfl, rfl, .inl rfl⟩
    · obtain ⟨dir, hdir, h⟩ := bind_ok.1 h
      simp only [processPageDir] at hdir
      split at hdir
      · cases hdir
      · cases hdir
        split at h
        · cases h
          exact ⟨rfl, rfl, rfl, .inr rfl⟩
        · cases h
          exact ⟨rfl, rfl, by simp [Kernel.setProc], .inr rfl⟩

theorem processMalloc_registry (h : processMalloc s proc size = .ok (ptr, s')) : SameRegistry s s' proc := by
  have hid : (s'.procs proc).id = (s.procs proc).id := by rw [(processMalloc_frame h).2.2.1]
  simp only [processMalloc, kzallocBytes] at h
  split at h
  · cases h
    exact ⟨rfl, rfl, hid⟩
  · split at h
    · cases h
      exact ⟨rfl, rfl, hid⟩
    · obtain ⟨dir, -, h⟩ := bind_ok.1 h
      split at h
      · cases h
        exact ⟨rfl, rfl, hid⟩
      · cases h
        exact ⟨rfl, rfl, hid⟩

theorem processMalloc_sameImage (h : processMalloc s proc size = .ok (ptr, s'))
    (hdir : PageDir s.words (s.tasks (s.procs proc).task).pageDir entries table) : SameImage s s' proc entries table := by
  obtain ⟨htasks, hfiles, hrec, hwords⟩ := processMalloc_frame h
  refine ⟨htasks, hfiles, hrec, ?_⟩
  rcases hwords with hwords | hwords
  · rw [hwords]
    exact hdir
  · rw [hwords]
    exact hdir.mapTo _ _ _ _

/-! ## 解放するアドレス -/

/-- プロセスの記録にあるアドレスと、終了のときに解放するアドレスが、どれも `Q` を満たす。 -/
structure ReleasesIn (Q : Word → Prop) (s : Kernel) (proc entries : Word) (table : Nat → Word) : Prop where
  records : ∀ i < ENKI_MAX_PGM_ALLOCATIONS, Q ((s.procs proc).allocations i).ptr
  pageDir : PageDir s.words (s.tasks (s.procs proc).task).pageDir entries table
  release : ∀ addr ∈ processReleaseCalls s proc, Q addr

variable {P : Heap → Prop} {Q : Word → Prop} (hkept : HeapKept P Q)

theorem ReleasesIn.step (hr : ReleasesIn Q s proc entries table) (hsame : SameImage s s' proc entries table)
    (hrec : ∀ i < ENKI_MAX_PGM_ALLOCATIONS, Q ((s'.procs proc).allocations i).ptr) :
    ReleasesIn Q s' proc entries table := by
  refine ⟨hrec, ?_, ?_⟩
  · have htask : (s'.procs proc).task = (s.procs proc).task := by rw [hsame.record]
    rw [hsame.tasks, htask]
    exact hsame.pageDir
  · rw [hsame.releaseCalls_eq hr.pageDir]
    exact hr.release

theorem ReleasesIn.free (hr : ReleasesIn Q s proc entries table) (hnull : Q 0) (h : processFree s proc toFree = .ok s') :
    ReleasesIn Q s' proc entries table := by
  refine hr.step (processFree_sameImage h hr.pageDir) ?_
  intro i hi
  rcases processFree_cases h with ⟨-, hs'⟩ | ⟨alloc, -, -, ⟨-, hs'⟩ | ⟨-, hs'⟩⟩
  · rw [hs']
    exact hr.records i hi
  · rw [hs']
    exact hr.records i hi
  · by_cases h0 : ((s'.procs proc).allocations i).ptr = 0
    · rw [h0]
      exact hnull
    · rw [hs'] at h0 ⊢
      rw [(freeState_record hi h0).1]
      exact hr.records i hi

/-- 解放の呼び出しは、記録にあるアドレスに対するものである。 -/
theorem ReleasesIn.freeCalls (hr : ReleasesIn Q s proc entries table) {addr : Word}
    (haddr : addr ∈ processFreeCalls s proc toFree) : Q addr := by
  rw [processFreeCalls] at haddr
  split at haddr
  · cases haddr
  · rename_i alloc hget
    split at haddr
    · cases haddr
    · obtain ⟨j, hj, heq, hptr⟩ := processGetAllocation_some hget
      rw [List.mem_singleton.1 haddr, ← hptr, ← heq]
      exact hr.records j hj

theorem ReleasesIn.freeAllocationsCalls {k i : Nat} (hr : ReleasesIn Q s proc entries table) (hnull : Q 0) {addr : Word}
    (haddr : addr ∈ processFreeAllocationsCalls proc k i s) : Q addr := by
  induction k generalizing i s with
  | zero => cases haddr
  | succ k ih =>
      rw [processFreeAllocationsCalls] at haddr
      rcases List.mem_append.1 haddr with h1 | h1
      · exact hr.freeCalls h1
      · split at h1
        · rename_i s₁ hfree
          exact ih (hr.free hnull hfree) h1
        · cases h1

theorem ReleasesIn.freeAllocations {k i : Nat} (hr : ReleasesIn Q s proc entries table) (hnull : Q 0)
    (h : processFreeAllocations proc k i s = .ok s') : ReleasesIn Q s' proc entries table := by
  induction k generalizing i s with
  | zero =>
      cases h
      exact hr
  | succ k ih =>
      obtain ⟨s₁, hfree, h⟩ := bind_ok.1 h
      exact ih (hr.free hnull hfree) h

theorem ReleasesIn.terminateCalls (hr : ReleasesIn Q s proc entries table) (hnull : Q 0) {addr : Word}
    (haddr : addr ∈ processTerminateCalls s proc) : Q addr := by
  rcases List.mem_append.1 haddr with h1 | h1
  · exact hr.freeAllocationsCalls hnull h1
  · split at h1
    · rename_i s₁ hfree
      exact (hr.freeAllocations hnull hfree).release addr h1
    · cases h1

theorem foldl_kfree_kept (hkept : HeapKept P Q) {h : Heap} {calls : List Word} (hp : P h) (hq : ∀ a ∈ calls, Q a) :
    P (calls.foldl kfree h) := by
  induction calls generalizing h with
  | nil => exact hp
  | cons a calls ih =>
      exact ih (hkept.kfree hp (hq a List.mem_cons_self)) fun x hx => hq x (List.mem_cons_of_mem _ hx)

/-! ## 呼び出しの列 -/

/-- プロセスの、どの大きさの割り当てとどのアドレスの解放でもよい列。 -/
def CallRun (proc : Word) : Kernel → Kernel → Prop := Relation.ReflTransGen fun s s' =>
  (∃ size ptr, processMalloc s proc size = .ok (ptr, s')) ∨ ∃ toFree, processFree s proc toFree = .ok s'

include hkept in
theorem ReleasesIn.malloc (hr : ReleasesIn Q s proc entries table) (hp : P s.heap)
    (h : processMalloc s proc size = .ok (ptr, s')) : ReleasesIn Q s' proc entries table := by
  refine hr.step (processMalloc_sameImage h hr.pageDir) ?_
  intro i hi
  rcases processMalloc_cases h with ⟨-, -, hs'⟩ | ⟨-, -, -, hprocs, -, -⟩ | ⟨-, -, -, -, idx, -, hs'⟩
  · rw [hs', Kernel.setHeap_procs]
    exact hr.records i hi
  · rw [hprocs]
    exact hr.records i hi
  · rw [hs']
    rcases mallocState_record s proc size idx proc i with ⟨-, -, heq⟩ | ⟨-, heq⟩
    · rw [heq]
      exact (hkept.kzalloc _ hp).2
    · rw [heq]
      exact hr.records i hi

include hkept in
theorem CallRun.releasesIn (hrun : CallRun proc s s') (hp : P s.heap) (hr : ReleasesIn Q s proc entries table) :
    P s'.heap ∧ ReleasesIn Q s' proc entries table := by
  induction hrun with
  | refl => exact ⟨hp, hr⟩
  | tail _ hstep ih =>
      obtain ⟨hp', hr'⟩ := ih
      rcases hstep with ⟨size, ptr, h⟩ | ⟨toFree, h⟩
      · exact ⟨processMalloc_kept hkept hp' h, hr'.malloc hkept hp' h⟩
      · refine ⟨?_, hr'.free hkept.null h⟩
        rw [processFree_heap h]
        exact foldl_kfree_kept hkept hp' fun a ha => hr'.freeCalls ha

/-- 呼び出しの列は、登録されたプロセスを変えない。 -/
theorem CallRun.registry (hrun : CallRun proc s s') : SameRegistry s s' proc := by
  induction hrun with
  | refl => exact ⟨rfl, rfl, rfl⟩
  | tail _ hstep ih =>
      refine ih.trans ?_
      rcases hstep with ⟨size, ptr, h⟩ | ⟨toFree, h⟩
      · exact processMalloc_registry h
      · exact processFree_registry h

/-! ## 読み込み -/

theorem IsErrorPointer.elsewhere {a : Word} (ha : IsErrorPointer a) (b : Nat) : Elsewhere b a := by
  refine elsewhere_of_le ?_
  rcases ha with rfl | rfl | rfl
  · decide
  · decide
  · decide

/-- 読み込んだ直後の、記録のブロックと、終了のときに解放するアドレス。 -/
theorem processLoadSlot_releases {depth : Nat} {fileName : List Byte} {slot result : Int} (hk : KernelHeap s.heap)
    (hends : FreeAfterEnd s.heap) (hg : Guarded s.heap)
    (hstray : ∀ a, IsErrorPointer a → (s.fatFiles a).item = ⟨0, .file none⟩)
    (h : processLoadSlot depth s fileName slot = .ok (result, proc, s')) (hresult : 0 ≤ result) :
    ∃ b entries table, b < 25600 ∧ s.heap.table.freeAt b = true ∧ Held b s'.heap ∧
      ReleasesIn (Elsewhere b) s' proc entries table := by
  obtain ⟨s₁, t, dir, heap₁, words, words₁, hprep, -, hkt, hpaging, -, hfiles, hproc, hdir, himg, hwords⟩ :=
    processLoadSlotWith_state h hresult
  obtain ⟨heap, code, s₂, stack, s₃, hmade, hne, hload, hcode, hstack, -, hs₁⟩ := processPrepareWith_ok hprep
  obtain ⟨b, hb, -, hfree, hheld⟩ := held_of_kzalloc hk hends hg (by decide) (by decide) hmade hne
  have hkept := held_kept b
  have hret : ∀ {h : Heap} (n : Nat), Held b h → Elsewhere b (kzalloc h n).1 := fun n hp => (hkept.kzalloc n hp).2
  have hsafe : StraySafe (Elsewhere b) ((s.setHeap heap).setProc proc {}).toFileState := by
    intro a ha
    refine ⟨ha.elsewhere b, ?_⟩
    have hitem : (((s.setHeap heap).setProc proc {}).fatFiles a).item = ⟨0, .file none⟩ := hstray a ha
    rw [hitem]
    exact ⟨hkept.null, trivial⟩
  obtain ⟨hheld₂, himage⟩ := processLoadData_kept hkept hret (by exact hheld) hsafe (fun _ ha => ha) hload
  obtain ⟨hheld₃, hstackQ, heap₃, mem₃, hs₃⟩ := kzallocBytes_kept hkept hret hheld₂ hstack
  obtain ⟨haddr, hmemory⟩ := himage hcode
  have halloc : (s₂.procs proc).allocations = fun _ => {} := by
    obtain ⟨fs, files, p, rfl, -, hp⟩ := processLoadData_frame hload
    simpa [Kernel.setProc] using hp
  have hprocs₁ : s₁.procs proc = { s₂.procs proc with
      stack := stack, fileName := fileName.take (ENKI_MAX_PATH - 1), id := BitVec.ofInt 16 slot } := by
    rw [hs₁, hs₃]
    simp [Kernel.setProc]
  have hfiles₁ : s₁.elfFiles = s₂.elfFiles := by
    rw [hs₁, hs₃]
    rfl
  have hheld₁ : Held b s₁.heap := by
    rw [hs₁]
    exact hheld₃
  have htaskQ := hkept.kzalloc TASK_SIZE hheld₁
  rw [hkt] at htaskQ
  obtain ⟨-, hheld', entries, table, hpage, -, hdirQ, hentriesQ, htableQ⟩ :=
    pagingNew_pageDir hkept htaskQ.1.toKernelHeap htaskQ.1 hpaging
  have htask : (s'.procs proc).task = t := by rw [hproc]
  have hpage' : PageDir s'.words (s'.tasks (s'.procs proc).task).pageDir entries table := by
    rw [htask, hdir, hwords, processMapStack]
    exact (processMapImage_pageDir (s := { s₁ with words := words }) hpage himg).mapTo _ _ _ _
  refine ⟨b, entries, table, hb, hfree, hheld', ?_, hpage', ?_⟩
  · intro i _
    rw [hproc, hprocs₁]
    simp only [halloc]
    exact hkept.null
  · intro addr hmem
    rcases mem_processReleaseCalls hpage' hmem with rfl | ⟨htype, rfl⟩ | rfl | rfl | rfl | rfl | ⟨i, hi, rfl⟩
    · rw [hproc, hprocs₁]
      exact haddr
    · rw [hproc, hprocs₁] at htype ⊢
      rw [hfiles, hfiles₁]
      exact (hmemory htype).1
    · rw [hproc, hprocs₁]
      exact hstackQ
    · rw [htask]
      exact htaskQ.2
    · rw [htask, hdir]
      exact hdirQ
    · exact hentriesQ
    · exact htableQ i hi

/-! ## 終了 -/

section

variable {terminate : Kernel → Word → Except Fault (Int × Kernel)}

/-- ほかのプロセスが登録されていれば、切り替えるだけである。 -/
theorem processSwitchToAny_heap {k : Nat} {i j : Int} (hij : i ≤ j) (hjk : j < i + k) (hj : s.processes j ≠ 0)
    (h : processSwitchToAnyWith terminate s k i = .ok s') : s'.heap = s.heap := by
  induction k generalizing i with
  | zero => omega
  | succ k ih =>
      rw [processSwitchToAnyWith] at h
      split at h
      · cases h
        rfl
      · rename_i h0
        have hne : i ≠ j := by
          rintro rfl
          exact h0 hj
        exact ih (by omega) (by omega) h

/-- `proc` を外した後に、新しいシェルを読み込まない。 -/
def NoShell (s : Kernel) (proc : Word) : Prop :=
  s.processCurrent ≠ proc ∨ ∃ i, 0 ≤ i ∧ i < ENKI_MAX_PROCESSES ∧ i ≠ (s.procs proc).id.toNat ∧ s.processes i ≠ 0

theorem processUnlink_heap (hother : NoShell s proc) (h : processUnlinkWith terminate s proc = .ok s') :
    s'.heap = s.heap := by
  simp only [processUnlinkWith] at h
  split at h
  · rename_i hcur
    obtain ⟨i, h1, h2, hid, hne⟩ := hother.resolve_left fun hne => hne hcur
    have hlt : i < 0 + (12 : Nat) := by
      rw [show ENKI_MAX_PROCESSES = 12 from rfl] at h2
      omega
    have hkeep : (if i = ((s.procs proc).id.toNat : Int) then 0 else s.processes i) ≠ 0 := by
      rw [if_neg hid]
      exact hne
    exact processSwitchToAny_heap (s := { s with
      processes := fun i => if i = ((s.procs proc).id.toNat : Int) then 0 else s.processes i }) h1 hlt hkeep h
  · cases h
    rfl

end

/-- 塞がったブロックの集まりが同じである。 -/
def SameTaken (h h' : Heap) : Prop := ∀ b < 25600, h'.table.freeAt b = h.table.freeAt b

/-- 記録のブロックは、読み込みの前には空いていて、終了の後には塞がっている。 -/
theorem record_stays {depth depth' : Nat} {fileName : List Byte} {slot result code : Int} {s₁ s₂ s₃ : Kernel}
    (hk : KernelHeap s.heap) (hends : FreeAfterEnd s.heap) (hg : Guarded s.heap)
    (hstray : ∀ a, IsErrorPointer a → (s.fatFiles a).item = ⟨0, .file none⟩)
    (hload : processLoadSlot depth s fileName slot = .ok (result, proc, s₁)) (hresult : 0 ≤ result)
    (hrun : CallRun proc s₁ s₂) (hother : NoShell s₂ proc)
    (hterm : processTerminate depth' s₂ proc = .ok (code, s₃)) :
    ∃ b < 25600, s.heap.table.freeAt b = true ∧ s₃.heap.table.freeAt b = false := by
  obtain ⟨b, entries, table, hb, hfree, hheld, hrel⟩ := processLoadSlot_releases hk hends hg hstray hload hresult
  have hkept := held_kept b
  obtain ⟨hheld₂, hrel₂⟩ := hrun.releasesIn hkept hheld hrel
  cases depth' with
  | zero => cases hterm
  | succ d =>
      obtain ⟨s', hheap, hreg, hend⟩ := processTerminate_calls hterm
      have hheld' : Held b s'.heap := by
        rw [hheap]
        exact foldl_kfree_kept hkept hheld₂ fun a ha => hrel₂.terminateCalls hkept.null ha
      have hother' : NoShell s' proc := by
        rw [NoShell, hreg.current, hreg.processes, hreg.id]
        exact hother
      refine ⟨b, hb, hfree, ?_⟩
      rcases hend with rfl | hunlink
      · exact hheld'.taken
      · rw [processUnlink_heap hother' hunlink]
        exact hheld'.taken

/-- 読み込んだプロセスを、どのような割り当てと解放の後に終了しても、塞がったブロックの集まりは読み込みの前に戻らない。 -/
theorem not_sameTaken_of_terminate {depth depth' : Nat} {fileName : List Byte} {slot result code : Int}
    {s₁ s₂ s₃ : Kernel} (hk : KernelHeap s.heap) (hends : FreeAfterEnd s.heap) (hg : Guarded s.heap)
    (hstray : ∀ a, IsErrorPointer a → (s.fatFiles a).item = ⟨0, .file none⟩)
    (hload : processLoadSlot depth s fileName slot = .ok (result, proc, s₁)) (hresult : 0 ≤ result)
    (hrun : CallRun proc s₁ s₂) (hother : NoShell s₂ proc)
    (hterm : processTerminate depth' s₂ proc = .ok (code, s₃)) : ¬SameTaken s.heap s₃.heap := by
  obtain ⟨b, hb, hfree, htaken⟩ := record_stays hk hends hg hstray hload hresult hrun hother hterm
  intro hsame
  have heq := hsame b hb
  rw [htaken, hfree] at heq
  cases heq

/-! ## 起動の直後の読み込みと終了 -/

theorem processFreeAllocations_total {k i : Nat} (htask : (s.procs proc).task ≠ 0) :
    ∃ s', processFreeAllocations proc k i s = .ok s' ∧ (s'.procs proc).task = (s.procs proc).task ∧
      (s'.procs proc).fileType = (s.procs proc).fileType := by
  induction k generalizing i s with
  | zero => exact ⟨s, rfl, rfl, rfl⟩
  | succ k ih =>
      obtain ⟨s₁, h₁⟩ := processFree_total ((s.procs proc).allocations i).ptr htask
      have htask₁ := processFree_task h₁
      have htype₁ : (s₁.procs proc).fileType = (s.procs proc).fileType := by rw [(processFree_frame h₁).2.2]
      obtain ⟨s₂, h₂, htask₂, htype₂⟩ := ih (i := i + 1) (by rw [htask₁]; exact htask)
      exact ⟨s₂, bind_ok.2 ⟨s₁, h₁, h₂⟩, htask₂.trans htask₁, htype₂.trans htype₁⟩

/-- 動いていない、ELF ファイルのプロセスの終了は、必ず成功する。 -/
theorem processTerminate_total (depth : Nat) (htask : (s.procs proc).task ≠ 0)
    (htype : (s.procs proc).fileType = PROCESS_FILE_TYPE_ELF) (hcur : s.processCurrent ≠ proc) :
    ∃ s', processTerminate (depth + 1) s proc = .ok (0, s') := by
  obtain ⟨s₁, h₁, htask₁, htype₁⟩ := processFreeAllocations_total (k := ENKI_MAX_PGM_ALLOCATIONS) (i := 0) htask
  have hreg₁ := processFreeAllocations_registry h₁
  have hdata : processFreePgmData s₁ proc = (0, elfClose s₁ (s₁.procs proc).addr) := by
    rw [processFreePgmData, htype₁, htype]
    rfl
  have hclose := processFreePgmData_heap s₁ proc
  rw [hdata] at hclose
  obtain ⟨heap₂, hheap₂⟩ : ∃ heap₂, heap₂ = (processFreePgmDataCalls s₁ proc).foldl kfree s₁.heap := ⟨_, rfl⟩
  rw [← hheap₂] at hclose
  simp only at hclose
  obtain ⟨s₂, h₂⟩ := taskFree_total (s := (s₁.setHeap heap₂).setHeap (kfree heap₂ (s₁.procs proc).stack))
    (show (s₁.procs proc).task ≠ 0 by rw [htask₁]; exact htask)
  obtain ⟨-, -, hreg₂⟩ := taskFree_calls proc h₂
  have hcur₂ : s₂.processCurrent ≠ proc := by
    rw [hreg₂.current, Kernel.setHeap_processCurrent, Kernel.setHeap_processCurrent, hreg₁.current]
    exact hcur
  rw [processTerminate]
  refine ⟨{ s₂ with processes := fun i => if i = ((s₂.procs proc).id.toNat : Int) then 0 else s₂.processes i },
    bind_ok.2 ⟨s₁, h₁, ?_⟩⟩
  rw [hdata]
  simp only [hclose, Kernel.setHeap_heap, Kernel.setHeap_procs]
  rw [if_neg (Int.lt_irrefl 0)]
  refine bind_ok.2 ⟨_, h₂, ?_⟩
  simp only
  rw [if_neg (Int.lt_irrefl 0)]
  refine bind_ok.2 ⟨_, ?_, rfl⟩
  simp only [processUnlinkWith]
  rw [if_neg hcur₂]

theorem processLoadSlot_current {depth : Nat} {fileName : List Byte} {slot result : Int}
    (h : processLoadSlot depth s fileName slot = .ok (result, proc, s')) (hresult : 0 ≤ result) :
    s'.processCurrent = s.processCurrent ∧ (s'.procs proc).task ≠ 0 := by
  obtain ⟨s₁, t, s₂, s₃, hprep, hnew, ht, hmap, rfl⟩ := processLoadSlotWith_ok h hresult
  obtain ⟨heap, code, s₄, stack, s₅, -, -, hload, -, hstack, -, rfl⟩ := processPrepareWith_ok hprep
  obtain ⟨fs, files, p, rfl, -, -⟩ := processLoadData_frame hload
  obtain ⟨fs₅, hs₅⟩ := kzallocBytes_frame _ (BitVec.ofNat 32 ENKI_USER_PGM_STACK_SIZE)
  rw [hstack] at hs₅
  simp only at hs₅
  subst hs₅
  obtain ⟨heap₂, words₂, tasks₂, current₂, head₂, tail₂, rfl⟩ := taskNew_frame hnew ht
  obtain ⟨words₃, rfl⟩ := processMapMemory_frame hmap
  refine ⟨rfl, ?_⟩
  simp only [Kernel.setProc, if_true]
  exact ht

/-- 起動の直後に ELF ファイルを読み込んで、すぐに終了する。 -/
theorem boot_terminate : ∃ (v : Volume) (s₁ s₃ : Kernel), v.disk = imageDisk (elfImage 88 0) ∧
    processLoadSlot 1 (Kernel.boot (stateWith v 0)) imageName 0 = .ok (0, blockAddr 0, s₁) ∧ NoShell s₁ (blockAddr 0) ∧
    processTerminate 1 s₁ (blockAddr 0) = .ok (0, s₃) := by
  obtain ⟨v, s₁, hv, hload, htype, -⟩ := padded_load 0 rfl (fun _ _ => rfl) rfl rfl
  obtain ⟨hcur, htask⟩ := processLoadSlot_current hload (Int.le_refl 0)
  have hcur' : s₁.processCurrent ≠ blockAddr 0 := by
    rw [hcur]
    exact (blockAddr_ne_zero (by decide)).symm
  obtain ⟨s₃, hterm⟩ := processTerminate_total 0 htask htype hcur'
  exact ⟨v, s₁, s₃, hv, hload, .inl hcur', hterm⟩

/-- 起動の直後に読み込んで終了した後の、塞がったブロック。 -/
theorem not_sameTaken_boot : ∃ (v : Volume) (s₁ s₃ : Kernel), v.disk = imageDisk (elfImage 88 0) ∧
    processLoadSlot 1 (Kernel.boot (stateWith v 0)) imageName 0 = .ok (0, blockAddr 0, s₁) ∧
    processTerminate 1 s₁ (blockAddr 0) = .ok (0, s₃) ∧ ¬SameTaken (Kernel.boot (stateWith v 0)).heap s₃.heap := by
  obtain ⟨v, s₁, s₃, hv, hload, hother, hterm⟩ := boot_terminate
  refine ⟨v, s₁, s₃, hv, hload, hterm, ?_⟩
  exact not_sameTaken_of_terminate bootHeap_packed.toKernelHeap freeAfterEnd_boot guarded_boot (fun _ _ => rfl) hload
    (Int.le_refl 0) .refl hother hterm

/-- 記録のブロックが残る。 -/
theorem sameTaken_fails_boot : ∃ (v : Volume) (s₁ s₃ : Kernel) (b : Nat), v.disk = imageDisk (elfImage 88 0) ∧
    processLoadSlot 1 (Kernel.boot (stateWith v 0)) imageName 0 = .ok (0, blockAddr 0, s₁) ∧
    processTerminate 1 s₁ (blockAddr 0) = .ok (0, s₃) ∧ b < 25600 ∧
    (Kernel.boot (stateWith v 0)).heap.table.freeAt b = true ∧ s₃.heap.table.freeAt b = false ∧
    ¬SameTaken (Kernel.boot (stateWith v 0)).heap s₃.heap := by
  obtain ⟨v, s₁, s₃, hv, hload, hother, hterm⟩ := boot_terminate
  obtain ⟨b, hb, hfree, htaken⟩ := record_stays (s := Kernel.boot (stateWith v 0)) bootHeap_packed.toKernelHeap
    freeAfterEnd_boot guarded_boot (fun _ _ => rfl) hload (Int.le_refl 0) .refl hother hterm
  refine ⟨v, s₁, s₃, b, hv, hload, hterm, hb, hfree, htaken, ?_⟩
  intro hsame
  have heq := hsame b hb
  rw [htaken, hfree] at heq
  cases heq

end EnkiOs
