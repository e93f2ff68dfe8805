import EnkiOs.Heap.Lemmas.Live
import EnkiOs.Paging.New
import EnkiOs.Process.Malloc
import Mathlib.Logic.Relation

/-!
# プロセスごとの割り当ての所有

いくつものプロセスが `process_malloc` と `process_free` を呼ぶ実行で、割り当ての表に記録したアドレスが、生きている
割り当ての先頭であり続けること。
-/

namespace EnkiOs
open Machine Extents

/-! ## 実行 -/

/-- プロセスの一回の呼び出し。 -/
inductive ProcOp
  | malloc (proc size : Word)
  | free (proc toFree : Word)

/-- 割り当ては、空きに収まるか、空きが無くて断られる。 -/
def Heap.Serves (h : Heap) (size : Word) : Prop := h.table.HasRun (blocksFor size) ∨ (kzalloc h size.toNat).1 = 0

inductive ProcStep : Kernel → ProcOp → Kernel → Prop
  | malloc {s s' : Kernel} {proc size ptr : Word} (hserve : s.heap.Serves size)
      (h : processMalloc s proc size = .ok (ptr, s')) : ProcStep s (.malloc proc size) s'
  | free {s s' : Kernel} {proc toFree : Word} (h : processFree s proc toFree = .ok s') : ProcStep s (.free proc toFree) s'

/-- どのプロセスからの、どの順の呼び出しでもよい。 -/
def ProcRun : Kernel → Kernel → Prop := Relation.ReflTransGen fun s s' => ∃ op, ProcStep s op s'

/-- 大きさが 0 の割り当てではない。 -/
def ProcOp.Sized : ProcOp → Prop
  | .malloc _ size => 0 < size.toNat
  | .free _ _ => True

/-- 大きさが 0 の割り当てを含まない実行。 -/
def SizedRun : Kernel → Kernel → Prop := Relation.ReflTransGen fun s s' => ∃ op, ProcStep s op s' ∧ op.Sized

/-! ## 記録と生きている割り当て -/

variable {who : Word → Prop} {s s' : Kernel} {live : List Allocation} {proc ptr size toFree : Word}

/-- 記録の占めるブロック。 -/
def ProcessAllocation.Covers (a : ProcessAllocation) (b : Nat) : Prop :=
  blockOf a.ptr ≤ b ∧ (b : Int) < blockOf a.ptr + blocksFor a.size

/-- プロセスの集まり `who` の空でない記録は、どれも生きている割り当てであり、同じアドレスの記録は二つない。 -/
structure Owned (who : Word → Prop) (s : Kernel) (live : List Allocation) : Prop where
  heap : KernelHeap s.heap
  inv : HeapInv s.heap live
  owned : ∀ {proc}, who proc → ∀ i < ENKI_MAX_PGM_ALLOCATIONS, ((s.procs proc).allocations i).ptr ≠ 0 →
    ∃ a ∈ live, a.addr = ((s.procs proc).allocations i).ptr ∧ a.size = ((s.procs proc).allocations i).size
  distinct : ∀ {proc}, who proc → ∀ i < ENKI_MAX_PGM_ALLOCATIONS, ∀ {proc'}, who proc' →
    ∀ j < ENKI_MAX_PGM_ALLOCATIONS, ((s.procs proc).allocations i).ptr ≠ 0 →
    ((s.procs proc).allocations i).ptr = ((s.procs proc').allocations j).ptr → proc = proc' ∧ i = j

/-- どの記録も空の状態。 -/
def NoRecords (s : Kernel) : Prop :=
  ∀ proc, ∀ i < ENKI_MAX_PGM_ALLOCATIONS, ((s.procs proc).allocations i).ptr = 0

theorem Owned.start (hk : KernelHeap s.heap) (hi : HeapInv s.heap live)
    (hempty : ∀ proc, who proc → ∀ i < ENKI_MAX_PGM_ALLOCATIONS, ((s.procs proc).allocations i).ptr = 0) :
    Owned who s live where
  heap := hk
  inv := hi
  owned := fun hw i hi hne => absurd (hempty _ hw i hi) hne
  distinct := fun hw i hi _ _ _ _ hne => absurd (hempty _ hw i hi) hne

theorem Owned.congr (ho : Owned who s live) (hk : KernelHeap s'.heap) (hi : HeapInv s'.heap live)
    (hprocs : s'.procs = s.procs) : Owned who s' live where
  heap := hk
  inv := hi
  owned := by
    rw [hprocs]
    exact ho.owned
  distinct := by
    rw [hprocs]
    exact ho.distinct

/-- 記録の占めるブロックは、生きている割り当ての範囲である。 -/
theorem Owned.covers_iff (ho : Owned who s live) {a : Allocation} (ha : a ∈ live) {r : ProcessAllocation}
    (haddr : a.addr = r.ptr) (hsize : a.size = r.size) {i : Nat} :
    r.Covers i ↔ (a.extent s.heap.startAddr).Covers i := by
  obtain ⟨b, hb, hblock, hfirst⟩ := ho.inv.block ho.heap ha
  have hcount : (a.extent s.heap.startAddr).count = blocksFor r.size := by rw [← hsize]; rfl
  rw [ProcessAllocation.Covers, Extent.Covers, ← haddr, hblock, blockOf_blockAddr (by omega), hfirst, hcount]
  omega

/-! ## 割り当て -/

theorem mallocState_same (idx : Nat) :
    ((mallocState s proc size idx).procs proc).allocations =
      fun i => if i = idx then ⟨(kzalloc s.heap size.toNat).1, size⟩ else (s.procs proc).allocations i := by
  simp [mallocState, Kernel.setProc]

theorem mallocState_other (idx : Nat) {x : Word} (hx : x ≠ proc) :
    (mallocState s proc size idx).procs x = s.procs x := by
  simp [mallocState, Kernel.setProc, hx]

theorem mallocState_record (s : Kernel) (proc size : Word) (idx : Nat) (x : Word) (i : Nat) :
    (x = proc ∧ i = idx ∧
      ((mallocState s proc size idx).procs x).allocations i = ⟨(kzalloc s.heap size.toNat).1, size⟩) ∨
    (¬(x = proc ∧ i = idx) ∧
      ((mallocState s proc size idx).procs x).allocations i = (s.procs x).allocations i) := by
  by_cases hx : x = proc
  · subst hx
    by_cases hi : i = idx
    · exact .inl ⟨rfl, hi, by rw [mallocState_same]; simp [hi]⟩
    · exact .inr ⟨fun h => hi h.2, by rw [mallocState_same]; simp [hi]⟩
  · exact .inr ⟨fun h => hx h.1, by rw [mallocState_other idx hx]⟩

theorem Owned.fresh (ho : Owned who s live) (hpos : 0 < size.toNat) (hrun : s.heap.table.HasRun (blocksFor size)) {x : Word}
    (hw : who x) {i : Nat} (hi : i < ENKI_MAX_PGM_ALLOCATIONS) (hne : ((s.procs x).allocations i).ptr ≠ 0) :
    ((s.procs x).allocations i).ptr ≠ (kzalloc s.heap size.toNat).1 := by
  obtain ⟨a, ha, haddr, -⟩ := ho.owned hw i hi hne
  obtain ⟨k, hk⟩ := List.mem_iff_getElem?.1 ha
  have hinv := ho.inv.kzalloc_live ho.heap hpos hrun
  rw [← haddr]
  exact hinv.addr_ne (j := k + 1) (k := 0) (by simpa using hk) rfl (by omega)

theorem Owned.mallocState (ho : Owned who s live) (hpos : 0 < size.toNat) (hrun : s.heap.table.HasRun (blocksFor size))
    (idx : Nat) :
    Owned who (mallocState s proc size idx) (⟨(kzalloc s.heap size.toNat).1, size, hpos⟩ :: live) where
  heap := (kernelHeap_kept.kzalloc _ ho.heap).1
  inv := ho.inv.kzalloc_live ho.heap hpos hrun
  owned := by
    intro x hw i hi hne
    rcases mallocState_record s proc size idx x i with ⟨-, -, heq⟩ | ⟨-, heq⟩
    · rw [heq]
      exact ⟨_, List.mem_cons_self, rfl, rfl⟩
    · rw [heq] at hne ⊢
      obtain ⟨a, ha, h1, h2⟩ := ho.owned hw i hi hne
      exact ⟨a, List.mem_cons_of_mem _ ha, h1, h2⟩
  distinct := by
    intro x hw i hi y hw' j hj hne heq
    rcases mallocState_record s proc size idx x i with ⟨rfl, rfl, hx⟩ | ⟨-, hx⟩
    · rcases mallocState_record s x size i y j with ⟨rfl, rfl, -⟩ | ⟨-, hy⟩
      · exact ⟨rfl, rfl⟩
      · rw [hx, hy] at heq
        rw [hx, heq] at hne
        exact absurd heq.symm (ho.fresh hpos hrun hw' hj hne)
    · rw [hx] at hne heq
      rcases mallocState_record s proc size idx y j with ⟨-, -, hy⟩ | ⟨-, hy⟩
      · rw [hy] at heq
        exact absurd heq (ho.fresh hpos hrun hw hi hne)
      · rw [hy] at heq
        exact ho.distinct hw i hi hw' j hj hne heq

/-- 割り当ててすぐに解放すると、生きている割り当ては元に戻る。 -/
theorem HeapInv.kzalloc_kfree {h : Heap} (hi : HeapInv h live) (hk : KernelHeap h) (hpos : 0 < size.toNat)
    (hrun : h.table.HasRun (blocksFor size)) :
    HeapInv (kfree (kzalloc h size.toNat).2 (kzalloc h size.toNat).1) live := by
  have hinv := hi.kzalloc_live hk hpos hrun
  have hmade := (kernelHeap_kept.kzalloc size.toNat hk).1
  generalize kzalloc h size.toNat = made at hinv hmade ⊢
  exact hinv.kfree_live hmade (a := ⟨made.1, size, hpos⟩) (k := 0) rfl

theorem Owned.malloc (ho : Owned who s live) (hpos : 0 < size.toNat) (hserve : s.heap.Serves size)
    (h : processMalloc s proc size = .ok (ptr, s')) : ∃ live', Owned who s' live' := by
  rcases processMalloc_cases h with ⟨h0, -, hs'⟩ | ⟨h0, -, -, hprocs, -, hheap⟩ | ⟨h0, -, -, -, idx, -, hs'⟩
  · have hsame := ho.heap.kzalloc_zero h0
    have hheap : s'.heap = s.heap := by
      rw [hs', hsame]
      rfl
    exact ⟨live, ho.congr (hheap ▸ ho.heap) (hheap ▸ ho.inv) (by rw [hs']; rfl)⟩
  · have hrun := hserve.resolve_right h0
    refine ⟨live, ho.congr ?_ ?_ hprocs⟩
    · rw [hheap]
      exact kernelHeap_kept.kfree (kernelHeap_kept.kzalloc _ ho.heap).1 trivial
    · rw [hheap]
      exact ho.inv.kzalloc_kfree ho.heap hpos hrun
  · rw [hs']
    exact ⟨_, ho.mallocState hpos (hserve.resolve_right h0) idx⟩

/-! ## 解放 -/

theorem freeState_same (alloc : ProcessAllocation) :
    (freeState s proc toFree alloc).procs proc = processAllocationDrop (s.procs proc) toFree := by
  simp [freeState, Kernel.setProc, Kernel.setHeap]

theorem freeState_other (alloc : ProcessAllocation) {x : Word} (hx : x ≠ proc) :
    (freeState s proc toFree alloc).procs x = s.procs x := by
  simp [freeState, Kernel.setProc, Kernel.setHeap, hx]

/-- 解放の後に残る記録は、元の記録のままで、解放したアドレスではない。 -/
theorem freeState_record {alloc : ProcessAllocation} {x : Word} {i : Nat} (hi : i < ENKI_MAX_PGM_ALLOCATIONS)
    (hne : (((freeState s proc toFree alloc).procs x).allocations i).ptr ≠ 0) :
    ((freeState s proc toFree alloc).procs x).allocations i = (s.procs x).allocations i ∧
      (x = proc → ((s.procs x).allocations i).ptr ≠ toFree) := by
  by_cases hx : x = proc
  · subst hx
    rw [freeState_same, processAllocationDrop] at hne ⊢
    by_cases hptr : ((s.procs x).allocations i).ptr = toFree
    · simp [hi, hptr] at hne
    · exact ⟨by simp [hptr], fun _ => hptr⟩
  · rw [freeState_other alloc hx]
    exact ⟨rfl, fun h => absurd h hx⟩

/-- 自分の記録にある、空でないアドレスの解放。 -/
theorem Owned.freeState (ho : Owned who s live) (hw : who proc) (alloc : ProcessAllocation) {j : Nat} (hj : j < ENKI_MAX_PGM_ALLOCATIONS)
    (hptr : ((s.procs proc).allocations j).ptr = toFree) (hne : toFree ≠ 0) :
    ∃ k a, live[k]? = some a ∧ a.addr = toFree ∧ Owned who (freeState s proc toFree alloc) (live.eraseIdx k) := by
  obtain ⟨a, ha, haddr, -⟩ := ho.owned hw j hj (by rw [hptr]; exact hne)
  rw [hptr] at haddr
  obtain ⟨k, hk⟩ := List.mem_iff_getElem?.1 ha
  refine ⟨k, a, hk, haddr, kernelHeap_kept.kfree ho.heap trivial, ?_, ?_, ?_⟩
  · have hinv := ho.inv.kfree_live ho.heap hk
    rw [haddr] at hinv
    exact hinv
  · intro x hx i hi hrec
    obtain ⟨heq, hdrop⟩ := freeState_record hi hrec
    rw [heq] at hrec ⊢
    obtain ⟨c, hc, hc1, hc2⟩ := ho.owned hx i hi hrec
    refine ⟨c, mem_eraseIdx_of_addr_ne hc hk ?_, hc1, hc2⟩
    rw [haddr, hc1]
    intro hsame
    obtain ⟨hxp, -⟩ := ho.distinct hx i hi hw j hj hrec (hsame.trans hptr.symm)
    exact hdrop hxp hsame
  · intro x hwx i hi y hwy j' hj' hrec heq
    obtain ⟨hx, -⟩ := freeState_record hi hrec
    obtain ⟨hy, -⟩ := freeState_record hj' (heq ▸ hrec)
    rw [hx] at hrec heq
    rw [hy] at heq
    exact ho.distinct hwx i hi hwy j' hj' hrec heq

/-- 空のアドレスの解放は、空の記録を書き直し、表の手前に書く。 -/
theorem Owned.freeState_null (ho : Owned who s live) (hg : Guarded s.heap) (alloc : ProcessAllocation) :
    Owned who (EnkiOs.freeState s proc 0 alloc) live where
  heap := kernelHeap_kept.kfree ho.heap trivial
  inv := ho.inv.congr rfl (heapFree_length _ _) fun i _ => hg.kfree_zero ho.heap (by omega)
  owned := by
    intro x hx i hi hrec
    obtain ⟨heq, -⟩ := freeState_record hi hrec
    rw [heq] at hrec ⊢
    exact ho.owned hx i hi hrec
  distinct := by
    intro x hwx i hi y hwy j hj hrec heq
    obtain ⟨hx, -⟩ := freeState_record hi hrec
    obtain ⟨hy, -⟩ := freeState_record hj (heq ▸ hrec)
    rw [hx] at hrec heq
    rw [hy] at heq
    exact ho.distinct hwx i hi hwy j hj hrec heq

theorem Owned.free (ho : Owned who s live) (hw : who proc) (hnull : toFree ≠ 0 ∨ Guarded s.heap) (h : processFree s proc toFree = .ok s') :
    ∃ live', Owned who s' live' := by
  rcases processFree_cases h with ⟨-, hs'⟩ | ⟨alloc, hget, -, ⟨-, hs'⟩ | ⟨-, hs'⟩⟩
  · rw [hs']
    exact ⟨live, ho⟩
  · rw [hs']
    exact ⟨live, ho.congr ho.heap ho.inv rfl⟩
  · obtain ⟨j, hj, heq, hptr⟩ := processGetAllocation_some hget
    rw [hs']
    by_cases h0 : toFree = 0
    · rw [h0]
      exact ⟨live, ho.freeState_null (hnull.resolve_left fun hne => hne h0) alloc⟩
    · obtain ⟨k, a, -, -, ho'⟩ := ho.freeState hw alloc hj (by rw [heq]; exact hptr) h0
      exact ⟨_, ho'⟩

/-! ## ページの割り付け -/

theorem Owned.freeMap_eq (ho : Owned who s live) (hw : who proc) {i : Nat} (hi : i < ENKI_MAX_PGM_ALLOCATIONS)
    (hne : ((s.procs proc).allocations i).ptr ≠ 0) :
    freeMap s proc ((s.procs proc).allocations i) =
      (0, (pageMappings ((s.procs proc).allocations i).ptr ((s.procs proc).allocations i).ptr 0
        (blocksFor ((s.procs proc).allocations i).size)).foldl
          (Mapping.put (s.tasks (s.procs proc).task).pageDir) s.words) := by
  obtain ⟨a, ha, haddr, hsize⟩ := ho.owned hw i hi hne
  obtain ⟨b, hb, hblock, -⟩ := ho.inv.block ho.heap ha
  have hto := blockAddr_toNat (b := b) (by omega)
  have hcount : blocksFor a.size = (a.size.toNat + 4095) / 4096 := rfl
  rw [freeMap, ← haddr, ← hsize, hblock]
  exact pagingMapTo_blocks (pageAligned_blockAddr (by omega)) (by rw [hto]; omega)

theorem Owned.pageAligned (ho : Owned who s live) (hw : who proc) {i : Nat} (hi : i < ENKI_MAX_PGM_ALLOCATIONS)
    (hne : ((s.procs proc).allocations i).ptr ≠ 0) : PageAligned ((s.procs proc).allocations i).ptr := by
  obtain ⟨a, ha, haddr, -⟩ := ho.owned hw i hi hne
  obtain ⟨b, hb, hblock, -⟩ := ho.inv.block ho.heap ha
  rw [← haddr, hblock]
  exact pageAligned_blockAddr (by omega)

theorem Owned.made (ho : Owned who s live) (hpos : 0 < size.toNat) (hrun : s.heap.table.HasRun (blocksFor size)) :
    ∃ c, c + blocksFor size ≤ 25600 ∧ (kzalloc s.heap size.toNat).1 = blockAddr c := by
  have hinv := ho.inv.kzalloc_live ho.heap hpos hrun
  obtain ⟨c, hc, haddr, -⟩ := hinv.block (kernelHeap_kept.kzalloc _ ho.heap).1 List.mem_cons_self
  exact ⟨c, hc, haddr⟩

theorem mallocMap_eq {c : Nat} (hc : c + blocksFor size ≤ 25600) :
    mallocMap s proc (blockAddr c) size =
      (0, (pageMappings (blockAddr c) (blockAddr c) userFlags (blocksFor size)).foldl
        (Mapping.put (s.tasks (s.procs proc).task).pageDir) s.words) := by
  have hto := blockAddr_toNat (b := c) (by omega)
  have hcount : blocksFor size = (size.toNat + 4095) / 4096 := rfl
  exact pagingMapTo_blocks (pageAligned_blockAddr (by omega)) (by rw [hto]; omega)

end EnkiOs
