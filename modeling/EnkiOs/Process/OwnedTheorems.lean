import EnkiOs.Paging.New
import EnkiOs.Process.Owned
import EnkiOs.Task.Theorems

/-!
# プロセスごとの割り当ての定理

どのプロセスの割り当ても、ほかのプロセスの呼び出しで解放されず、共有されないこと。
-/

namespace EnkiOs
open Machine Extents

variable {who : Word → Prop} {s s' : Kernel} {live : List Allocation} {proc ptr size toFree : Word}

/-! ## 分かれた割り当て -/

/-- 記録したアドレスは塞がったブロックの先頭であり、どのブロックも二つの記録には入らず、どの `process_free` も、
ほかのプロセスの記録のブロックを変えない。 -/
structure Separate (s : Kernel) : Prop where
  taken : ∀ proc, ∀ i < ENKI_MAX_PGM_ALLOCATIONS, ((s.procs proc).allocations i).ptr ≠ 0 →
    ∃ b < 25600, ((s.procs proc).allocations i).ptr = blockAddr b ∧ s.heap.table.freeAt b = false
  apart : ∀ proc, ∀ i < ENKI_MAX_PGM_ALLOCATIONS, ∀ proc', ∀ j < ENKI_MAX_PGM_ALLOCATIONS, ¬(proc = proc' ∧ i = j) →
    ((s.procs proc).allocations i).ptr ≠ 0 → ((s.procs proc').allocations j).ptr ≠ 0 →
    ∀ b, ((s.procs proc).allocations i).Covers b → ¬((s.procs proc').allocations j).Covers b
  kept : ∀ proc toFree s', processFree s proc toFree = .ok s' →
    ∀ proc' ≠ proc, ∀ i < ENKI_MAX_PGM_ALLOCATIONS, ((s.procs proc').allocations i).ptr ≠ 0 →
    ∀ b : Nat, ((s.procs proc').allocations i).Covers b → s'.heap.table.entries b = s.heap.table.entries b

theorem Owned.separate (ho : Owned (fun _ => True) s live) (hg : Guarded s.heap) : Separate s where
  taken := by
    intro x i hi hne
    obtain ⟨a, ha, haddr, -⟩ := ho.owned trivial i hi hne
    obtain ⟨b, hb, hblock, hfirst⟩ := ho.inv.block ho.heap ha
    have hpos := blocksFor_pos a.pos
    refine ⟨b, by omega, by rw [← haddr, hblock], ho.inv.taken ha ⟨by omega, ?_⟩⟩
    have hcount : (a.extent s.heap.startAddr).count = blocksFor a.size := rfl
    omega
  apart := by
    intro x i hi y j hj hne hx hy b hcx hcy
    obtain ⟨a, ha, ha1, ha2⟩ := ho.owned trivial i hi hx
    obtain ⟨c, hc, hc1, hc2⟩ := ho.owned trivial j hj hy
    have haddr : a.addr ≠ c.addr := by
      intro heq
      exact hne (ho.distinct trivial i hi trivial j hj hx (by rw [← ha1, heq, hc1]))
    exact ho.inv.disjoint ha hc haddr ((ho.covers_iff ha ha1 ha2).1 hcx) ((ho.covers_iff hc hc1 hc2).1 hcy)
  kept := by
    intro x toFree s' h y hyx i hi hy b hcov
    rcases processFree_cases h with ⟨-, hs'⟩ | ⟨alloc, hget, -, ⟨-, hs'⟩ | ⟨-, hs'⟩⟩
    · rw [hs']
    · rw [hs']
    · have hheap : s'.heap = kfree s.heap toFree := by rw [hs']; rfl
      rw [hheap]
      by_cases h0 : toFree = 0
      · rw [h0]
        exact hg.kfree_zero ho.heap (by omega)
      · obtain ⟨j, hj, heq, hptr⟩ := processGetAllocation_some hget
        have hrec : ((s.procs x).allocations j).ptr = toFree := by rw [heq]; exact hptr
        obtain ⟨a, ha, ha1, ha2⟩ := ho.owned trivial j hj (by rw [hrec]; exact h0)
        obtain ⟨c, hc, hc1, hc2⟩ := ho.owned trivial i hi hy
        have haddr : c.addr ≠ a.addr := by
          intro hsame
          exact hyx (ho.distinct trivial i hi trivial j hj hy (by rw [← hc1, hsame, ha1])).1
        have hout := ho.inv.disjoint hc ha haddr ((ho.covers_iff hc hc1 hc2).1 hcov)
        have hcount : (a.extent s.heap.startAddr).count = blocksFor a.size := rfl
        rw [← hrec, ← ha1, ho.inv.kfree_entries ho.heap ha rfl, if_neg]
        simp only [Extent.Covers] at hout
        omega

/-! ## 実行 -/

theorem SizedRun.owned (hr : SizedRun s s') (ho : Owned (fun _ => True) s live) (hg : Guarded s.heap) :
    (∃ live', Owned (fun _ => True) s' live') ∧ Guarded s'.heap := by
  induction hr with
  | refl => exact ⟨⟨live, ho⟩, hg⟩
  | tail _ hstep ih =>
      obtain ⟨⟨live', ho'⟩, hg'⟩ := ih
      obtain ⟨op, hs, hsized⟩ := hstep
      cases hs with
      | malloc hserve h =>
          exact ⟨ho'.malloc hsized hserve h, (processMalloc_kept guarded_kept ⟨ho'.heap, hg'⟩ h).2⟩
      | free h => exact ⟨ho'.free trivial (.inr hg') h, (processFree_kept guarded_kept ⟨ho'.heap, hg'⟩ trivial h).2⟩

/-- 記録が空の状態から、いくつものプロセスが、どの順に割り当てと解放を呼んでも、大きさが 0 の割り当てが無ければ、
割り当てはプロセスごとに分かれている。 -/
theorem separate_of_sizedRun (hk : KernelHeap s.heap) (hg : Guarded s.heap) (hi : HeapInv s.heap live)
    (hempty : NoRecords s) (hr : SizedRun s s') : Separate s' := by
  obtain ⟨⟨live', ho⟩, hg'⟩ := hr.owned (Owned.start hk hi fun proc _ => hempty proc) hg
  exact ho.separate hg'

/-- 起動した直後のヒープと、記録の空なプロセスを持つカーネル。 -/
def idleKernel : Kernel := { Kernel.boot bareState with procs := fun proc => { task := proc + 4 } }

theorem idleKernel_heap : KernelHeap idleKernel.heap ∧ Guarded idleKernel.heap ∧ HeapInv idleKernel.heap [] ∧
    NoRecords idleKernel :=
  ⟨⟨rfl, rfl⟩, ⟨-2, by decide, by decide, by decide⟩, HeapInv.create kheap_created, fun _ _ _ => rfl⟩

/-- 記録が空いていて、一ページに収まる割り当ては、成功する。 -/
theorem processMalloc_at {b idx : Nat} {heap : Heap} (heq : kzalloc s.heap size.toNat = (blockAddr b, heap)) (hb : b < 25600)
    (hsize : size.toNat ≤ 4096) (htask : (s.procs proc).task ≠ 0) (hfind : processFindFreeAlloc (s.procs proc) = some idx) :
    processMalloc s proc size = .ok (blockAddr b, mallocState s proc size idx) := by
  have hto := blockAddr_toNat (Nat.le_of_lt hb)
  have hmap : (mallocMap s proc (blockAddr b) size).1 = 0 := by
    rw [mallocMap, pagingMapTo_blocks (pageAligned_blockAddr (Nat.le_of_lt hb)) (by omega)]
  obtain ⟨ptr, s', h⟩ := processMalloc_total s size htask
  rcases processMalloc_cases h with ⟨h0, -, -⟩ | ⟨-, -, hfail, -, -, -⟩ | ⟨-, hptr, -, -, j, hj, hs'⟩
  · rw [heq] at h0
    exact absurd h0 (blockAddr_ne_zero (Nat.le_of_lt hb))
  · rcases hfail with ⟨hnone, -⟩ | ⟨-, hneg⟩
    · rw [hfind] at hnone
      cases hnone
    · rw [heq, hmap] at hneg
      exact absurd hneg (Int.lt_irrefl 0)
  · rw [hfind] at hj
    cases hj
    rw [h, hptr, hs', heq]

/-- 詰まったヒープからの、1 バイトの割り当て。 -/
theorem processMalloc_packed {b idx : Nat} (hp : Packed s.heap b) (hb : b < 25600) (htask : (s.procs proc).task ≠ 0)
    (hfind : processFindFreeAlloc (s.procs proc) = some idx) : s.heap.Serves 1 ∧
      processMalloc s proc 1 = .ok (blockAddr b, mallocState s proc 1 idx) ∧ Packed (mallocState s proc 1 idx).heap (b + 1) := by
  obtain ⟨heap, heq, -, hp'⟩ := hp.small (show 0 < (1 : Word).toNat by decide) (by decide) hb
  refine ⟨.inl ⟨b, ?_, ?_⟩, processMalloc_at heq hb (by decide) htask hfind, ?_⟩
  · rw [blocksFor_one, hp.length_eq]
    omega
  · intro j h1 h2
    exact hp.vacant j h1 (by rw [blocksFor_one] at h2; omega)
  · rw [mallocState_heap, heq]
    exact hp'

/-- 空の表の、最初の記録。 -/
theorem processFindFreeAlloc_first {p : Process} (h : (p.allocations 0).ptr = 0) : processFindFreeAlloc p = some 0 := by
  rw [processFindFreeAlloc, processFreeAllocFrom, if_pos h]

/-- 二つのプロセスが 1 バイトずつ割り当て、先のプロセスが解放した後。 -/
theorem separate_of_sizedRun_freed : ∃ s₁ s₂ s₃, processMalloc idleKernel 0x00110000 1 = .ok (blockAddr 0, s₁) ∧
    processMalloc s₁ 0x00120000 1 = .ok (blockAddr 1, s₂) ∧ processFree s₂ 0x00110000 (blockAddr 0) = .ok s₃ ∧ Separate s₃ := by
  obtain ⟨hk, hg, hi, hempty⟩ := idleKernel_heap
  have htask₁ : (idleKernel.procs 0x00110000).task ≠ 0 := by decide
  obtain ⟨hserve₁, h₁, hp₁⟩ := processMalloc_packed bootHeap_packed (by decide) htask₁ (processFindFreeAlloc_first rfl)
  generalize hs₁ : mallocState idleKernel 0x00110000 1 0 = s₁ at h₁ hp₁
  have hother : s₁.procs 0x00120000 = idleKernel.procs 0x00120000 := by
    rw [← hs₁]
    exact mallocState_other 0 (by decide)
  have htask₂ : (s₁.procs 0x00120000).task ≠ 0 := by
    rw [hother]
    decide
  obtain ⟨hserve₂, h₂, -⟩ := processMalloc_packed hp₁ (by decide) htask₂ (processFindFreeAlloc_first (by rw [hother]; rfl))
  have htask : ((mallocState s₁ 0x00120000 1 0).procs 0x00110000).task ≠ 0 := by
    rw [mallocState_other 0 (by decide), ← hs₁]
    exact show ((0x00110000 : Word) + 4) ≠ 0 by decide
  obtain ⟨s₃, h₃⟩ := processFree_total (blockAddr 0) htask
  have hrun : SizedRun idleKernel s₃ :=
    ((Relation.ReflTransGen.single ⟨_, .malloc hserve₁ h₁, show 0 < 1 by decide⟩).tail
      ⟨_, .malloc hserve₂ h₂, show 0 < 1 by decide⟩).tail ⟨_, .free h₃, trivial⟩
  exact ⟨s₁, _, s₃, h₁, h₂, h₃, separate_of_sizedRun hk hg hi hempty hrun⟩

/-- 大きさが 0 の割り当ては、空いたブロックのアドレスを、塞がずに記録する。 -/
theorem processMalloc_nothing (proc : Word) (hk : KernelHeap s.heap) (hlast : s.heap.table.freeAt 25599 = true)
    (htask : (s.procs proc).task ≠ 0) (hslot : ((s.procs proc).allocations 0).ptr = 0) :
    ∃ b < 25600, s.heap.table.freeAt b = true ∧ kzalloc s.heap (0 : Word).toNat = (blockAddr b, s.heap) ∧
      processMalloc s proc 0 = .ok (blockAddr b, mallocState s proc 0 0) := by
  obtain ⟨b, hb, hfree, heq⟩ := hk.kzalloc_nothing hlast
  rw [show 0 = (0 : Word).toNat from rfl] at heq
  exact ⟨b, hb, hfree, heq, processMalloc_at heq hb (by decide) htask (processFindFreeAlloc_first hslot)⟩

/-- 二つのプロセスが大きさ 0 の割り当てを呼ぶと、どちらも、空いた同じブロックのアドレスを記録する。 -/
theorem separate_fails_zeroSize : KernelHeap idleKernel.heap ∧ Guarded idleKernel.heap ∧ HeapInv idleKernel.heap [] ∧
    NoRecords idleKernel ∧
    ∃ b s₁ s₂, processMalloc idleKernel 0x00110000 0 = .ok (blockAddr b, s₁) ∧
      processMalloc s₁ 0x00120000 0 = .ok (blockAddr b, s₂) ∧ ProcRun idleKernel s₂ ∧
      s₂.heap.table.freeAt b = true ∧ ¬Separate s₂ := by
  obtain ⟨hk, hg, hi, hempty⟩ := idleKernel_heap
  refine ⟨hk, hg, hi, hempty, ?_⟩
  have hserve : ∀ s : Kernel, s.heap.Serves 0 := fun s => .inl ⟨0, Nat.zero_le _, fun j _ hj => absurd hj (Nat.not_lt_zero j)⟩
  have hlast : idleKernel.heap.table.freeAt 25599 = true := bootHeap_packed.vacant _ (by decide) (by decide)
  obtain ⟨b, hb, hfree, heq, h₁⟩ := processMalloc_nothing 0x00110000 hk hlast (by decide) rfl
  obtain ⟨s₁, hs₁⟩ : ∃ s₁, s₁ = mallocState idleKernel 0x00110000 0 0 := ⟨_, rfl⟩
  have hheap₁ : s₁.heap = idleKernel.heap := by
    rw [hs₁, mallocState_heap, heq]
  have hother : s₁.procs 0x00120000 = idleKernel.procs 0x00120000 := by
    rw [hs₁]
    exact mallocState_other 0 (by decide)
  obtain ⟨c, hc, -, heq₂, h₂⟩ := processMalloc_nothing (s := s₁) 0x00120000 (by rw [hheap₁]; exact hk)
    (by rw [hheap₁]; exact hlast) (by rw [hother]; decide) (by rw [hother]; rfl)
  have hbc : blockAddr b = blockAddr c := by
    rw [hheap₁] at heq₂
    exact congrArg Prod.fst (heq.symm.trans heq₂)
  have hfree₂ : (mallocState s₁ 0x00120000 0 0).heap.table.freeAt b = true := by
    rw [mallocState_heap, heq₂, hheap₁]
    exact hfree
  rw [← hs₁] at h₁
  refine ⟨b, s₁, _, h₁, by rw [hbc]; exact h₂,
    (Relation.ReflTransGen.single ⟨_, .malloc (hserve _) h₁⟩).tail ⟨_, .malloc (hserve _) h₂⟩, hfree₂, ?_⟩
  intro hsep
  have hrec : ((mallocState s₁ 0x00120000 0 0).procs 0x00120000).allocations 0 = ⟨blockAddr b, 0⟩ := by
    simp only [mallocState_same, if_true, heq₂, hbc]
  obtain ⟨d, hd, hptr, htaken⟩ := hsep.taken 0x00120000 0 (by decide) (by rw [hrec]; exact blockAddr_ne_zero (by omega))
  rw [hrec] at hptr
  obtain rfl := blockAddr_inj (by omega) (by omega) hptr
  rw [hfree₂] at htaken
  cases htaken

end EnkiOs
