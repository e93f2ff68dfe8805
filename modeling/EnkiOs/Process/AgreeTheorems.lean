import EnkiOs.Process.Agree
import EnkiOs.Process.OwnedTheorems
import EnkiOs.Paging.Packed

/-!
# ページの表と割り当ての表の定理

一つのプロセスの割り当てと解放の列の後で、書き込めるヒープのページは、割り当ての表の記録の範囲とちょうど一致すること。
-/

namespace EnkiOs
open Machine Extents

variable {s s' : Kernel} {live : List Allocation} {proc ptr size toFree : Word}

/-! ## 述べること -/

/-- ヒープの範囲のアドレス。 -/
def HeapAddr (a : Word) : Prop := ENKI_HEAP_ADDRESS ≤ a ∧ a < ENKI_HEAP_ADDRESS + ENKI_HEAP_SIZE_BYTES

/-- プログラムから書き込める項目。 -/
def UserWritable (entry : Word) : Prop := entry &&& userFlags = userFlags

/-- ページに切り上げた記録の範囲に、ページが入る。 -/
def ProcessAllocation.InRange (a : ProcessAllocation) (page : Word) : Prop :=
  a.ptr ≤ page ∧ page < pagingAlignAddress (a.ptr + a.size)

/-- `dir` は `paging_new(PAGING_IS_PRESENT | PAGING_ACCESS_FROM_ALL)` の返したもので、ヒープの範囲の項目は、
作られたときのままである。 -/
def FromPagingNew (words : Words) (dir : Word) : Prop :=
  ∃ heap words₀ heap' words', KernelHeap heap ∧
    pagingNew heap words₀ ((PAGING_IS_PRESENT ||| PAGING_ACCESS_FROM_ALL).setWidth 8) = .ok (dir, heap', words') ∧
    words dir = words' dir ∧
    (∀ i < 1024, words (entryAddr (words' dir) (BitVec.ofNat 32 i)) = words' (entryAddr (words' dir) (BitVec.ofNat 32 i))) ∧
    ∀ page, PageAligned page → HeapAddr page → pagingGet words (words dir) page = pagingGet words' (words' dir) page

/-- ページの表と割り当ての表とヒープの表が合っている。 -/
structure Agrees (s : Kernel) (proc : Word) : Prop where
  writable : ∀ page, PageAligned page → HeapAddr page →
    (UserWritable (pagingGet s.words (s.words (s.tasks (s.procs proc).task).pageDir) page) ↔
      ∃ i < ENKI_MAX_PGM_ALLOCATIONS, ((s.procs proc).allocations i).ptr ≠ 0 ∧
        ((s.procs proc).allocations i).InRange page)
  identity : ∀ addr, HeapAddr addr →
    pagingGetPhysAddr s.words (s.words (s.tasks (s.procs proc).task).pageDir) addr = addr
  distinct : ∀ i < ENKI_MAX_PGM_ALLOCATIONS, ∀ j < ENKI_MAX_PGM_ALLOCATIONS, i ≠ j →
    ((s.procs proc).allocations i).ptr ≠ 0 → ((s.procs proc).allocations i).ptr ≠ ((s.procs proc).allocations j).ptr
  refused : ∀ size s', 0 < size.toNat → s.heap.Serves size → processMalloc s proc size = .ok (0, s') →
    s'.words = s.words ∧ s'.procs = s.procs ∧ ∀ j : Int, s'.heap.table.entries j = s.heap.table.entries j
  unowned : ∀ toFree s', (∀ i < ENKI_MAX_PGM_ALLOCATIONS, ((s.procs proc).allocations i).ptr ≠ toFree) →
    processFree s proc toFree = .ok s' → s' = s

/-- `proc` の、1 バイト以上の割り当てか、空でないアドレスの解放である。 -/
def ProcOp.By (proc : Word) : ProcOp → Prop
  | .malloc p size => p = proc ∧ 0 < size.toNat
  | .free p toFree => p = proc ∧ toFree ≠ 0

/-- 一つのプロセスの呼び出しの列。 -/
def OwnRun (proc : Word) : Kernel → Kernel → Prop :=
  Relation.ReflTransGen fun s s' => ∃ op, ProcStep s op s' ∧ op.By proc

/-! ## ヒープの範囲 -/

/-- ヒープの範囲のアドレスは、あるブロックの中にある。 -/
theorem HeapAddr.block {a : Word} (ha : HeapAddr a) : ∃ b < 25600, pagingAlignToLower a = blockAddr b := by
  obtain ⟨h1, h2⟩ := ha
  have hbase : ENKI_HEAP_ADDRESS.toNat = 0x01000000 := rfl
  have hend : (ENKI_HEAP_ADDRESS + ENKI_HEAP_SIZE_BYTES).toNat = 0x07400000 := rfl
  rw [BitVec.le_def, hbase] at h1
  rw [BitVec.lt_def, hend] at h2
  refine ⟨(a.toNat - 0x01000000) / 4096, by omega, ?_⟩
  apply BitVec.eq_of_toNat_eq
  rw [pagingAlignToLower_toNat, blockAddr_toNat (by omega)]
  omega

theorem HeapAddr.page {a : Word} (ha : HeapAddr a) (hal : PageAligned a) : ∃ b < 25600, a = blockAddr b := by
  obtain ⟨b, hb, heq⟩ := ha.block
  refine ⟨b, hb, ?_⟩
  rw [← heq]
  apply BitVec.eq_of_toNat_eq
  rw [pagingAlignToLower_toNat]
  simp only [PageAligned] at hal
  omega

theorem heapAddr_blockAddr {b : Nat} (hb : b < 25600) : HeapAddr (blockAddr b) := by
  have hto := blockAddr_toNat (Nat.le_of_lt hb)
  have hbase : ENKI_HEAP_ADDRESS.toNat = 0x01000000 := rfl
  have hend : (ENKI_HEAP_ADDRESS + ENKI_HEAP_SIZE_BYTES).toNat = 0x07400000 := rfl
  rw [HeapAddr, BitVec.le_def, BitVec.lt_def, hbase, hend, hto]
  omega

theorem inRange_iff {c b : Nat} {r : ProcessAllocation} (hc : c + blocksFor r.size ≤ 25600) (hb : b < 25600)
    (hptr : r.ptr = blockAddr c) : r.InRange (blockAddr b) ↔ r.Covers b := by
  have hcount : blocksFor r.size = (r.size.toNat + 4095) / 4096 := rfl
  have hto := blockAddr_toNat (b := c) (by omega)
  have hsum : (blockAddr c + r.size).toNat = 0x01000000 + c * 4096 + r.size.toNat := by
    rw [BitVec.toNat_add_of_lt (by omega), hto]
  rw [covers_blockAddr (by omega) hptr, ProcessAllocation.InRange, hptr, BitVec.le_def, BitVec.lt_def,
    pagingAlignAddress_toNat, hsum, hto, blockAddr_toNat (by omega)]
  omega

theorem userWritable_iff {a flags : Word} (ha : PageAligned a)
    (hflags : flags ∈ [0, PAGING_IS_PRESENT ||| PAGING_ACCESS_FROM_ALL, userFlags]) :
    UserWritable (a ||| flags) ↔ flags = userFlags := by
  have hzero : a &&& userFlags = 0#32 := by
    apply BitVec.eq_of_toNat_eq
    have hmask : userFlags.toNat = 2 ^ 3 - 1 := rfl
    rw [BitVec.toNat_and, hmask, Nat.and_two_pow_sub_one_eq_mod]
    simp only [PageAligned] at ha
    show a.toNat % 8 = 0
    omega
  have hor : (a ||| flags) &&& userFlags = flags &&& userFlags := by
    rw [BitVec.and_comm, BitVec.and_or_distrib_left, BitVec.and_comm userFlags a, hzero, BitVec.zero_or, BitVec.and_comm]
  rw [UserWritable, hor]
  simp only [List.mem_cons, List.not_mem_nil, or_false] at hflags
  rcases hflags with rfl | rfl | rfl
  · decide
  · decide
  · decide

theorem flags_lt {flags : Word} (hflags : flags ∈ [0, PAGING_IS_PRESENT ||| PAGING_ACCESS_FROM_ALL, userFlags]) :
    flags.toNat < 4096 := by
  simp only [List.mem_cons, List.not_mem_nil, or_false] at hflags
  rcases hflags with rfl | rfl | rfl
  · decide
  · decide
  · decide

/-! ## 合っていること -/

variable {entries : Word} {table : Nat → Word}

theorem PagesMatch.writable (hm : PagesMatch s proc entries table) (ho : Owned (· = proc) s live) {page : Word}
    (hal : PageAligned page) (hpage : HeapAddr page) :
    UserWritable (pagingGet s.words (s.words (s.tasks (s.procs proc).task).pageDir) page) ↔
      ∃ i < ENKI_MAX_PGM_ALLOCATIONS, ((s.procs proc).allocations i).ptr ≠ 0 ∧
        ((s.procs proc).allocations i).InRange page := by
  obtain ⟨b, hb, rfl⟩ := hpage.page hal
  obtain ⟨flags, hflags, heq, hiff⟩ := hm.entry b hb
  rw [hm.pageDir.dir_eq, hm.pageDir.get_block hb, heq, userWritable_iff hal hflags, hiff, Recorded]
  refine exists_congr fun i => and_congr_right fun hi => and_congr_right fun hne => ?_
  obtain ⟨a, ha, haddr, hsize⟩ := ho.owned rfl i hi hne
  obtain ⟨c, hc, hblock, -⟩ := ho.inv.block ho.heap ha
  rw [inRange_iff (c := c) (by rw [← hsize]; exact hc) hb (by rw [← haddr]; exact hblock)]

theorem PagesMatch.identity (hm : PagesMatch s proc entries table) {addr : Word} (haddr : HeapAddr addr) :
    pagingGetPhysAddr s.words (s.words (s.tasks (s.procs proc).task).pageDir) addr = addr := by
  obtain ⟨b, hb, hlower⟩ := haddr.block
  obtain ⟨flags, hflags, heq, -⟩ := hm.entry b hb
  have hmask : (blockAddr b ||| flags) &&& 0xFFFFF000 = blockAddr b :=
    (pageAligned_blockAddr (by omega)).and_mask (flags_lt hflags)
  simp only [pagingGetPhysAddr]
  rw [hlower, hm.pageDir.dir_eq, hm.pageDir.get_block hb, heq, hmask, BitVec.add_comm, BitVec.sub_add_cancel]

/-- 収まる割り当てをすぐに解放すると、表はどこも変わらない。 -/
theorem HeapInv.kzalloc_kfree_entries {h : Heap} (hi : HeapInv h live) (hk : KernelHeap h) (hpos : 0 < size.toNat)
    (hrun : h.table.HasRun (blocksFor size)) (j : Int) :
    (kfree (kzalloc h size.toNat).2 (kzalloc h size.toNat).1).table.entries j = h.table.entries j := by
  have hinv := hi.kzalloc_live hk hpos hrun
  have hk' := (kernelHeap_kept.kzalloc size.toNat hk).1
  obtain ⟨c, hc, haddr, hfirst⟩ := hinv.block hk' List.mem_cons_self
  have hfree := hinv.kfree_entries hk' List.mem_cons_self hfirst j
  simp only at hc haddr hfree
  rw [hfree]
  have hle := hk.size_le hrun
  rcases hk.kzalloc_cases size.toNat with h0 | ⟨b, m, hb, heq, hm⟩
  · rw [h0] at haddr
    exact absurd haddr.symm (blockAddr_ne_zero (by omega))
  · have hblocks : m = blocksFor size := hm (by omega)
    have hlt := hb.lt
    rw [heq] at haddr ⊢
    obtain rfl : b = c := blockAddr_inj (by omega) (by omega) haddr
    by_cases hin : (b : Int) ≤ j ∧ j < b + blocksFor size
    · obtain ⟨i, rfl⟩ : ∃ i : Nat, j = i := ⟨j.toNat, by omega⟩
      rw [if_pos hin, hi.entry_of_freeAt (by rw [hk.length_eq]; omega)
        (hb.vacant i (by omega) (by omega) (by omega))]
    · rw [if_neg hin, markTaken_entries (by omega), if_neg (by omega)]

theorem Owned.refused (ho : Owned (· = proc) s live) (hpos : 0 < size.toNat) (hserve : s.heap.Serves size)
    (h : processMalloc s proc size = .ok (0, s')) :
    s'.words = s.words ∧ s'.procs = s.procs ∧ ∀ j : Int, s'.heap.table.entries j = s.heap.table.entries j := by
  rcases processMalloc_cases h with ⟨h0, -, hs'⟩ | ⟨h0, -, hfail, hprocs, -, hheap⟩ | ⟨h0, hptr, -, -, idx, -, -⟩
  · rw [hs', ho.heap.kzalloc_zero h0]
    exact ⟨rfl, rfl, fun _ => rfl⟩
  · have hrun := hserve.resolve_right h0
    refine ⟨?_, hprocs, ?_⟩
    · rcases hfail with ⟨-, hwords⟩ | ⟨-, hneg⟩
      · exact hwords
      · obtain ⟨c, hc, hmade⟩ := ho.made hpos hrun
        rw [hmade, mallocMap_eq hc] at hneg
        exact absurd hneg (Int.lt_irrefl 0)
    · intro j
      rw [hheap]
      exact ho.inv.kzalloc_kfree_entries ho.heap hpos hrun j
  · exact absurd hptr.symm h0

theorem PagesMatch.agrees (hm : PagesMatch s proc entries table) (ho : Owned (· = proc) s live) : Agrees s proc where
  writable := fun _ hal hpage => hm.writable ho hal hpage
  identity := fun _ haddr => hm.identity haddr
  distinct := fun i hi j hj hij hne heq => hij (ho.distinct rfl i hi rfl j hj hne heq).2
  refused := fun _ _ hpos hserve h => ho.refused hpos hserve h
  unowned := by
    intro toFree s' hno h
    rcases processFree_cases h with ⟨-, hs'⟩ | ⟨alloc, hget, -, -⟩
    · exact hs'
    · obtain ⟨j, hj, heq, hptr⟩ := processGetAllocation_some hget
      exact absurd (heq ▸ hptr) (hno j hj)

/-! ## 実行 -/

theorem OwnRun.agrees (hr : OwnRun proc s s') (ho : Owned (· = proc) s live) (hm : PagesMatch s proc entries table) :
    ∃ live', Owned (· = proc) s' live' ∧ PagesMatch s' proc entries table := by
  induction hr with
  | refl => exact ⟨live, ho, hm⟩
  | tail _ hstep ih =>
      obtain ⟨live', ho', hm'⟩ := ih
      obtain ⟨op, hs, hby⟩ := hstep
      cases hs with
      | malloc hserve h =>
          obtain ⟨rfl, hpos⟩ := hby
          obtain ⟨live'', ho''⟩ := ho'.malloc hpos hserve h
          exact ⟨live'', ho'', hm'.malloc ho' hpos hserve h⟩
      | free h =>
          obtain ⟨rfl, hne⟩ := hby
          obtain ⟨live'', ho''⟩ := ho'.free rfl (.inl hne) h
          exact ⟨live'', ho'', hm'.free ho' hne h⟩

/-- `paging_new` の作ったディレクトリと、空の割り当ての表。 -/
theorem FromPagingNew.pagesMatch (hdir : FromPagingNew s.words (s.tasks (s.procs proc).task).pageDir)
    (hempty : ∀ i < ENKI_MAX_PGM_ALLOCATIONS, ((s.procs proc).allocations i).ptr = 0) :
    ∃ entries table, PagesMatch s proc entries table := by
  obtain ⟨heap, words₀, heap', words', hk, hnew, hsame, hentries, hpages⟩ := hdir
  obtain ⟨-, -, entries, table, hpd, hid, -⟩ := pagingNew_pageDir kernelHeap_kept hk hk hnew
  have hpd' : PageDir s.words (s.tasks (s.procs proc).task).pageDir entries table := by
    refine { hpd with dir_eq := by rw [hsame]; exact hpd.dir_eq, dirEntry := ?_ }
    intro i hi
    have heq := hentries i hi
    rw [hpd.dir_eq] at heq
    rw [heq]
    exact hpd.dirEntry i hi
  refine ⟨entries, table, hpd', ?_⟩
  intro b hb
  refine ⟨PAGING_IS_PRESENT ||| PAGING_ACCESS_FROM_ALL, by decide, ?_, ?_⟩
  · have heq := hpages (blockAddr b) (pageAligned_blockAddr (by omega)) (heapAddr_blockAddr hb)
    rw [hpd'.dir_eq, hpd.dir_eq, hpd'.get_block hb, hpd.get_block hb, hid _ (by omega)] at heq
    rw [heq]
    congr 1
    apply BitVec.eq_of_toNat_eq
    rw [blockAddr_toNat (by omega), BitVec.toNat_ofNat]
    omega
  · refine ⟨fun h => absurd h (by decide), ?_⟩
    rintro ⟨i, hi, hne, -⟩
    exact absurd (hempty i hi) hne

/-- `paging_new` の作ったページの表を持ち、記録の空なプロセスが、1 バイト以上の割り当てと、空でないアドレスの解放を
どの順に呼んでも、ページの表と割り当ての表は合っている。 -/
theorem agrees_of_ownRun (hk : KernelHeap s.heap) (hi : HeapInv s.heap live)
    (hempty : ∀ i < ENKI_MAX_PGM_ALLOCATIONS, ((s.procs proc).allocations i).ptr = 0)
    (hdir : FromPagingNew s.words (s.tasks (s.procs proc).task).pageDir) (hr : OwnRun proc s s') : Agrees s' proc := by
  obtain ⟨entries, table, hm⟩ := hdir.pagesMatch hempty
  have ho : Owned (· = proc) s live := Owned.start hk hi fun x hx => by rw [hx]; exact hempty
  obtain ⟨live', ho', hm'⟩ := hr.agrees ho hm
  exact hm'.agrees ho'

/-! ## 作った直後のページの表からの割り当て -/

/-- 一ブロックに収まる割り当ては、失敗しても成功しても、不変条件を保つ。 -/
theorem HeapInv.kzalloc_small {h : Heap} (hi : HeapInv h live) (hk : KernelHeap h) {n : Nat} (hpos : 0 < n)
    (hle : n ≤ 4096) : ∃ live', HeapInv (kzalloc h n).2 live' := by
  have hn : (BitVec.ofNat 32 n).toNat = n := by
    rw [BitVec.toNat_ofNat]
    omega
  have hone : blocksFor (BitVec.ofNat 32 n) = 1 := by
    rw [blocksFor, hn]
    omega
  rcases hk.kzalloc_small hpos hle with h0 | ⟨b, hb, hfree, -⟩
  · rw [h0]
    exact ⟨live, hi⟩
  · have hrun : h.table.HasRun (blocksFor (BitVec.ofNat 32 n)) := by
      refine ⟨b, by rw [hone, hk.length_eq]; omega, ?_⟩
      intro j h1 h2
      obtain rfl : j = b := by omega
      exact hfree
    have hinv : ∃ live', HeapInv (kzalloc h (BitVec.ofNat 32 n).toNat).2 live' :=
      ⟨_, hi.kzalloc_live hk (by rw [hn]; exact hpos) hrun⟩
    rwa [hn] at hinv

theorem pagingNewLoop_live {flags entries offset : Word} {k i : Nat} {heap heap' : Heap} {words words' : Words}
    (hk : KernelHeap heap) (hi : HeapInv heap live)
    (h : pagingNewLoop flags entries k i offset heap words = .ok (heap', words')) :
    KernelHeap heap' ∧ ∃ live', HeapInv heap' live' := by
  induction k generalizing i offset heap words live with
  | zero =>
      cases h
      exact ⟨hk, live, hi⟩
  | succ k ih =>
      rw [pagingNewLoop] at h
      simp only at h
      split at h
      · cases h
      · obtain ⟨live', hi'⟩ := hi.kzalloc_small hk (n := 4 * PAGING_TOTAL_ENTRIES_PER_TABLE) (by decide) (by decide)
        exact ih (kernelHeap_kept.kzalloc _ hk).1 hi' h

theorem pagingNew_live {heap heap' : Heap} {words words' : Words} {flags : Byte} {dir : Word} (hk : KernelHeap heap)
    (hi : HeapInv heap live) (h : pagingNew heap words flags = .ok (dir, heap', words')) :
    ∃ live', HeapInv heap' live' := by
  simp only [pagingNew] at h
  obtain ⟨live₁, hi₁⟩ := hi.kzalloc_small hk (n := 4 * PAGING_TOTAL_ENTRIES_PER_TABLE) (by decide) (by decide)
  split at h
  · cases h
  · obtain ⟨⟨heap₂, words₂⟩, hloop, h⟩ := bind_ok.1 h
    obtain ⟨hk₂, live₂, hi₂⟩ := pagingNewLoop_live (kernelHeap_kept.kzalloc _ hk).1 hi₁ hloop
    obtain ⟨live₃, hi₃⟩ := hi₂.kzalloc_small hk₂ (n := 4) (by decide) (by decide)
    simp only at h
    split at h
    · cases h
    · cases h
      exact ⟨live₃, hi₃⟩

/-- 割り当てのあとの、次の記録。 -/
theorem processFindFreeAlloc_next {b : Nat} {heap : Heap} (heq : kzalloc s.heap size.toNat = (blockAddr b, heap))
    (hb : b ≤ 25600) (hempty : ((s.procs proc).allocations 1).ptr = 0) :
    processFindFreeAlloc ((mallocState s proc size 0).procs proc) = some 1 := by
  have hused : (((mallocState s proc size 0).procs proc).allocations 0).ptr ≠ 0 := by
    simp only [mallocState_same, if_true, heq]
    exact blockAddr_ne_zero hb
  have hfree : (((mallocState s proc size 0).procs proc).allocations 1).ptr = 0 := by
    simp only [mallocState_same, Nat.one_ne_zero, if_false]
    exact hempty
  rw [processFindFreeAlloc, processFreeAllocFrom, if_neg hused, processFreeAllocFrom, if_pos hfree]

/-- 起動した直後に作ったページの表を持つプロセスが、1 バイトずつ二度割り当て、先のものを解放した後。 -/
theorem agrees_of_ownRun_freed : ∃ (s s₁ s₂ s₃ : Kernel) (b : Nat),
    FromPagingNew s.words (s.tasks (s.procs 0x00110000).task).pageDir ∧
    processMalloc s 0x00110000 1 = .ok (blockAddr b, s₁) ∧ processMalloc s₁ 0x00110000 1 = .ok (blockAddr (b + 1), s₂) ∧
    processFree s₂ 0x00110000 (blockAddr b) = .ok s₃ ∧ Agrees s₃ 0x00110000 := by
  obtain ⟨hk, -, hi, -⟩ := idleKernel_heap
  obtain ⟨heap, words, hnew, hp⟩ := pagingNew_packed (fun _ => 0)
    ((PAGING_IS_PRESENT ||| PAGING_ACCESS_FROM_ALL).setWidth 8) bootHeap_packed (by decide)
  obtain ⟨live, hlive⟩ := pagingNew_live hk hi hnew
  obtain ⟨s, hs⟩ : ∃ s : Kernel, s = { idleKernel with
    heap := heap, words := words, tasks := fun _ => { pageDir := blockAddr (0 + 1025) } } := ⟨_, rfl⟩
  have hheap : s.heap = heap := by rw [hs]
  have hprocs : s.procs = idleKernel.procs := by rw [hs]
  have hdir : FromPagingNew s.words (s.tasks (s.procs 0x00110000).task).pageDir := by
    rw [hs]
    exact ⟨bootHeap, fun _ => 0, heap, words, hk, hnew, rfl, fun _ _ => rfl, fun _ _ _ => rfl⟩
  have htask : (s.procs 0x00110000).task ≠ 0 := by
    rw [hprocs]
    exact show ((0x00110000 : Word) + 4) ≠ 0 by decide
  have hempty : ∀ i, ((s.procs 0x00110000).allocations i).ptr = 0 := by
    intro i
    rw [hprocs]
    rfl
  rw [← hheap] at hp
  obtain ⟨hserve₁, h₁, hp₁⟩ := processMalloc_packed hp (by decide) htask (processFindFreeAlloc_first (hempty 0))
  obtain ⟨heap₁, heq₁, -, -⟩ := hp.small (show 0 < (1 : Word).toNat by decide) (by decide) (by decide)
  have htask₁ : ((mallocState s 0x00110000 1 0).procs 0x00110000).task ≠ 0 := by
    simpa [mallocState, Kernel.setProc] using htask
  obtain ⟨hserve₂, h₂, -⟩ := processMalloc_packed hp₁ (by decide) htask₁
    (processFindFreeAlloc_next heq₁ (by decide) (hempty 1))
  have htask₂ : ((mallocState (mallocState s 0x00110000 1 0) 0x00110000 1 1).procs 0x00110000).task ≠ 0 := by
    simpa [mallocState, Kernel.setProc] using htask
  obtain ⟨s₃, h₃⟩ := processFree_total (blockAddr (0 + 1026)) htask₂
  have hrun : OwnRun 0x00110000 s s₃ :=
    ((Relation.ReflTransGen.single ⟨_, .malloc hserve₁ h₁, rfl, by decide⟩).tail ⟨_, .malloc hserve₂ h₂, rfl, by decide⟩).tail
      ⟨_, .free h₃, rfl, blockAddr_ne_zero (by decide)⟩
  refine ⟨s, _, _, s₃, _, hdir, h₁, h₂, h₃, ?_⟩
  exact agrees_of_ownRun (by rw [hheap]; exact (hheap ▸ hp).toKernelHeap) (by rw [hheap]; exact hlive)
    (fun i _ => hempty i) hdir hrun

end EnkiOs
