import EnkiOs.Process.Kept
import EnkiOs.Process.Packed

/-!
# 読み込んだ直後のページの表

成功した読み込みの後の、新しいタスクのページの表。どのページの項目も、`paging_new` の項目に、プログラムヘッダと
スタックの割り付けを順に重ねたものである。
-/

namespace EnkiOs
open Machine

/-- 割り当ての返すアドレス。 -/
def IsBlock (a : Word) : Prop := a = 0 ∨ ∃ b < 25600, a = blockAddr b

theorem kzalloc_isBlock {h : Heap} (n : Nat) (hk : KernelHeap h) : IsBlock (kzalloc h n).1 := by
  rcases hk.kzalloc_cases n with h0 | ⟨b, m, hb, heq, -⟩
  · rw [h0]
    exact .inl rfl
  · rw [heq]
    exact .inr ⟨b, hb.lt, rfl⟩

theorem IsBlock.aligned {a : Word} (h : IsBlock a) : PageAligned a := by
  rcases h with rfl | ⟨b, hb, rfl⟩
  · rfl
  · exact pageAligned_blockAddr (Nat.le_of_lt hb)

theorem straySafe_true (s : FileState) : StraySafe (fun _ => True) s := by
  intro a _
  refine ⟨trivial, trivial, ?_⟩
  split <;> trivial

/-! ## スタックの割り付け -/

def stackMappings (stack : Word) : List Mapping := pageMappings ENKI_PGM_VIRT_STACK_ADDR_END stack userFlags 4

theorem processMapStack_eq {b : Nat} (hb : b < 25600) (words : Words) (dir : Word) :
    processMapStack words dir (blockAddr b) = (stackMappings (blockAddr b)).foldl (Mapping.put dir) words := by
  have hbase := blockAddr_toNat (Nat.le_of_lt hb)
  have hsize : (BitVec.ofNat 32 ENKI_USER_PGM_STACK_SIZE).toNat = 16384 := rfl
  have hend : (pagingAlignAddress (blockAddr b + BitVec.ofNat 32 ENKI_USER_PGM_STACK_SIZE)).toNat =
      (blockAddr b).toNat + 16384 := by
    rw [pagingAlignAddress_toNat, BitVec.toNat_add, hsize, hbase]
    omega
  have hle : blockAddr b ≤ pagingAlignAddress (blockAddr b + BitVec.ofNat 32 ENKI_USER_PGM_STACK_SIZE) := by
    rw [BitVec.le_def, hend]
    omega
  have hcount : pageCount (blockAddr b) (pagingAlignAddress (blockAddr b + BitVec.ofNat 32 ENKI_USER_PGM_STACK_SIZE)) = 4 := by
    rw [pageCount_eq hle, hend, if_pos (by omega)]
    omega
  rw [processMapStack, pagingMapTo_eq (by decide) (pageAligned_blockAddr (Nat.le_of_lt hb)) (pageAligned_alignAddress _),
    if_neg (BitVec.not_lt.2 hle), hcount]
  rfl

/-! ## 成功した割り付け -/

/-- 繰り返しの結果は、どのヘッダの範囲も終わりが手前にないかどうかで決まる。 -/
theorem processMapElfLoop_result {mem : Memory} {file : ElfFile} {dir : Word} {k i : Nat} {result : Int} {words : Words} :
    (processMapElfLoop mem file dir k i result words).1 = if k = 0 then result
      else if ∀ j < k, ¬phdrEnd file (elfProgramHeader mem file.elfMemory (i + j)) <
        phdrBase file (elfProgramHeader mem file.elfMemory (i + j)) then 0 else -EINVARG := by
  induction k generalizing i result words with
  | zero => rfl
  | succ k ih =>
      have hsplit : (∀ j < k + 1, ¬phdrEnd file (elfProgramHeader mem file.elfMemory (i + j)) <
          phdrBase file (elfProgramHeader mem file.elfMemory (i + j))) ↔
          ¬phdrEnd file (elfProgramHeader mem file.elfMemory i) < phdrBase file (elfProgramHeader mem file.elfMemory i) ∧
          ∀ j < k, ¬phdrEnd file (elfProgramHeader mem file.elfMemory (i + 1 + j)) <
            phdrBase file (elfProgramHeader mem file.elfMemory (i + 1 + j)) := by
        rw [Nat.forall_lt_succ_left]
        simp only [Nat.add_zero, Nat.add_assoc, Nat.add_comm 1]
      rw [if_neg (Nat.succ_ne_zero k), processMapElfLoop, processMapPhdr_eq]
      by_cases hrej : phdrEnd file (elfProgramHeader mem file.elfMemory i) <
          phdrBase file (elfProgramHeader mem file.elfMemory i)
      · rw [if_pos hrej, if_neg fun h => (hsplit.1 h).1 hrej]
        rfl
      · rw [if_neg hrej]
        simp only [Int.lt_irrefl, if_false, ih, hsplit, hrej, not_false_eq_true, true_and]
        by_cases hk : k = 0
        · subst hk
          simp
        · rw [if_neg hk]

theorem processMapElf_result {mem : Memory} {words : Words} {dir : Word} {file : ElfFile} :
    (processMapElf mem words dir file).1 = if ∀ j < (ElfHeader.at mem file.elfMemory).ePhnum.toNat,
      ¬phdrEnd file (elfProgramHeader mem file.elfMemory j) < phdrBase file (elfProgramHeader mem file.elfMemory j)
      then 0 else -EINVARG := by
  rw [processMapElf, processMapElfLoop_result]
  simp only [Nat.zero_add]
  split
  · rename_i h0
    rw [h0, if_pos fun j hj => absurd hj (Nat.not_lt_zero j)]
  · rfl

/-- 割り付けに成功したなら、どのヘッダの範囲も、終わりが手前にない。 -/
theorem processMapElf_ok {mem : Memory} {words : Words} {dir : Word} {file : ElfFile}
    (h : 0 ≤ (processMapElf mem words dir file).1) :
    ∀ j < (ElfHeader.at mem file.elfMemory).ePhnum.toNat,
      ¬ phdrEnd file (elfProgramHeader mem file.elfMemory j) < phdrBase file (elfProgramHeader mem file.elfMemory j) := by
  rw [processMapElf_result] at h
  split at h
  · assumption
  · exact absurd h (by decide)

theorem elfMappings_aligned {mem : Memory} {file : ElfFile} {m : Mapping} (hm : m ∈ elfMappings mem file) :
    PageAligned m.virt ∧ PageAligned m.phys := by
  obtain ⟨j, -, -, hm⟩ := mem_elfMappingsFrom.1 hm
  exact pageMappings_aligned (pageAligned_alignToLower _) (pageAligned_alignToLower _) hm

/-! ## 読み込みの後 -/

/-- `paging_new` の付けるフラグ。 -/
def readFlags : Word := PAGING_IS_PRESENT ||| PAGING_ACCESS_FROM_ALL

/-- 読み込んだ ELF ファイルのプロセスの、ページの表とスタック。 -/
structure LoadedElf (s : Kernel) (proc entries : Word) (table : Nat → Word) : Prop where
  pageDir : PageDir s.words (s.tasks (s.procs proc).task).pageDir entries table
  entry : ∀ n < 2 ^ 20, s.words (pageSlot table n) = mappedEntry n (BitVec.ofNat 32 (4096 * n) ||| readFlags)
    (elfMappings s.mem (s.elfFiles (s.procs proc).addr) ++ stackMappings (s.procs proc).stack)
  stack : ∃ b < 25600, (s.procs proc).stack = blockAddr b
  stack_zero : ∀ x, (x - (s.procs proc).stack).toNat < ENKI_USER_PGM_STACK_SIZE → s.mem x = 0
  memory_aligned : PageAligned (s.elfFiles (s.procs proc).addr).elfMemory
  reached : ∀ j < (ElfHeader.at s.mem (s.elfFiles (s.procs proc).addr).elfMemory).ePhnum.toNat,
    ¬ phdrEnd (s.elfFiles (s.procs proc).addr)
        (elfProgramHeader s.mem (s.elfFiles (s.procs proc).addr).elfMemory j) <
      phdrBase (s.elfFiles (s.procs proc).addr)
        (elfProgramHeader s.mem (s.elfFiles (s.procs proc).addr).elfMemory j)

theorem LoadedElf.stack_aligned {s : Kernel} {proc entries : Word} {table : Nat → Word}
    (hl : LoadedElf s proc entries table) : PageAligned (s.procs proc).stack := by
  obtain ⟨b, hb, heq⟩ := hl.stack
  rw [heq]
  exact pageAligned_blockAddr (Nat.le_of_lt hb)

theorem processLoadSlot_loaded {depth : Nat} {s s' : Kernel} {fileName : List Byte} {slot result : Int} {proc : Word}
    (hk : KernelHeap s.heap) (h : processLoadSlot depth s fileName slot = .ok (result, proc, s')) (hresult : 0 ≤ result)
    (helf : (s'.procs proc).fileType = PROCESS_FILE_TYPE_ELF) :
    ∃ entries table, LoadedElf s' proc entries table := by
  obtain ⟨s₁, t, dir, heap₁, words, words₁, hprep, -, hkt, hpaging, hmem', hfiles, hproc, hdir, himg, hwords⟩ :=
    processLoadSlotWith_state h hresult
  obtain ⟨hk₁, -, himage, hstack, hstack_ne, mem, hmem⟩ := processPrepareWith_kept kernelHeap_kept
    (fun n hk => kzalloc_isBlock n hk) hk (straySafe_true _) (fun _ _ => trivial) hprep
  have hk₂ : KernelHeap heap₁ := by
    have := (kernelHeap_kept.kzalloc TASK_SIZE hk₁).1
    rwa [hkt] at this
  obtain ⟨-, -, entries, table, hpage, hentry, -⟩ := pagingNew_pageDir kernelHeap_kept hk₂ hk₂ hpaging
  obtain ⟨b, hb, hstack_eq⟩ : ∃ b < 25600, (s'.procs proc).stack = blockAddr b := by
    rw [hproc]
    exact hstack.resolve_left hstack_ne
  rw [processMapImage, helf, if_neg (by decide), if_pos rfl] at himg
  have hpair := Except.ok.inj himg
  have hcode : 0 ≤ (processMapElf s₁.mem words dir (s₁.elfFiles (s'.procs proc).addr)).1 := by
    rw [show processMapElf s₁.mem words dir (s₁.elfFiles (s'.procs proc).addr) = _ from hpair]
    exact hresult
  have hfold := hpage.foldl_put (elfMappings s'.mem (s'.elfFiles (s'.procs proc).addr) ++ stackMappings (blockAddr b)) (by
    intro m hm
    rcases List.mem_append.1 hm with hm | hm
    · exact elfMappings_aligned hm
    · exact pageMappings_aligned (by decide) (pageAligned_blockAddr (Nat.le_of_lt hb)) hm)
  have hfinal : s'.words = (elfMappings s'.mem (s'.elfFiles (s'.procs proc).addr) ++ stackMappings (blockAddr b)).foldl
      (Mapping.put dir) words := by
    have hsnd := congrArg Prod.snd hpair
    rw [processMapElf_words] at hsnd
    rw [hwords, hstack_eq, processMapStack_eq hb, List.foldl_append, hmem', hfiles]
    exact congrArg (fun w => (stackMappings (blockAddr b)).foldl (Mapping.put dir) w) hsnd.symm
  rw [← hfinal] at hfold
  have htask : (s'.tasks (s'.procs proc).task).pageDir = dir := by
    rw [hproc]
    exact hdir
  refine ⟨entries, table, ?_, ?_, ⟨b, hb, hstack_eq⟩, ?_, ?_, ?_⟩
  · rw [htask]
    exact hfold.1
  · intro n hn
    rw [hfold.2 n hn, hentry n hn, hstack_eq]
    rfl
  · intro x hx
    rw [hproc] at hx
    rw [hmem', hmem, Memory.zero, Memory.write, List.getElem?_replicate, if_pos hx]
    rfl
  · rw [hfiles, hproc]
    rw [hproc] at helf
    exact (himage.2 helf).1.aligned
  · rw [hmem', hfiles]
    exact processMapElf_ok hcode

end EnkiOs
