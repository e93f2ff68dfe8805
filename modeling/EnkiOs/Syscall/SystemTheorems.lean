import EnkiOs.Process.Atomic
import EnkiOs.Process.Leak
import EnkiOs.Syscall.PrintTheorems

/-!
# 失敗した `system`

`syscall_7_system` は、引数を渡す前に新しいプロセスを登録する。引数を渡すのに失敗しても、その登録は取り消されない。
-/

namespace EnkiOs
open Machine

variable {depth fuel : Nat} {s s' : Kernel} {fileName : List Byte} {slot result : Int} {proc root : Word}

/-! ## 負の結果を返した読み込み -/

/-- 負の結果を返した読み込みが表と並びを変えないのは、空いた番号が無いか、プロセスの記録が割り当てられないときである。 -/
theorem processLoadSwitch_sameTables_iff (hfresh : ¬LandsOnTail depth s fileName (processGetFreeSlot s))
    (h : processLoadSwitch depth s fileName = .ok (result, proc, s')) (hneg : result < 0) :
    SameTables s s' ↔ SlotsFull s ∨ (kzalloc s.heap PROCESS_SIZE).1 = 0 := by
  obtain ⟨⟨err, p, s₁⟩, hload, h⟩ := bind_ok.1 h
  simp only at h
  split at h
  · rename_i h0
    cases h
    omega
  · cases h
    simp only [processLoadWith] at hload
    rcases processGetFreeSlot_cases s with ⟨hslot, hfull⟩ | ⟨hlow, hhigh, hfree⟩
    · rw [hslot, if_pos (by decide)] at hload
      cases hload
      exact iff_of_true (.refl s) (.inl hfull)
    · rw [if_neg (Int.not_lt.2 hlow)] at hload
      have hget : processGet s (processGetFreeSlot s) = 0 := by
        rw [processGet]
        split
        · rfl
        · exact hfree
      by_cases hproc : (kzalloc s.heap PROCESS_SIZE).1 = 0
      · cases hload.symm.trans (processLoadSlot_noRecord hget hproc)
        exact iff_of_true ⟨fun _ _ _ => rfl, rfl, rfl, rfl, rfl, fun _ => ⟨rfl, rfl⟩⟩ (.inr hproc)
      · refine iff_of_false ?_ ?_
        · intro hsame
          exact hfresh (processLoadSlot_negative hget hproc hload hneg hsame)
        · rintro (hfull | h0)
          · exact hfull.not_free hlow hhigh hfree
          · exact hproc h0

/-- 成功した読み込みは、空いていた番号を埋める。 -/
theorem processLoadSwitch_processes (h : processLoadSwitch depth s fileName = .ok (result, proc, s'))
    (hresult : 0 ≤ result) :
    ∃ i, 0 ≤ i ∧ i < ENKI_MAX_PROCESSES ∧ s.processes i = 0 ∧ s'.processes i = proc ∧ proc ≠ 0 ∧
      (kzalloc s.heap PROCESS_SIZE).1 = proc := by
  obtain ⟨⟨err, p, s₁⟩, hload, h⟩ := bind_ok.1 h
  have hprocesses : s'.processes = s₁.processes ∧ err = result ∧ p = proc := by
    simp only at h
    split at h
    · cases h
      exact ⟨rfl, rfl, rfl⟩
    · cases h
      exact ⟨rfl, rfl, rfl⟩
  obtain ⟨hsame, rfl, rfl⟩ := hprocesses
  simp only [processLoadWith] at hload
  rcases processGetFreeSlot_cases s with ⟨hslot, -⟩ | ⟨hlow, hhigh, hfree⟩
  · rw [hslot, if_pos (by decide)] at hload
    cases hload
    exact absurd hresult (by decide)
  · rw [if_neg (Int.not_lt.2 hlow)] at hload
    have henroll := processLoadSlotWith_enrolls hload hresult
    refine ⟨processGetFreeSlot s, hlow, hhigh, hfree, ?_, henroll.record_ne, henroll.record_eq⟩
    rw [hsame, henroll.processes]
    exact if_pos rfl

/-! ## 引数の受け渡し -/

theorem processInjectLoop_processes {argv : Word} {k : Nat} {current : Word} {i : Int}
    (h : processInjectLoop proc argv k s current i = .ok (result, s')) : s'.processes = s.processes := by
  induction k generalizing s current i with
  | zero =>
      rw [processInjectLoop] at h
      split at h
      · cases h
        rfl
      · cases h
  | succ k ih =>
      rw [processInjectLoop] at h
      split at h
      · cases h
        rfl
      · obtain ⟨⟨sArg, s₁⟩, hmalloc, h⟩ := bind_ok.1 h
        have hsame := (processMalloc_registry hmalloc).processes
        simp only at h
        split at h
        · cases h
          exact hsame
        · obtain ⟨mem, -, h⟩ := bind_ok.1 h
          exact (ih h).trans hsame

theorem processInjectArgs_processes (h : processInjectArgs fuel s proc root = .ok (result, s')) :
    s'.processes = s.processes := by
  obtain ⟨argc, -, h⟩ := bind_ok.1 h
  split at h
  · cases h
    rfl
  · obtain ⟨⟨argv, s₁⟩, hmalloc, h⟩ := bind_ok.1 h
    have hsame := (processMalloc_registry hmalloc).processes
    simp only at h
    split at h
    · cases h
      exact hsame
    · obtain ⟨⟨code, s₂⟩, hloop, h⟩ := bind_ok.1 h
      have hsame' := (processInjectLoop_processes hloop).trans hsame
      simp only at h
      split at h
      · cases h
        exact hsame'
      · cases h
        exact hsame'

/-! ## システムコール -/

/-- 引数の並びが、空のポインタであるか、空の文字列から始まる。 -/
def BadArgs (s : Kernel) : Prop :=
  ∃ ptr args, taskGetStackItem s s.taskCurrent 0 = .ok ptr ∧ taskVirtToPhysAddr s s.taskCurrent ptr = .ok args ∧
    (args = 0 ∨ s.mem args = 0)

/-- 負の値を返した `system` が表と並びを変えていないのは、引数の並びが正しくないか、空いた番号が無いか、プロセスの記録が
割り当てられないとき、そのときに限る。 -/
theorem syscall7System_sameTables_iff (hfresh : ∀ fileName, ¬LandsOnTail depth s fileName (processGetFreeSlot s))
    (h : syscall7System depth fuel s = .ok (result, s')) (hneg : result < 0) :
    SameTables s s' ↔ BadArgs s ∨ SlotsFull s ∨ (kzalloc s.heap PROCESS_SIZE).1 = 0 := by
  obtain ⟨ptr, hptr, h⟩ := bind_ok.1 h
  obtain ⟨args, hargs, h⟩ := bind_ok.1 h
  split at h
  · rename_i hbad
    cases h
    exact iff_of_true (.refl s) (.inl ⟨ptr, args, hptr, hargs, hbad⟩)
  · rename_i hgood
    have hargsOk : ¬BadArgs s := by
      rintro ⟨ptr', args', hptr', hargs', hbad⟩
      cases hptr.symm.trans hptr'
      cases hargs.symm.trans hargs'
      exact hgood hbad
    rw [or_iff_right hargsOk]
    obtain ⟨⟨code, p, s₁⟩, hload, h⟩ := bind_ok.1 h
    simp only at h
    split at h
    · rename_i hcode
      cases h
      exact processLoadSwitch_sameTables_iff (hfresh _) hload hcode
    · rename_i hcode
      -- 読み込みに成功した後では、表に新しいプロセスが残る。
      obtain ⟨i, hlow, hhigh, hfree, hnew, hne, hproc⟩ := processLoadSwitch_processes hload (Int.not_lt.1 hcode)
      obtain ⟨⟨code', s₂⟩, hinject, h⟩ := bind_ok.1 h
      have hsame := processInjectArgs_processes hinject
      simp only at h
      split at h
      · cases h
        refine iff_of_false ?_ ?_
        · intro htables
          have hi := htables.processes i hlow hhigh
          rw [hsame, hnew, hfree] at hi
          exact hne hi
        · rintro (hfull | h0)
          · exact hfull.not_free hlow hhigh hfree
          · exact hne (hproc.symm.trans h0)
      · cases h
        omega

/-- スタックの上の引数が空のポインタなら、何も始めない。 -/
theorem syscall7System_sameTables_iff_null : syscall7System 1 0 flatKernel = .ok (-EINVARG, flatKernel) ∧
    (SameTables flatKernel flatKernel ↔ BadArgs flatKernel ∨ SlotsFull flatKernel ∨
      (kzalloc flatKernel.heap PROCESS_SIZE).1 = 0) := by
  have h : syscall7System 1 0 flatKernel = .ok (-EINVARG, flatKernel) := by
    refine bind_ok.2 ⟨0, rfl, bind_ok.2 ⟨0, rfl, ?_⟩⟩
    rw [if_pos (.inl rfl)]
    rfl
  exact ⟨h, syscall7System_sameTables_iff (fun _ hlands => hlands.head_ne rfl) h (by decide)⟩

/-! ## 引数を渡す前に尽きるヒープ -/

/-- スタックの先頭の `0x3FE000` の語は `0x400000` で、そこに `"A"` の記録が一つある。 -/
def crowdedMemory : Memory := fun a => if a = 0x3FE002 then 0x40 else if a = 0x400000 then 0x41 else 0

/-- 一つのプログラムが動いていて、空きがちょうど次の読み込みの分だけ残ったカーネル。 -/
def crowdedKernel (v : Volume) : Kernel := { Kernel.boot (stateWith v 0) with
  heap := ⟨⟨fun b => if b < 24557 then HEAP_BLOCK_TABLE_ENTRY_TAKEN else HEAP_BLOCK_TABLE_ENTRY_FREE, 25600⟩, ENKI_HEAP_ADDRESS⟩
  words := flatWords
  tasks := fun _ => { pageDir := 0x100000, registers := { esp := 0x3FE000 }, process := blockAddr 0 }
  taskCurrent := blockAddr 16
  taskHead := blockAddr 16
  taskTail := blockAddr 16
  procs := fun _ => { task := blockAddr 16 }
  processes := fun i => if i = 0 then blockAddr 0 else 0
  processCurrent := blockAddr 0
  mem := crowdedMemory }

theorem crowdedKernel_packed (v : Volume) : Packed (crowdedKernel v).heap 24557 := by
  have htaken : heapGetEntryType HEAP_BLOCK_TABLE_ENTRY_TAKEN ≠ HEAP_BLOCK_TABLE_ENTRY_FREE := by decide
  refine ⟨rfl, rfl, ?_, ?_⟩
  · intro i hi
    have hlt : (i : Int) < 24557 := by omega
    have hentry : (crowdedKernel v).heap.table.entries i = HEAP_BLOCK_TABLE_ENTRY_TAKEN := by
      simp only [crowdedKernel, if_pos hlt]
    rw [HeapTable.freeAt, hentry]
    exact decide_eq_false htaken
  · intro i hi _
    have hge : ¬(i : Int) < 24557 := by omega
    have hentry : (crowdedKernel v).heap.table.entries i = HEAP_BLOCK_TABLE_ENTRY_FREE := by
      simp only [crowdedKernel, if_neg hge]
    rw [HeapTable.freeAt, hentry]
    rfl

/-- 読み込みで空きが尽きるので、引数の領域が割り当てられずに `-ENOMEM` が返るが、新しいプロセスは番号 1 に登録されたままで、
現在のプロセスにもなっている。 -/
theorem syscall7System_fails_crowded : ∃ (v : Volume) (s' : Kernel), v.disk = imageDisk (elfImage 84 0) ∧
    syscall7System 1 1 (crowdedKernel v) = .ok (-ENOMEM, s') ∧
    (crowdedKernel v).processes 1 = 0 ∧ s'.processes 1 = blockAddr 24557 ∧
    (crowdedKernel v).processCurrent = blockAddr 0 ∧ s'.processCurrent = blockAddr 24557 ∧
    (crowdedKernel v).taskTail = blockAddr 16 ∧ s'.taskTail = blockAddr 24573 := by
  obtain ⟨v, hv⟩ : ∃ v : Volume, v.disk = imageDisk (elfImage 84 0) := smallDisk_resolved (imageDisk_root _)
  have hzero : ∀ x, (x - blockAddr (24557 + 11)).toNat < 5 * 4096 → crowdedMemory x = 0 := by
    intro x hx
    have hbase : (blockAddr (24557 + 11)).toNat = 0x06FF8000 := rfl
    rw [BitVec.toNat_sub, hbase] at hx
    have hne : x ≠ 0x3FE002 ∧ x ≠ 0x400000 := by
      constructor <;> (rintro rfl; revert hx; decide)
    rw [crowdedMemory, if_neg hne.1, if_neg hne.2]
  have hdesc : (crowdedKernel v).fileDescriptors = (stateWith v 0).fileDescriptors := rfl
  have hslot := (fileFreeSlot_congr hdesc ENKI_MAX_FILE_DESCRIPTORS 0).trans
    (stateWith_freeSlot v (by decide))
  obtain ⟨file, haccept, hmap⟩ : ∃ file,
      elfProcessLoaded (crowdedMemory.write (blockAddr 24568) (elfImage 84 0)) { elfMemory := blockAddr 24568 } = (0, file) ∧
      ∀ words dir, (processMapElf (crowdedMemory.write (blockAddr 24568) (elfImage 84 0)) words dir file).1 = 0 :=
    ⟨_, rfl, fun _ _ => rfl⟩
  obtain ⟨s₁, hmem, -, -, htail, hp₁, -, hload⟩ := imageDisk_load hv rfl (s := crowdedKernel v) rfl rfl
    (crowdedKernel_packed v) (by decide) hslot (by decide) (show processGet (crowdedKernel v) 1 = 0 from rfl)
    (fun h => absurd h (blockAddr_ne_zero (by decide)))
    hzero haccept 1 hmap
  rw [if_neg (Int.lt_irrefl 0)] at hload
  obtain ⟨s₂, hs₂⟩ : ∃ s₂ : Kernel, { s₁ with
    processes := fun i => if i = 1 then blockAddr 24557 else s₁.processes i, processCurrent := blockAddr 24557 } = s₂ :=
    ⟨_, rfl⟩
  have hswitch : processLoadSwitch 1 (crowdedKernel v) imageName = .ok (0, blockAddr 24557, s₂) := by
    rw [← hs₂]
    exact bind_ok.2 ⟨_, hload, rfl⟩
  have hmem₂ : s₂.mem = crowdedMemory.write (blockAddr 24568) (elfImage 84 0) := by
    rw [← hs₂]
    exact hmem
  have hheap : s₂.heap = s₁.heap := by rw [← hs₂]
  have hfull : HeapFull s₂.heap := by
    intro b hb
    rw [hheap]
    exact hp₁.taken b hb
  have hk : KernelHeap s₂.heap := hheap ▸ hp₁.toKernelHeap
  have hcount : processCountCmdArgs 1 s₂.mem 0x400000 = .ok 1 := by
    rw [hmem₂]
    rfl
  have hmalloc : processMalloc s₂ (blockAddr 24557) (BitVec.ofInt 32 1 * 4) = .ok (0, s₂) := by
    simp only [processMalloc, kzallocBytes, kzalloc_full hk hfull]
    rfl
  have hinject : processInjectArgs 1 s₂ (blockAddr 24557) 0x400000 = .ok (-ENOMEM, s₂) :=
    bind_ok.2 ⟨1, hcount, bind_ok.2 ⟨_, hmalloc, rfl⟩⟩
  have hitem : taskGetStackItem (crowdedKernel v) (blockAddr 16) 0 = .ok 0x400000 := by
    have hne : blockAddr 16 ≠ 0 := blockAddr_ne_zero (by decide)
    have hword : crowdedMemory.word 0x3FE000 = 0x400000 := by decide
    simp only [taskGetStackItem, if_neg hne]
    exact (flat_loadWord crowdedMemory 0x3FE000).trans (congrArg Except.ok hword)
  have hphys : pagingGetPhysAddr flatWords 0x101000 0x400000 = 0x400000 := by decide
  have hargs : taskVirtToPhysAddr (crowdedKernel v) (blockAddr 16) 0x400000 = .ok 0x400000 := congrArg Except.ok hphys
  refine ⟨v, s₂, hv, bind_ok.2 ⟨0x400000, hitem, bind_ok.2 ⟨0x400000, hargs, ?_⟩⟩, rfl, ?_, rfl, ?_, rfl, ?_⟩
  · have hgood : ¬((0x400000 : Word) = 0 ∨ crowdedMemory 0x400000 = 0) := by decide
    rw [if_neg (by exact hgood)]
    exact bind_ok.2 ⟨_, hswitch, bind_ok.2 ⟨_, hinject, rfl⟩⟩
  · rw [← hs₂]
    rfl
  · rw [← hs₂]
  · rw [← hs₂]
    exact htail

end EnkiOs
