import EnkiOs.Task.Basic

/-!
# プロセス

`kernel/task/process.c` のうち、プロセスの読み込みと割り付け、終了。
-/

namespace EnkiOs
open Machine

def processGet (s : Kernel) (id : Int) : Word :=
  if id < 0 ∨ ENKI_MAX_PROCESSES ≤ id then 0 else s.processes id

def processSwitch (s : Kernel) (proc : Word) : Int × Kernel := (0, { s with processCurrent := proc })

/-- `proc->task->page_dir` -/
def processPageDir (s : Kernel) (proc : Word) : Except Fault Word :=
  let task := (s.procs proc).task
  if task = 0 then .error .nullDeref else .ok (s.tasks task).pageDir

/-! ## 読み込み -/

def processLoadElf (s : Kernel) (fileName : List Byte) (proc : Word) : Except Fault (Int × Kernel) := do
  let (result, elfFile, s) ← elfLoad s fileName
  if result < 0 then return (result, s)
  return (result, s.setProc proc { s.procs proc with fileType := PROCESS_FILE_TYPE_ELF, addr := elfFile })

/-- 負の記述子は調べずに `fstat` へ渡す。 -/
def processLoadBin (s : Kernel) (fileName : List Byte) (proc : Word) : Except Fault (Int × Kernel) := do
  let (fd, fs) ← fopen s.toFileState fileName modeRead
  let s := { s with toFileState := fs }
  if fd = 0 then return (- EIO, s)
  match ← fstat s.toFileState fd with
  | .error result => return (result, { s with toFileState := (fclose s.toFileState fd).2 })
  | .ok stat =>
      let (pgmData, s) := kzallocBytes s stat.fileSize
      if pgmData = 0 then return (-ENOMEM, { s with toFileState := (fclose s.toFileState fd).2 })
      let (result, fs) ← fread s.toFileState pgmData stat.fileSize 1 fd
      let s := { s with toFileState := fs }
      if result ≠ 1 then
        let s := s.setHeap (kfree s.heap pgmData)
        return (- EIO, { s with toFileState := (fclose s.toFileState fd).2 })
      return (0, s.setProc proc
        { s.procs proc with fileType := PROCESS_FILE_TYPE_BIN, addr := pgmData, size := stat.fileSize })

def processLoadData (s : Kernel) (fileName : List Byte) (proc : Word) : Except Fault (Int × Kernel) := do
  let (result, s) ← processLoadElf s fileName proc
  if result = -EINVFMT then processLoadBin s fileName proc else return (result, s)

/-! ## 仮想アドレスへの割り付け -/

def userFlags : Word := PAGING_IS_PRESENT ||| PAGING_ACCESS_FROM_ALL ||| PAGING_IS_WRITEABLE

/-- 割り付けの結果は調べない。 -/
def processMapBin (words : Words) (pageDir : Word) (proc : Process) : Int × Words :=
  let (_, words) := pagingMapTo words pageDir ENKI_PGM_VIRT_ADDR proc.addr
    (pagingAlignAddress (proc.addr + proc.size)) userFlags
  (0, words)

/-- 一つのプログラムヘッダの割り付け。 -/
def processMapPhdr (words : Words) (pageDir : Word) (file : ElfFile) (phdr : Elf32Phdr) : Int × Words :=
  let flags := PAGING_IS_PRESENT ||| PAGING_ACCESS_FROM_ALL
  let flags := if phdr.pFlags &&& PF_W ≠ 0 then flags ||| PAGING_IS_WRITEABLE else flags
  let phdrPhysAddr := elfPhdrPhysAddr file phdr
  let virtBase := pagingAlignToLower phdr.pVaddr
  let physBase := pagingAlignToLower phdrPhysAddr
  let physEnd := pagingAlignAddress (phdrPhysAddr + phdr.pMemsz)
  pagingMapTo words pageDir virtBase physBase physEnd flags

/-- 残りの回数と `i`、ここまでの `result` を持つ。 -/
def processMapElfLoop (mem : Memory) (file : ElfFile) (pageDir : Word) : Nat → Nat → Int → Words → Int × Words
  | 0, _, result, words => (result, words)
  | k + 1, i, _, words =>
      let (result, words) := processMapPhdr words pageDir file (elfProgramHeader mem file.elfMemory i)
      if result < 0 then (result, words) else processMapElfLoop mem file pageDir k (i + 1) result words

def processMapElf (mem : Memory) (words : Words) (pageDir : Word) (file : ElfFile) : Int × Words :=
  processMapElfLoop mem file pageDir (ElfHeader.at mem file.elfMemory).ePhnum.toNat 0 0 words

/-- スタックの割り付けの結果は調べない。 -/
def processMapStack (words : Words) (pageDir stack : Word) : Words :=
  (pagingMapTo words pageDir ENKI_PGM_VIRT_STACK_ADDR_END stack
    (pagingAlignAddress (stack + BitVec.ofNat 32 ENKI_USER_PGM_STACK_SIZE)) userFlags).2

/-- `switch (proc->file_type)` による割り付け。 -/
def processMapImage (s : Kernel) (p : Process) (pageDir : Word) : Except Fault (Int × Words) :=
  if p.fileType = PROCESS_FILE_TYPE_BIN then .ok (processMapBin s.words pageDir p)
  else if p.fileType = PROCESS_FILE_TYPE_ELF then .ok (processMapElf s.mem s.words pageDir (s.elfFiles p.addr))
  else .error .panic

def processMapMemory (s : Kernel) (proc : Word) : Except Fault (Int × Kernel) := do
  let p := s.procs proc
  let pageDir ← processPageDir s proc
  let (result, words) ← processMapImage s p pageDir
  if result < 0 then return (result, { s with words := words })
  return (result, { s with words := processMapStack words pageDir p.stack })

/-! ## 割り当ての記録 -/

/-- 空いている最初の記録。残りの回数と `i` を持つ。 -/
def processFreeAllocFrom (proc : Process) : Nat → Nat → Option Nat
  | 0, _ => none
  | k + 1, i => if (proc.allocations i).ptr = 0 then some i else processFreeAllocFrom proc k (i + 1)

/-- 空いた記録が無ければ `none` を返す。 -/
def processFindFreeAlloc (proc : Process) : Option Nat := processFreeAllocFrom proc ENKI_MAX_PGM_ALLOCATIONS 0

/-- 返すアドレスが 0 なら失敗である。 -/
def processMalloc (s : Kernel) (proc size : Word) : Except Fault (Word × Kernel) := do
  let (ptr, s) := kzallocBytes s size
  if ptr = 0 then return (0, s)
  match processFindFreeAlloc (s.procs proc) with
  | none => return (0, s.setHeap (kfree s.heap ptr))
  | some idx =>
      let pageDir ← processPageDir s proc
      let physEnd := pagingAlignAddress (ptr + size)
      let (result, words) := pagingMapTo s.words pageDir ptr ptr physEnd userFlags
      let s := { s with words := words }
      if result < 0 then return (0, s.setHeap (kfree s.heap ptr))
      return (ptr, s.setProc proc { s.procs proc with
        allocations := fun i => if i = idx then ⟨ptr, size⟩ else (s.procs proc).allocations i })

/-- `ptr` の記録のうち最初のもの。残りの回数と `i` を持つ。 -/
def processAllocationAt (proc : Process) (ptr : Word) : Nat → Nat → Option ProcessAllocation
  | 0, _ => none
  | k + 1, i =>
      if (proc.allocations i).ptr = ptr then some (proc.allocations i) else processAllocationAt proc ptr k (i + 1)

def processGetAllocation (proc : Process) (addr : Word) : Option ProcessAllocation :=
  processAllocationAt proc addr ENKI_MAX_PGM_ALLOCATIONS 0

def processAllocationDrop (proc : Process) (ptr : Word) : Process :=
  { proc with allocations := fun i =>
      if i < ENKI_MAX_PGM_ALLOCATIONS ∧ (proc.allocations i).ptr = ptr then {} else proc.allocations i }

def processFree (s : Kernel) (proc toFree : Word) : Except Fault Kernel := do
  match processGetAllocation (s.procs proc) toFree with
  | none => return s
  | some alloc =>
      let pageDir ← processPageDir s proc
      let physEnd := pagingAlignAddress (alloc.ptr + alloc.size)
      let (result, words) := pagingMapTo s.words pageDir alloc.ptr alloc.ptr physEnd 0
      let s := { s with words := words }
      if result < 0 then return s
      let s := s.setProc proc (processAllocationDrop (s.procs proc) toFree)
      return s.setHeap (kfree s.heap toFree)

/-- 残りの回数と `i` を持つ。 -/
def processFreeAllocations (proc : Word) : Nat → Nat → Kernel → Except Fault Kernel
  | 0, _, s => .ok s
  | k + 1, i, s => do
      let s ← processFree s proc ((s.procs proc).allocations i).ptr
      processFreeAllocations proc k (i + 1) s

def processFreePgmData (s : Kernel) (proc : Word) : Int × Kernel :=
  let p := s.procs proc
  if p.fileType = PROCESS_FILE_TYPE_BIN then (0, s.setHeap (kfree s.heap p.addr))
  else if p.fileType = PROCESS_FILE_TYPE_ELF then (0, elfClose s p.addr)
  else (-EINVARG, s)

/-! ## プロセスの読み込みと終了

`process_load_slot` は、失敗すると `process_terminate` を呼び、`process_terminate` は、プロセスが残っていなければ
シェルを読み込む。互いの呼び出しの深さを `depth` で数える。 -/

def processSlots (s : Kernel) : Nat → Int → Option Int
  | 0, _ => none
  | k + 1, i => if s.processes i = 0 then some i else processSlots s k (i + 1)

def processGetFreeSlot (s : Kernel) : Int := (processSlots s 12 0).getD (-EISTKN)

section

variable (terminate : Kernel → Word → Except Fault (Int × Kernel))

/-- `process_load_slot` の、タスクを作る手前まで。読み込みとスタックの用意ができた記録か、そこで返す結果を返す。 -/
def processPrepareWith (s : Kernel) (fileName : List Byte) (procSlot : Int) :
    Except Fault (Except Int Word × Kernel) := do
  if processGet s procSlot ≠ 0 then return (.error (-EISTKN), s)
  let (loadProc, heap) := kzalloc s.heap PROCESS_SIZE
  let s := s.setHeap heap
  if loadProc = 0 then return (.error (-ENOMEM), s)
  let s := s.setProc loadProc {}
  let (result, s) ← processLoadData s fileName loadProc
  if result < 0 then
    let (_, s) ← terminate s loadProc
    return (.error result, s)
  let (stack, s) := kzallocBytes s (BitVec.ofNat 32 ENKI_USER_PGM_STACK_SIZE)
  if stack = 0 then
    let (_, s) ← terminate s loadProc
    return (.error (-ENOMEM), s)
  return (.ok loadProc, s.setProc loadProc { s.procs loadProc with
    stack := stack
    fileName := fileName.take (ENKI_MAX_PATH - 1)
    id := BitVec.ofInt 16 procSlot })

/-- 結果と `*proc` を返す。割り付けに失敗したときは、作ったタスクを残したまま返る。 -/
def processLoadSlotWith (s : Kernel) (fileName : List Byte) (procSlot : Int) :
    Except Fault (Int × Word × Kernel) := do
  match ← processPrepareWith terminate s fileName procSlot with
  | (.error result, s) => return (result, 0, s)
  | (.ok loadProc, s) =>
      let (task, s) ← taskNew s loadProc
      if task = 0 then
        let (_, s) ← terminate s loadProc
        return (-ENOMEM, 0, s)
      let s := s.setProc loadProc { s.procs loadProc with task := task }
      let (result, s) ← processMapMemory s loadProc
      if result < 0 then return (result, 0, s)
      return (result, loadProc, { s with processes := fun i => if i = procSlot then loadProc else s.processes i })

def processLoadWith (s : Kernel) (fileName : List Byte) : Except Fault (Int × Word × Kernel) :=
  let slot := processGetFreeSlot s
  if slot < 0 then .ok (-EISTKN, 0, s) else processLoadSlotWith terminate s fileName slot

def processLoadSwitchWith (s : Kernel) (fileName : List Byte) : Except Fault (Int × Word × Kernel) := do
  let (err, proc, s) ← processLoadWith terminate s fileName
  if err = 0 then return (err, proc, (processSwitch s proc).2) else return (err, proc, s)

/-- `"0:/shell"` -/
def shellName : List Byte := [0x30, 0x3A, 0x2F, 0x73, 0x68, 0x65, 0x6C, 0x6C]

def processNewShellWith (s : Kernel) : Except Fault Kernel := do
  let (err, _, s) ← processLoadSwitchWith terminate s shellName
  if err ≠ 0 then throw .panic
  return s

/-- 残りの回数と `i` を持つ。 -/
def processSwitchToAnyWith (s : Kernel) : Nat → Int → Except Fault Kernel
  | 0, _ => processNewShellWith terminate s
  | k + 1, i =>
      if s.processes i ≠ 0 then .ok (processSwitch s (s.processes i)).2 else processSwitchToAnyWith s k (i + 1)

def processUnlinkWith (s : Kernel) (proc : Word) : Except Fault Kernel :=
  let id : Int := (s.procs proc).id.toNat
  let s := { s with processes := fun i => if i = id then 0 else s.processes i }
  if s.processCurrent = proc then processSwitchToAnyWith terminate s 12 0 else .ok s

end

def processTerminate : Nat → Kernel → Word → Except Fault (Int × Kernel)
  | 0, _, _ => .error .hang
  | depth + 1, s, proc => do
      let s ← processFreeAllocations proc ENKI_MAX_PGM_ALLOCATIONS 0 s
      let (result, s) := processFreePgmData s proc
      if result < 0 then return (result, s)
      let s := s.setHeap (kfree s.heap (s.procs proc).stack)
      let (result, s) ← taskFree s (s.procs proc).task
      if result < 0 then return (result, s)
      let s ← processUnlinkWith (processTerminate depth) s proc
      return (0, s)

def processLoadSlot (depth : Nat) : Kernel → List Byte → Int → Except Fault (Int × Word × Kernel) :=
  processLoadSlotWith (processTerminate depth)

def processLoad (depth : Nat) : Kernel → List Byte → Except Fault (Int × Word × Kernel) :=
  processLoadWith (processTerminate depth)

def processLoadSwitch (depth : Nat) : Kernel → List Byte → Except Fault (Int × Word × Kernel) :=
  processLoadSwitchWith (processTerminate depth)

end EnkiOs
