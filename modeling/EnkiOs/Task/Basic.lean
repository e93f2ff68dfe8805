import EnkiOs.Elf.Basic

/-!
# タスク

`kernel/task/task.c` のうち、タスクの作成と解放、並びの操作。
-/

namespace EnkiOs
open Machine

/-- `task_current` を通して読む。 -/
def taskGetNext (s : Kernel) : Except Fault Word := do
  if s.taskCurrent = 0 then throw .nullDeref
  let next := (s.tasks s.taskCurrent).next
  return if next = 0 then s.taskHead else next

/-- `if (task->prev) task->prev->next = task->next` -/
def taskUnlinkPrev (s : Kernel) (task : Word) : Kernel :=
  let prev := (s.tasks task).prev
  if prev = 0 then s else s.setTask prev { s.tasks prev with next := (s.tasks task).next }

/-- 並びから外す。`task->next->prev` は直さない。 -/
def taskListRemove (s : Kernel) (task : Word) : Except Fault Kernel := do
  let s := taskUnlinkPrev s task
  if task = s.taskHead then return { s with taskHead := (s.tasks task).next }
  else if task = s.taskTail then return { s with taskTail := (s.tasks task).prev }
  else if task = s.taskCurrent then return { s with taskCurrent := ← taskGetNext s }
  else return s

def taskFree (s : Kernel) (task : Word) : Except Fault (Int × Kernel) := do
  if task = 0 then throw .nullDeref
  let s := s.setHeap (pagingFree s.heap s.words (s.tasks task).pageDir)
  let s ← taskListRemove s task
  return (0, s.setHeap (kfree s.heap task))

/-- `paging_new` は、値を返すなら空のポインタを返さない。 -/
def taskInit (s : Kernel) (task proc : Word) : Except Fault (Int × Kernel) := do
  let s := s.setTask task {}
  let (pageDir, heap, words) ← pagingNew s.heap s.words ((PAGING_IS_PRESENT ||| PAGING_ACCESS_FROM_ALL).setWidth 8)
  let s := { s with heap := heap, words := words }
  let s := s.setTask task { s.tasks task with pageDir := pageDir }
  if pageDir = 0 then return (- EIO, s)
  let ip :=
    if (s.procs proc).fileType = PROCESS_FILE_TYPE_ELF then
      (ElfHeader.at s.mem (s.elfFiles (s.procs proc).addr).elfMemory).eEntry
    else ENKI_PGM_VIRT_ADDR
  let registers := { ip := ip, ss := USER_DATA_SEG, cs := USER_CODE_SEG, esp := ENKI_PGM_VIRT_STACK_ADDR_START }
  return (0, s.setTask task { s.tasks task with registers := registers, process := proc })

/-- 並びの末尾につなぐ。`task_new` の後半である。 -/
def taskAppend (s : Kernel) (task : Word) : Except Fault Kernel := do
  if s.taskHead = 0 then return { s with taskHead := task, taskCurrent := task, taskTail := task }
  if s.taskTail = 0 then throw .nullDeref
  let s := s.setTask s.taskTail { s.tasks s.taskTail with next := task }
  let s := s.setTask task { s.tasks task with prev := s.taskTail }
  return { s with taskTail := task }

/-- 失敗すると 0 を返す。 -/
def taskNew (s : Kernel) (process : Word) : Except Fault (Word × Kernel) := do
  let (task, heap) := kzalloc s.heap TASK_SIZE
  let s := s.setHeap heap
  if task = 0 then return (0, s)
  let (result, s) ← taskInit s task process
  if result ≠ 0 then
    let (_, s) ← taskFree s task
    return (0, s)
  let s ← taskAppend s task
  return (task, s)

/-- ページディレクトリの切り替えは、モデルの読む状態を変えない。 -/
def taskSwitch (s : Kernel) (task : Word) : Int × Kernel := (0, { s with taskCurrent := task })

end EnkiOs
