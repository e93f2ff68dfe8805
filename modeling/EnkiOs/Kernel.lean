import EnkiOs.Fs.Basic
import EnkiOs.Paging.Basic

/-!
# カーネルの状態

タスク、プロセス、読み込んだ ELF ファイルの構造体と、それらを置いたカーネルの状態。

構造体はアドレスごとに持つ。型の違う構造体どうし、また構造体とバイトの領域とは、重ならないものとして扱う。
空のポインタは、割り当ての失敗と、まだ何も入っていない項目から生じる。それを通した参照は `nullDeref` とする。
-/

namespace EnkiOs
open Machine

structure Registers where
  edi : Word := 0
  esi : Word := 0
  ebp : Word := 0
  ebx : Word := 0
  edx : Word := 0
  ecx : Word := 0
  eax : Word := 0
  ip : Word := 0
  cs : Word := 0
  flags : Word := 0
  esp : Word := 0
  ss : Word := 0

structure Task where
  pageDir : Word := 0
  registers : Registers := {}
  next : Word := 0
  prev : Word := 0
  process : Word := 0

/-- `sizeof(struct task)` -/
abbrev TASK_SIZE : Nat := 64

abbrev PROCESS_FILE_TYPE_ELF : Byte := 0
abbrev PROCESS_FILE_TYPE_BIN : Byte := 1

structure ProcessAllocation where
  ptr : Word := 0
  size : Word := 0

/-- `struct keyboard_buffer` -/
structure KeyboardBuffer where
  buffer : Nat → Byte := fun _ => 0
  tail : Int := 0
  head : Int := 0

/-- `struct process_args` -/
structure ProcessArgs where
  argc : Int := 0
  argv : Word := 0

/-- `struct process`。`addr` と `elf_file` は共用体なので、一つの項目で持つ。 -/
structure Process where
  id : BitVec 16 := 0
  fileName : List Byte := []
  fileType : Byte := 0
  task : Word := 0
  allocations : Nat → ProcessAllocation := fun _ => {}
  addr : Word := 0
  stack : Word := 0
  size : Word := 0
  keyboard : KeyboardBuffer := {}
  args : ProcessArgs := {}

/-- `sizeof(struct process)` -/
abbrev PROCESS_SIZE : Nat := 9360

/-- `struct elf_file` のうち使う項目。 -/
structure ElfFile where
  elfMemory : Word := 0
  virtBaseAddr : Word := 0
  virtEndAddr : Word := 0
  physBaseAddr : Word := 0
  physEndAddr : Word := 0

/-- `sizeof(struct elf_file)` -/
abbrev ELF_FILE_SIZE : Nat := 132

/-- `processes` は、C の添字と同じく、表の外の番号も取れる。 -/
structure Kernel extends FileState where
  words : Words
  elfFiles : Word → ElfFile
  tasks : Word → Task
  taskCurrent : Word
  taskHead : Word
  taskTail : Word
  procs : Word → Process
  processes : Int → Word
  processCurrent : Word

namespace Kernel

/-- ファイルの状態 `fs` で、まだ何も動かしていないカーネル。 -/
def boot (fs : FileState) : Kernel where
  toFileState := fs
  words := fun _ => 0
  elfFiles := fun _ => {}
  tasks := fun _ => {}
  taskCurrent := 0
  taskHead := 0
  taskTail := 0
  procs := fun _ => {}
  processes := fun _ => 0
  processCurrent := 0

def setTask (s : Kernel) (a : Word) (t : Task) : Kernel :=
  { s with tasks := fun x => if x = a then t else s.tasks x }

def setProc (s : Kernel) (a : Word) (p : Process) : Kernel :=
  { s with procs := fun x => if x = a then p else s.procs x }

def setElfFile (s : Kernel) (a : Word) (f : ElfFile) : Kernel :=
  { s with elfFiles := fun x => if x = a then f else s.elfFiles x }

def setHeap (s : Kernel) (heap : Heap) : Kernel := { s with heap := heap }

variable (s : Kernel) (a : Word) (t : Task) (heap : Heap)

@[simp] theorem setTask_same : (s.setTask a t).tasks a = t := by
  simp [setTask]

theorem setTask_other {x : Word} (h : x ≠ a) : (s.setTask a t).tasks x = s.tasks x := by
  simp [setTask, h]

theorem setTask_pageDir {t : Task} (h : t.pageDir = (s.tasks a).pageDir) (x : Word) :
    ((s.setTask a t).tasks x).pageDir = (s.tasks x).pageDir := by
  by_cases hx : x = a
  · rw [hx, setTask_same, h]
  · rw [setTask_other s a t hx]

@[simp] theorem setTask_taskHead : (s.setTask a t).taskHead = s.taskHead := rfl
@[simp] theorem setTask_taskTail : (s.setTask a t).taskTail = s.taskTail := rfl
@[simp] theorem setTask_taskCurrent : (s.setTask a t).taskCurrent = s.taskCurrent := rfl
@[simp] theorem setTask_processes : (s.setTask a t).processes = s.processes := rfl
@[simp] theorem setTask_processCurrent : (s.setTask a t).processCurrent = s.processCurrent := rfl
@[simp] theorem setHeap_heap : (s.setHeap heap).heap = heap := rfl
@[simp] theorem setHeap_procs : (s.setHeap heap).procs = s.procs := rfl
@[simp] theorem setHeap_processes : (s.setHeap heap).processes = s.processes := rfl
@[simp] theorem setHeap_processCurrent : (s.setHeap heap).processCurrent = s.processCurrent := rfl
@[simp] theorem setHeap_tasks : (s.setHeap heap).tasks = s.tasks := rfl
@[simp] theorem setHeap_taskHead : (s.setHeap heap).taskHead = s.taskHead := rfl
@[simp] theorem setHeap_taskTail : (s.setHeap heap).taskTail = s.taskTail := rfl
@[simp] theorem setHeap_taskCurrent : (s.setHeap heap).taskCurrent = s.taskCurrent := rfl

end Kernel

/-- バイトの領域の割り当て。割り当てた範囲をゼロで埋める。 -/
def kzallocBytes (s : Kernel) (size : Word) : Word × Kernel :=
  let (ptr, heap) := kzalloc s.heap size.toNat
  if ptr = 0 then (0, s.setHeap heap)
  else (ptr, { s with heap := heap, mem := s.mem.zero ptr size.toNat })

end EnkiOs
