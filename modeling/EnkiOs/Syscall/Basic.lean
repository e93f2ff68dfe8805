import EnkiOs.Process.Args
import EnkiOs.Task.CopyStr

/-!
# ポインタを渡すシステムコール

`kernel/kernel/syscall.c` のうち、文字列を書き出すものと、プロセスを始めるものと、引数を返すもの。カーネルのスタックに置いた配列は、そのアドレスで渡す。
画面への書き出しは、ここで読む状態を変えない。
-/

namespace EnkiOs
open Machine

/-- `a` から終端の手前までの、長くても `n` バイト。 -/
def cString (mem : Memory) (a : Word) (n : Nat) : List Byte := (mem.read a n).takeWhile (· ≠ 0)

/-- 結果を調べずに、配列の中身を書き出す。 -/
def syscall1Print (s : Kernel) (kernelBuffer : Word) : Except Fault Kernel := do
  let userBuffer ← taskGetStackItem s s.taskCurrent 0
  let (_, s) ← copyStrFromTask s s.taskCurrent userBuffer kernelBuffer 1024
  return s

/-- `"0:/"` -/
def drivePrefix : List Byte := [0x30, 0x3A, 0x2F]

/-- 0 を返すのは、新しいプロセスへ移るときであり、呼び出し元には戻らない。 -/
def syscall6ProcStart (depth : Nat) (s : Kernel) (fileName : Word) : Except Fault (Int × Kernel) := do
  let task := s.taskCurrent
  let fileNameUser ← taskGetStackItem s task 0
  let (result, s) ← copyStrFromTask s task fileNameUser fileName ENKI_MAX_PATH
  if result < 0 then return (result, s)
  let path := drivePrefix ++ cString s.mem fileName ENKI_MAX_PATH
  let (result, proc, s) ← processLoadSwitch depth s path
  if result < 0 then return (result, s)
  return (0, (taskSwitch s (s.procs proc).task).2)

/-- `strlen` が 0 なのは、最初のバイトが終端のときである。引数を渡す前に、プロセスはもう登録されている。0 を返すのは、
新しいプロセスへ移るときである。 -/
def syscall7System (depth fuel : Nat) (s : Kernel) : Except Fault (Int × Kernel) := do
  let task := s.taskCurrent
  let args ← taskVirtToPhysAddr s task (← taskGetStackItem s task 0)
  if args = 0 ∨ s.mem args = 0 then return (-EINVARG, s)
  let path := drivePrefix ++ cString s.mem args (ENKI_MAX_PATH - 1)
  let (result, proc, s) ← processLoadSwitch depth s path
  if result < 0 then return (result, s)
  let (result, s) ← processInjectArgs fuel s proc args
  if result < 0 then return (result, s)
  return (0, (taskSwitch s (s.procs proc).task).2)

/-- 渡されたアドレスは一度だけ変換し、書き込みはカーネルのディレクトリのもとで行う。 -/
def syscall8PgmArgs (s : Kernel) : Except Fault Kernel := do
  let task := s.taskCurrent
  let proc := (s.tasks task).process
  let args ← taskVirtToPhysAddr s task (← taskGetStackItem s task 0)
  processGetArgs s proc args (args + 4)

end EnkiOs
