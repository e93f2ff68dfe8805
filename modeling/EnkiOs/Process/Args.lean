import EnkiOs.Libc.String
import EnkiOs.Process.Basic

/-!
# プロセスの引数

`kernel/task/process.c` のうち、`struct cmd_arg` の並びを新しいプロセスの引数にするもの。並びは呼び出したプログラムの
メモリにあるので、`next` の値は何であってもよい。繰り返しの上限を `fuel` で与え、尽きれば `hang` とする。
-/

namespace EnkiOs
open Machine

/-- `sizeof(current->arg)` -/
abbrev CMD_ARG_SIZE : Nat := 512

/-- `arg->next` -/
def cmdArgNext (mem : Memory) (arg : Word) : Word := mem.word (arg + BitVec.ofNat 32 CMD_ARG_SIZE)

/-- 残りの上限と、`arg`、`i` を持つ。 -/
def processCountCmdArgsFrom (mem : Memory) : Nat → Word → Int → Except Fault Int
  | 0, arg, i => if arg = 0 then .ok i else .error .hang
  | k + 1, arg, i =>
      if arg = 0 then .ok i else processCountCmdArgsFrom mem k (cmdArgNext mem arg) (i32 (i + 1))

def processCountCmdArgs (fuel : Nat) (mem : Memory) (rootArg : Word) : Except Fault Int :=
  processCountCmdArgsFrom mem fuel rootArg 0

/-- 残りの上限と、`current`、`i` を持つ。 -/
def processInjectLoop (proc argv : Word) : Nat → Kernel → Word → Int → Except Fault (Int × Kernel)
  | 0, s, current, _ => if current = 0 then .ok (0, s) else .error .hang
  | k + 1, s, current, i =>
      if current = 0 then .ok (0, s)
      else do
        let (sArg, s) ← processMalloc s proc (BitVec.ofNat 32 CMD_ARG_SIZE)
        if sArg = 0 then return (-ENOMEM, s)
        let mem ← strncpy .ok sArg current CMD_ARG_SIZE s.mem
        let mem := mem.write (argv + 4 * BitVec.ofInt 32 i) (wordBytes sArg)
        processInjectLoop proc argv k { s with mem := mem } (cmdArgNext mem current) (i32 (i + 1))

/-- 途中で失敗しても、それまでの割り当ては残る。 -/
def processInjectArgs (fuel : Nat) (s : Kernel) (proc rootArg : Word) : Except Fault (Int × Kernel) := do
  let argc ← processCountCmdArgs fuel s.mem rootArg
  if argc = 0 then return (- EIO, s)
  let (argv, s) ← processMalloc s proc (BitVec.ofInt 32 argc * 4)
  if argv = 0 then return (-ENOMEM, s)
  let (result, s) ← processInjectLoop proc argv fuel s rootArg 0
  if result < 0 then return (result, s)
  return (0, s.setProc proc { s.procs proc with args := ⟨argc, argv⟩ })

/-- `argc` と `argv` の指す先に、引数を書く。 -/
def processGetArgs (s : Kernel) (proc argc argv : Word) : Except Fault Kernel := do
  if proc = 0 then throw .nullDeref
  let args := (s.procs proc).args
  let mem := s.mem.write argc (wordBytes (BitVec.ofInt 32 args.argc))
  return { s with mem := mem.write argv (wordBytes args.argv) }

end EnkiOs
