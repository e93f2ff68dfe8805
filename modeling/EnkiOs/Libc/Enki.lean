import EnkiOs.Libc.Strtok
import EnkiOs.Process.Args

/-!
# コマンドの切り分け

`libc/enki/enki.c` の `enki_parse_cmd`。利用者のプログラムとして動くので、メモリの読み書きは `tr` を通す。配列 `scmd` は、
スタックの中のアドレスで渡す。
-/

namespace EnkiOs
open Machine

/-- 並びを `a` から一バイトずつ書く。 -/
def storeBytes (tr : Translation) : Memory → Word → List Byte → Except Fault Memory
  | mem, _, [] => .ok mem
  | mem, a, b :: bytes => do
      let mem ← storeByte tr mem a b
      storeBytes tr mem (a + 1) bytes

def storeWord (tr : Translation) (mem : Memory) (a w : Word) : Except Fault Memory := storeBytes tr mem a (wordBytes w)

/-- `sizeof(struct cmd_arg)` -/
abbrev CMD_ARG_STRUCT_SIZE : Word := 516

/-- `sizeof(scmd)` -/
abbrev SCMD_SIZE : Int := 1025

/-- `" "` -/
def spaceDelimiter : List Byte := [0x20]

/-- システムコール 4 で `process_malloc` を呼ぶ。`proc` は、動いているタスクのプロセスである。 -/
def enkiMalloc (s : Kernel) (proc size : Word) : Except Fault (Word × Kernel) := processMalloc s proc size

/-- 残りの上限と、`last`、`curr_cmd`、`tok` を持つ。 -/
def enkiParseLoop (fuel : Nat) (tr : Translation) (proc : Word) :
    Nat → Kernel → Word → Word → Word → Except Fault (Word × Kernel)
  | 0, s, last, _, tok => if tok = 0 then .ok (last, s) else .error .hang
  | k + 1, s, last, currCmd, tok =>
      if tok = 0 then .ok (last, s)
      else do
        let (newCmd, s) ← enkiMalloc s proc CMD_ARG_STRUCT_SIZE
        if newCmd = 0 then return (last, s)
        let mem ← strncpy tr newCmd tok CMD_ARG_SIZE s.mem
        let mem ← storeWord tr mem (newCmd + BitVec.ofNat 32 CMD_ARG_SIZE) 0
        let mem ← storeWord tr mem (currCmd + BitVec.ofNat 32 CMD_ARG_SIZE) newCmd
        let (tok, last, mem) ← strtok fuel tr last 0 spaceDelimiter mem
        enkiParseLoop fuel tr proc k { s with mem := mem } last newCmd tok

/-- 返すポインタと、新しい `last`、状態。途中で割り当てに失敗すると、そこまでの並びを返す。 -/
def enkiParseCmd (fuel : Nat) (tr : Translation) (s : Kernel) (proc last scmd cmd : Word) (max : Int) :
    Except Fault (Word × Word × Kernel) := do
  if max ≥ SCMD_SIZE then return (0, last, s)
  let mem ← strncpy tr scmd cmd SCMD_SIZE s.mem
  let (tok, last, mem) ← strtok fuel tr last scmd spaceDelimiter mem
  let s := { s with mem := mem }
  if tok = 0 then return (0, last, s)
  let (rootCmd, s) ← enkiMalloc s proc CMD_ARG_STRUCT_SIZE
  if rootCmd = 0 then return (0, last, s)
  let mem ← strncpy tr rootCmd tok CMD_ARG_SIZE s.mem
  let mem ← storeWord tr mem (rootCmd + BitVec.ofNat 32 CMD_ARG_SIZE) 0
  let (tok, last, mem) ← strtok fuel tr last 0 spaceDelimiter mem
  let (last, s) ← enkiParseLoop fuel tr proc fuel { s with mem := mem } last rootCmd tok
  return (rootCmd, last, s)

end EnkiOs
