import EnkiOs.Keyboard.Basic
import EnkiOs.Lib.Cpu
import EnkiOs.Syscall.Basic
import EnkiOs.Task.Context
import EnkiOs.Task.RoundRobin
import EnkiOs.Tty.Basic

/-!
# システムコールの振り分け

`kernel/kernel/syscall.c` のうち、登録された手続きを番号で呼ぶもの。手続きのアドレスの表は、カーネルのメモリにある。呼ばれた手続きは、割り込まれた
ところに戻るか、`task_return` を呼んで、戻らない。
-/

namespace EnkiOs
open Machine

abbrev ENKI_MAX_SYSCALLS : Nat := 256

/-- `SYSCALL` として登録される手続き。 -/
inductive Syscall
  | print
  | getkey
  | putchar
  | malloc
  | free
  | procStart
  | system
  | pgmArgs
  | exit
deriving DecidableEq, Repr

/-- `INTERRUPT_CALLBACK_FN` として登録される手続き。 -/
inductive IntCallback
  | idtHandleException
  | idtClock
  | ps2HandleInterrupt
deriving DecidableEq, Repr

/-- リンカの決めるアドレス。`syscalls` と `intCallbacks` は二つの表の、残りは表に入る手続きのもので、互いに違い、0 でない。 -/
structure KernelImage where
  syscalls : Word
  intCallbacks : Word
  syscallFn : Syscall → Word
  callbackFn : IntCallback → Word
  syscallFn_ne : ∀ fn, syscallFn fn ≠ 0
  syscallFn_inj : Function.Injective syscallFn
  callbackFn_ne : ∀ callback, callbackFn callback ≠ 0
  callbackFn_inj : Function.Injective callbackFn

/-- カーネルと、その動かす装置の状態。`capslock` は `ps2_keyboard.capslock` である。 -/
structure System where
  kernel : Kernel
  tty : Tty
  capslock : Int

/-- 表に、手続きのアドレスを書く。 -/
def System.setEntry (m : System) (base : Word) (i : Nat) (fn : Word) : System :=
  { m with kernel := { m.kernel with mem := m.kernel.mem.setEntry base i fn } }

/-- カーネルのスタックに置く配列のアドレスと、繰り返しの上限。 -/
structure CallEnv where
  kernelBuffer : Word
  fileName : Word
  depth : Nat
  fuel : Nat

/-- C の手続きから先。`resume` は、今のタスクの記録を `task_return` に渡す。 -/
inductive Exit
  | back (result : Word) (m : System)
  | resume (m : System)

/-! ## システムコール -/

/-- 終端の手前までの文字。 -/
def stringFrom (mem : Memory) : Nat → Word → Except Fault (List Byte)
  | 0, _ => .error .hang
  | k + 1, a =>
      if mem a = 0 then .ok []
      else do
        let rest ← stringFrom mem k (a + 1)
        return mem a :: rest

/-- `syscall_1_print`。配列の中身は、写しに失敗しても書き出す。 -/
def printCall (env : CallEnv) (m : System) : Except Fault Exit := do
  let kernel ← syscall1Print m.kernel env.kernelBuffer
  let text ← stringFrom kernel.mem env.fuel env.kernelBuffer
  return .back 0 { m with kernel := kernel, tty := ttyWritestr m.tty text }

/-- 文字は符号つきで広がる。 -/
def syscall2Getkey (m : System) : Except Fault Exit :=
  let (c, kernel) := keyboardPop m.kernel
  .ok (.back (c.signExtend 32) { m with kernel := kernel })

def syscall3Putchar (m : System) : Except Fault Exit := do
  let c ← taskGetStackItem m.kernel m.kernel.taskCurrent 0
  return .back 0 { m with tty := ttyWritechar m.tty (c.setWidth 8) 15 }

def syscall4Malloc (m : System) : Except Fault Exit := do
  let task := m.kernel.taskCurrent
  let size ← taskGetStackItem m.kernel task 0
  let (ptr, kernel) ← processMalloc m.kernel (m.kernel.tasks task).process size
  return .back ptr { m with kernel := kernel }

def syscall5Free (m : System) : Except Fault Exit := do
  let task := m.kernel.taskCurrent
  let toFree ← taskGetStackItem m.kernel task 0
  let kernel ← processFree m.kernel (m.kernel.tasks task).process toFree
  return .back 0 { m with kernel := kernel }

/-- 負のコードなら戻り、そうでなければ、切り替えたタスクに移る。 -/
def exitOf (m : System) (result : Int × Kernel) : Exit :=
  if result.1 < 0 then .back (BitVec.ofInt 32 result.1) { m with kernel := result.2 }
  else .resume { m with kernel := result.2 }

/-- プロセスの終了の結果は調べない。 -/
def syscall9Exit (env : CallEnv) (m : System) : Except Fault Exit := do
  let (_, kernel) ← processTerminate env.depth m.kernel (m.kernel.tasks m.kernel.taskCurrent).process
  let (_, kernel) ← taskSwitchNext kernel
  return .resume { m with kernel := kernel }

/-- `fn(frame)`。フレームを読む手続きは無い。 -/
def syscallRun (env : CallEnv) (m : System) : Syscall → Except Fault Exit
  | .print => printCall env m
  | .getkey => syscall2Getkey m
  | .putchar => syscall3Putchar m
  | .malloc => syscall4Malloc m
  | .free => syscall5Free m
  | .procStart => do return exitOf m (← syscall6ProcStart env.depth m.kernel env.fileName)
  | .system => do return exitOf m (← syscall7System env.depth env.fuel m.kernel)
  | .pgmArgs => do return .back 0 { m with kernel := ← syscall8PgmArgs m.kernel }
  | .exit => syscall9Exit env m

def syscallRegister (image : KernelImage) (m : System) (idx : Int) (fn : Syscall) : Except Fault System :=
  if idx < 0 ∨ ENKI_MAX_SYSCALLS ≤ idx then .error .panic
  else if m.kernel.mem.entry image.syscalls idx.toNat ≠ 0 then .error .panic
  else .ok (m.setEntry image.syscalls idx.toNat (image.syscallFn fn))

def syscallRegisterAll (image : KernelImage) (m : System) : Except Fault System := do
  let m ← syscallRegister image m 1 .print
  let m ← syscallRegister image m 2 .getkey
  let m ← syscallRegister image m 3 .putchar
  let m ← syscallRegister image m 4 .malloc
  let m ← syscallRegister image m 5 .free
  let m ← syscallRegister image m 6 .procStart
  let m ← syscallRegister image m 7 .system
  let m ← syscallRegister image m 8 .pgmArgs
  syscallRegister image m 9 .exit

/-- アドレス `fn` にある手続き。 -/
def KernelImage.syscallAt (image : KernelImage) (fn : Word) : Option Syscall :=
  [Syscall.print, .getkey, .putchar, .malloc, .free, .procStart, .system, .pgmArgs, .exit].find? (image.syscallFn · = fn)

/-- 番号の範囲の外と、登録の無い番号には、0 を返す。表が壊れていれば、手続きの無いところに跳ぶ。 -/
def syscallInvoke (image : KernelImage) (env : CallEnv) (m : System) (idx : Int) : Except Fault Exit :=
  if idx < 0 ∨ ENKI_MAX_SYSCALLS ≤ idx then .ok (.back 0 m)
  else
    let fn := m.kernel.mem.entry image.syscalls idx.toNat
    if fn = 0 then .ok (.back 0 m)
    else
      match image.syscallAt fn with
      | none => .error .outOfBounds
      | some call => syscallRun env m call

/-- 今のタスクが無ければ、その `page_dir` は読めない。 -/
def taskPage (m : System) : Except Fault System :=
  if m.kernel.taskCurrent = 0 then .error .nullDeref
  else .ok { m with kernel := (taskSwitch m.kernel m.kernel.taskCurrent).2 }

/-- 手続きが戻ってきたときだけ、`task_page` に至る。 -/
def Exit.page : Exit → Except Fault Exit
  | .back result m => do return .back result (← taskPage m)
  | .resume m => .ok (.resume m)

def syscallHandler (image : KernelImage) (env : CallEnv) (m : System) (idx : Word) (frame : InterruptFrame) :
    Except Fault Exit := do
  let kernel ← taskCurrentSaveState m.kernel frame
  let exit ← syscallInvoke image env { m with kernel := kernel } idx.toInt
  exit.page

end EnkiOs
