import EnkiOs.Idt.Basic
import EnkiOs.Keyboard.Ps2
import EnkiOs.Syscall.Table

/-!
# 割り込みの振り分け

`kernel/kernel/idt.c` のうち、登録された手続きを割り込みの番号で呼ぶもの。PIC への応答は、読む状態を変えない。
-/

namespace EnkiOs
open Machine

abbrev ISR_KBD_INTERRUPT : Int := 0x21

def idtRegisterIntCallback (image : KernelImage) (m : System) (interrupt : Int) (callback : IntCallback) : Int × System :=
  if interrupt < 0 ∨ ENKI_TOTAL_INTERRUPTS ≤ interrupt then (-EINVARG, m)
  else (0, m.setEntry image.intCallbacks interrupt.toNat (image.callbackFn callback))

/-- 例外の番号の繰り返し。残りの回数と `i` を持つ。 -/
def idtMapExceptions (image : KernelImage) : Nat → Int → System → System
  | 0, _, m => m
  | k + 1, i, m => idtMapExceptions image k (i + 1) (idtRegisterIntCallback image m i .idtHandleException).2

/-- `idt_init` の、手続きの登録。 -/
def idtRegisterAll (image : KernelImage) (m : System) : System :=
  (idtRegisterIntCallback image (idtMapExceptions image 0x20 0 m) 0x20 .idtClock).2

/-- `keyboard_init` から呼ばれる。 -/
def ps2KeyboardInit (image : KernelImage) (m : System) : System :=
  { (idtRegisterIntCallback image m ISR_KBD_INTERRUPT .ps2HandleInterrupt).2 with capslock := KEYBOARD_CAPSLOCK_OFF }

def idtHandleException (env : CallEnv) (m : System) : Except Fault Exit := do
  if m.kernel.taskCurrent = 0 then throw .nullDeref
  let (_, kernel) ← processTerminate env.depth m.kernel (m.kernel.tasks m.kernel.taskCurrent).process
  let (_, kernel) ← taskSwitchNext kernel
  return .resume { m with kernel := kernel }

def idtClock (m : System) : Except Fault Exit := do
  let (_, kernel) ← taskSwitchNext m.kernel
  return .resume { m with kernel := kernel }

/-- `sc` は、キーボードのポートから読むコードである。 -/
def intCallbackRun (env : CallEnv) (sc : Byte) (m : System) : IntCallback → Except Fault Exit
  | .idtHandleException => idtHandleException env m
  | .idtClock => idtClock m
  | .ps2HandleInterrupt => do
      let (capslock, kernel) ← ps2HandleInterrupt m.capslock m.kernel sc
      return .back 0 { m with capslock := capslock, kernel := kernel }

/-- アドレス `fn` にある手続き。 -/
def KernelImage.callbackAt (image : KernelImage) (fn : Word) : Option IntCallback :=
  [IntCallback.idtHandleException, .idtClock, .ps2HandleInterrupt].find? (image.callbackFn · = fn)

/-- 登録が無ければ、文脈を保存せずに戻る。表が壊れていれば、手続きの無いところに跳ぶ。 -/
def interruptHandler (image : KernelImage) (env : CallEnv) (sc : Byte) (m : System) (interrupt : Nat) (frame : InterruptFrame) :
    Except Fault Exit := do
  let fn := m.kernel.mem.entry image.intCallbacks interrupt
  if fn = 0 then (Exit.back 0 m).page
  else
    let kernel ← taskCurrentSaveState m.kernel frame
    match image.callbackAt fn with
    | none => throw .outOfBounds
    | some callback =>
        let exit ← intCallbackRun env sc { m with kernel := kernel } callback
        exit.page

end EnkiOs
