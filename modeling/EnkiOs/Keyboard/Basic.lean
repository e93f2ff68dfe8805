import EnkiOs.Kernel
import Mathlib.Logic.Function.Basic

/-!
# キーボード

`kernel/drivers/keyboard/keyboard.c` のうち、プロセスごとのバッファの操作。`int` の番号の増減がはみ出したときの扱いは、`wrap` で渡す。
-/

namespace EnkiOs
open Machine

/-- `counter % sizeof(proc->keyboard.buffer)`。符号なしの剰余である。 -/
def keyboardIdx (counter : Int) : Nat := (BitVec.ofInt 32 counter).toNat % ENKI_KEYBOARD_BUFFER_SIZE

def keyboardGetTailIdx (keyboard : KeyboardBuffer) : Nat := keyboardIdx keyboard.tail

def Kernel.setKeyboard (s : Kernel) (proc : Word) (keyboard : KeyboardBuffer) : Kernel :=
  s.setProc proc { s.procs proc with keyboard := keyboard }

section

variable (wrap : Int → Int)

/-- 番号を先に戻すので、最後の文字を消す。空かどうかは調べない。 -/
def keyboardBackspaceWith (s : Kernel) (proc : Word) : Kernel :=
  let keyboard := (s.procs proc).keyboard
  let keyboard := { keyboard with tail := wrap (keyboard.tail - 1) }
  s.setKeyboard proc { keyboard with buffer := Function.update keyboard.buffer (keyboardGetTailIdx keyboard) 0 }

/-- 一杯かどうかは調べない。 -/
def keyboardPushWith (s : Kernel) (c : Byte) : Kernel :=
  let proc := s.processCurrent
  if proc = 0 ∨ c = 0 then s
  else
    let keyboard := (s.procs proc).keyboard
    s.setKeyboard proc { keyboard with
      buffer := Function.update keyboard.buffer (keyboardGetTailIdx keyboard) c
      tail := wrap (keyboard.tail + 1) }

/-- 先頭の場所が 0 なら、バッファの終わりとみなす。 -/
def keyboardPopWith (s : Kernel) : Byte × Kernel :=
  if s.taskCurrent = 0 then (0, s)
  else
    let proc := (s.tasks s.taskCurrent).process
    let keyboard := (s.procs proc).keyboard
    let idx := keyboardIdx keyboard.head
    let c := keyboard.buffer idx
    if c = 0 then (0, s)
    else (c, s.setKeyboard proc { keyboard with
      buffer := Function.update keyboard.buffer idx 0
      head := wrap (keyboard.head + 1) })

end

def keyboardPush : Kernel → Byte → Kernel := keyboardPushWith i32

def keyboardPop : Kernel → Byte × Kernel := keyboardPopWith i32

/-! ## 呼び出し -/

inductive KeyOp
  | push (c : Byte)
  | pop
  | backspace
  | other

/-- プロセス `proc` のバッファへの呼び出し。`other` は、切り替えなど、このバッファを変えない動作である。 -/
inductive KeyCall (wrap : Int → Int) (proc : Word) : Kernel → KeyOp → Kernel → Prop
  | push {s c} (hne : proc ≠ 0) (hcurrent : s.processCurrent = proc) (hc : c ≠ 0) :
      KeyCall wrap proc s (.push c) (keyboardPushWith wrap s c)
  | pop {s} (htask : s.taskCurrent ≠ 0) (hproc : (s.tasks s.taskCurrent).process = proc) :
      KeyCall wrap proc s .pop (keyboardPopWith wrap s).2
  | backspace {s} : KeyCall wrap proc s .backspace (keyboardBackspaceWith wrap s proc)
  | other {s s'} (h : (s'.procs proc).keyboard = (s.procs proc).keyboard) : KeyCall wrap proc s .other s'

/-! ## 呼び出しの後のバッファ -/

theorem keyboardIdx_eq (counter : Int) : keyboardIdx counter = ((counter % ENKI_KEYBOARD_BUFFER_SIZE).toNat : Nat) := by
  rw [keyboardIdx, BitVec.toNat_ofInt, ENKI_KEYBOARD_BUFFER_SIZE]
  omega

@[simp] theorem setKeyboard_keyboard (s : Kernel) (proc : Word) (keyboard : KeyboardBuffer) :
    ((s.setKeyboard proc keyboard).procs proc).keyboard = keyboard := by
  simp [Kernel.setKeyboard, Kernel.setProc]

variable {wrap : Int → Int} {proc : Word} {s : Kernel} {c : Byte}

theorem keyboardPush_keyboard (hne : proc ≠ 0) (hcurrent : s.processCurrent = proc) (hc : c ≠ 0) :
    ((keyboardPushWith wrap s c).procs proc).keyboard =
      { (s.procs proc).keyboard with
        buffer := Function.update (s.procs proc).keyboard.buffer (keyboardIdx (s.procs proc).keyboard.tail) c
        tail := wrap ((s.procs proc).keyboard.tail + 1) } := by
  rw [keyboardPushWith, hcurrent, if_neg (not_or.2 ⟨hne, hc⟩), setKeyboard_keyboard]
  rfl

theorem keyboardPop_char (htask : s.taskCurrent ≠ 0) (hproc : (s.tasks s.taskCurrent).process = proc) :
    (keyboardPopWith wrap s).1 = (s.procs proc).keyboard.buffer (keyboardIdx (s.procs proc).keyboard.head) := by
  simp only [keyboardPopWith, htask, if_false, hproc]
  split
  · rename_i h0
    exact h0.symm
  · rfl

theorem keyboardPop_zero (h : (keyboardPopWith wrap s).1 = 0) : (keyboardPopWith wrap s).2 = s := by
  simp only [keyboardPopWith] at h ⊢
  split
  · rfl
  · split
    · rfl
    · rename_i htask hc
      rw [if_neg htask, if_neg hc] at h
      exact absurd h hc

theorem keyboardPop_keyboard (htask : s.taskCurrent ≠ 0) (hproc : (s.tasks s.taskCurrent).process = proc)
    (hc : (keyboardPopWith wrap s).1 ≠ 0) :
    ((keyboardPopWith wrap s).2.procs proc).keyboard =
      { (s.procs proc).keyboard with
        buffer := Function.update (s.procs proc).keyboard.buffer (keyboardIdx (s.procs proc).keyboard.head) 0
        head := wrap ((s.procs proc).keyboard.head + 1) } := by
  rw [keyboardPop_char htask hproc] at hc
  simp only [keyboardPopWith, htask, if_false, hproc, hc, setKeyboard_keyboard]

theorem keyboardBackspace_keyboard :
    ((keyboardBackspaceWith wrap s proc).procs proc).keyboard =
      { (s.procs proc).keyboard with
        tail := wrap ((s.procs proc).keyboard.tail - 1)
        buffer := Function.update (s.procs proc).keyboard.buffer
          (keyboardIdx (wrap ((s.procs proc).keyboard.tail - 1))) 0 } := by
  simp only [keyboardBackspaceWith, setKeyboard_keyboard]
  rfl

end EnkiOs
