import EnkiOs.Keyboard.Basic

/-!
# PS/2 のキーボード

`kernel/drivers/keyboard/ps2.c`。ポートから読むスキャンコードは、引数で渡す。
-/

namespace EnkiOs
open Machine

abbrev KEYBOARD_CAPSLOCK_OFF : Int := 0
abbrev KEYBOARD_CAPSLOCK_ON : Int := 1

abbrev PS2_CAPSLOCK : Byte := 0x3A
abbrev PS2_KEY_RELEASED : Byte := 0x80

def scanSet1 : List Byte :=
  [0x00, 0x1B,
    0x31, 0x32, 0x33, 0x34, 0x35, 0x36, 0x37, 0x38, 0x39, 0x30, 0x2D, 0x3D, 0x08, 0x09,
    0x51, 0x57, 0x45, 0x52, 0x54, 0x59, 0x55, 0x49, 0x4F, 0x50, 0x5B, 0x5D, 0x0D, 0x00,
    0x41, 0x53, 0x44, 0x46, 0x47, 0x48, 0x4A, 0x4B, 0x4C, 0x3B, 0x27, 0x60, 0x00, 0x5C,
    0x5A, 0x58, 0x43, 0x56, 0x42, 0x4E, 0x4D, 0x2C, 0x2E, 0x2F, 0x00, 0x2A,
    0x00, 0x20, 0x00, 0x00, 0x00, 0x00, 0x00, 0x00, 0x00, 0x00, 0x00, 0x00, 0x00,
    0x37, 0x38, 0x39, 0x2D, 0x34, 0x35, 0x36, 0x2B, 0x31, 0x32, 0x33, 0x30, 0x2E]

/-- 表の大きさと等しいコードは断られず、表の次のバイトを読む。 -/
def ps2ScanToChar (capslock : Int) (sc : Byte) : Except Fault Byte :=
  if scanSet1.length < sc.toNat then .ok 0
  else
    match scanSet1[sc.toNat]? with
    | none => .error .outOfBounds
    | some c =>
        if capslock = KEYBOARD_CAPSLOCK_OFF ∧ 65 ≤ c.toInt ∧ c.toInt ≤ 90 then .ok (c + 32) else .ok c

def ps2Toggle (capslock : Int) (sc : Byte) : Int :=
  if sc = PS2_CAPSLOCK then
    if capslock = KEYBOARD_CAPSLOCK_ON then KEYBOARD_CAPSLOCK_OFF else KEYBOARD_CAPSLOCK_ON
  else capslock

/-- 離したキーには何もしない。最後に `task_page` を呼ぶので、今のタスクがなければならない。 -/
def ps2HandleInterrupt (capslock : Int) (s : Kernel) (sc : Byte) : Except Fault (Int × Kernel) := do
  if sc &&& PS2_KEY_RELEASED ≠ 0 then return (capslock, s)
  let capslock := ps2Toggle capslock sc
  let c ← ps2ScanToChar capslock sc
  let s := if c ≠ 0 then keyboardPush s c else s
  if s.taskCurrent = 0 then throw .nullDeref
  return (capslock, s)

end EnkiOs
