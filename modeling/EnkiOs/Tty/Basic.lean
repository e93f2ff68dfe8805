import EnkiOs.Lib.Int32
import Mathlib.Logic.Function.Basic

/-!
# 端末

`kernel/drivers/tty/tty.c`。画面のメモリは、番号からセルへの関数で持つ。`written` は、セルを書いた番号の並びで、C の側には無く、
仕様のためだけに持つ。
-/

namespace EnkiOs
open Machine

abbrev VGA_WIDTH : Nat := 80
abbrev VGA_HEIGHT : Nat := 25

abbrev VGA_COLOR_WHITE : Byte := 15

abbrev KEY_BACKSPACE : Byte := 0x08

structure Tty where
  row : BitVec 16
  col : BitVec 16
  cells : Int → BitVec 16
  written : List Int

def vgaEntry (uc color : Byte) : BitVec 16 := uc.setWidth 16 ||| color.setWidth 16 <<< 8

def ttyPutchar (t : Tty) (x y : Int) (c color : Byte) : Tty :=
  let idx := i32 (y * VGA_WIDTH + x)
  { t with cells := Function.update t.cells idx (vgaEntry c color), written := idx :: t.written }

/-- `tty_writechar` のうち、制御文字でない文字の部分。画面の下の端は調べない。 -/
def ttyPrint (t : Tty) (c color : Byte) : Tty :=
  let t := ttyPutchar t t.col.toNat t.row.toNat c color
  let t := { t with col := t.col + 1 }
  if VGA_WIDTH ≤ t.col.toNat then { t with col := 0, row := t.row + 1 } else t

/-- 空白は制御文字ではないので、`tty_writechar` は `ttyPrint` と同じである。 -/
def ttyBackspace (t : Tty) : Tty :=
  if t.row = 0 ∧ t.col = 0 then t
  else
    let t := if t.col = 0 then { t with row := t.row - 1, col := BitVec.ofNat 16 VGA_WIDTH } else t
    let t := { t with col := t.col - 1 }
    let t := ttyPrint t 0x20 15
    { t with col := t.col - 1 }

def ttyNewline (t : Tty) : Tty := { t with row := t.row + 1, col := 0 }

/-- 残りの回数を持つ。 -/
def ttySpaces : Nat → Tty → Tty
  | 0, t => t
  | k + 1, t => ttySpaces k (ttyPrint t 0x20 VGA_COLOR_WHITE)

def ttyTab (t : Tty) : Tty := ttySpaces 4 t

def ttyWritechar (t : Tty) (c color : Byte) : Tty :=
  if c = 0x0A then ttyNewline t
  else if c = 0x09 then ttyTab t
  else if c = KEY_BACKSPACE then ttyBackspace t
  else ttyPrint t c color

/-- 終わりの 0 の手前までの文字を渡す。 -/
def ttyWritestr (t : Tty) (s : List Byte) : Tty := s.foldl (fun t c => ttyWritechar t c VGA_COLOR_WHITE) t

/-- 行の繰り返し。残りの回数と `x` を持つ。 -/
def ttyClearRow (y : Nat) : Nat → Nat → Tty → Tty
  | 0, _, t => t
  | k + 1, x, t => ttyClearRow y k (x + 1) (ttyPutchar t x y 0x20 0)

/-- 画面の繰り返し。残りの回数と `y` を持つ。 -/
def ttyClear : Nat → Nat → Tty → Tty
  | 0, _, t => t
  | k + 1, y, t => ttyClear k (y + 1) (ttyClearRow y VGA_WIDTH 0 t)

def ttyInit (t : Tty) : Tty := ttyClear VGA_HEIGHT 0 { t with row := 0, col := 0 }

end EnkiOs
