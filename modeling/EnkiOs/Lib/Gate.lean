import EnkiOs.Lib.Calls

/-!
# 割り込みの門

CPU は、割り込みの番号から 8 バイトの門を引き、門の示す手続きに入る。今より特権の高い手続きに入るときは、スタックを切り替える。番号の決まった例外だけは、
戻り先の上に、エラーコードも積む。
-/

namespace Machine

/-- 門のうち、CPU の読むもの。 -/
structure Gate where
  offset : Word
  selector : BitVec 16
  access : Byte
deriving DecidableEq, Repr

def Gate.at (m : Memory) (a : Word) : Gate where
  offset := m.half (a + 6) ++ m.half a
  selector := m.half (a + 2)
  access := m (a + 5)

namespace Gate

def present (g : Gate) : Bool := g.access.getLsbD 7

def dpl (g : Gate) : BitVec 2 := (g.access >>> 5).setWidth 2

/-- 記述子の種類。32 ビットの割り込みゲートは `0x0E` である。 -/
def kind (g : Gate) : BitVec 5 := g.access.setWidth 5

end Gate

/-- 門の表の場所と大きさと、特権の高い側のスタック。 -/
structure Traps where
  limit : BitVec 16
  base : Word
  esp0 : Word
  ss0 : BitVec 16

/-- 表の大きさを越える番号には、門が無い。 -/
def Traps.gate (t : Traps) (m : Memory) (vector : Byte) : Option Gate :=
  if 8 * vector.toNat + 7 ≤ t.limit.toNat then some (Gate.at m (t.base + BitVec.ofNat 32 (8 * vector.toNat))) else none

/-- 割り込みの原因。`software` は `int` の命令、`external` は装置からのもの、`exception` は命令の実行の失敗である。 -/
inductive Cause
  | software
  | external
  | exception (code : Word)
deriving DecidableEq, Repr

/-- `#DF`、`#TS`、`#NP`、`#SS`、`#GP`、`#PF`、`#AC` -/
def codedVectors : List Byte := [8, 10, 11, 12, 13, 14, 17]

/-- 例外の番号が決めるときに、エラーコードを積む。 -/
def Cause.pushCode (cause : Cause) (vector : Byte) (c : Cpu) : Cpu :=
  match cause with
  | .exception code => if vector ∈ codedVectors then c.push code else c
  | _ => c

theorem Cause.pushCode_of_not_mem {vector : Byte} (cause : Cause) (h : vector ∉ codedVectors) (c : Cpu) :
    cause.pushCode vector c = c := by
  cases cause with
  | software => rfl
  | external => rfl
  | exception code => exact if_neg h

/-- 門を通って、手続きの最初の命令に至る。命令による割り込みだけが、門の特権の水準を調べる。割り込みゲートのほかの門は扱わない。 -/
def Cpu.trap (t : Traps) (cause : Cause) (vector : Byte) (c : Cpu) : Option Cpu := do
  let g ← t.gate c.mem vector
  if g.present = true ∧ g.kind = 0x0E ∧ (cause = .software → privilege c.cs ≤ g.dpl) then
    if privilege g.selector < privilege c.cs then
      return cause.pushCode vector (c.interrupt t.esp0 g.offset t.ss0 g.selector)
    else return cause.pushCode vector (c.interruptSame g.offset g.selector)
  else none

/-- 門の 8 バイトが、値を分けて置かれている。 -/
structure GateLaid (m : Memory) (a offset : Word) (selector : BitVec 16) (access : Byte) : Prop where
  low : m.half a = offset.setWidth 16
  selector : m.half (a + 2) = selector
  access : m (a + 5) = access
  high : m.half (a + 6) = (offset >>> 16).setWidth 16

theorem append_halves (w : Word) : ((w >>> 16).setWidth 16 ++ w.setWidth 16 : Word) = w := by
  have hlt := w.isLt
  apply BitVec.eq_of_toNat_eq
  rw [BitVec.toNat_append, ← Nat.shiftLeft_add_eq_or_of_lt (w.setWidth 16).isLt, Nat.shiftLeft_eq, BitVec.toNat_setWidth,
    BitVec.toNat_setWidth, BitVec.toNat_ushiftRight, Nat.shiftRight_eq_div_pow]
  omega

variable {m : Memory} {a offset : Word} {selector : BitVec 16} {access : Byte}

theorem GateLaid.decode (h : GateLaid m a offset selector access) : Gate.at m a = ⟨offset, selector, access⟩ := by
  rw [Gate.at, h.low, h.selector, h.access, h.high, append_halves]

theorem GateLaid.congr {m' : Memory} (h : GateLaid m a offset selector access)
    (hm : m'.AgreeOn m a 8) : GateLaid m' a offset selector access where
  low := (Memory.AgreeOn.half fun l hl => hm l (by omega)).trans h.low
  selector := (Memory.AgreeOn.half (hm.sub (k := 2) (by decide))).trans h.selector
  access := (hm 5 (by decide)).trans h.access
  high := (Memory.AgreeOn.half (hm.sub (k := 6) (by decide))).trans h.high

end Machine
