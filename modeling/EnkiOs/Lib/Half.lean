import EnkiOs.Lib.Memory

/-!
# 16 ビットの値の書き込み
-/

namespace Machine

/-- 小さい順のバイト。 -/
def halfBytes (v : BitVec 16) : List Byte := [v.setWidth 8, (v >>> 8).setWidth 8]

@[simp] theorem length_halfBytes (v : BitVec 16) : (halfBytes v).length = 2 := rfl

def Memory.setHalf (m : Memory) (a : Word) (v : BitVec 16) : Memory := m.write a (halfBytes v)

theorem append_halfBytes (v : BitVec 16) : ((v >>> 8).setWidth 8 ++ v.setWidth 8 : BitVec 16) = v := by
  have hlt := v.isLt
  apply BitVec.eq_of_toNat_eq
  rw [BitVec.toNat_append, ← Nat.shiftLeft_add_eq_or_of_lt (v.setWidth 8).isLt, Nat.shiftLeft_eq, BitVec.toNat_setWidth,
    BitVec.toNat_setWidth, BitVec.toNat_ushiftRight, Nat.shiftRight_eq_div_pow]
  omega

variable {m : Memory} {a x : Word} {v : BitVec 16}

@[simp] theorem Memory.setHalf_half : (m.setHalf a v).half a = v := by
  have h0 : m.setHalf a v (a + BitVec.ofNat 32 0) = v.setWidth 8 := m.write_at a (by simp) (by simp)
  have h1 : m.setHalf a v (a + 1) = (v >>> 8).setWidth 8 := m.write_at (k := 1) a (by simp) (by simp)
  rw [show a + BitVec.ofNat 32 0 = a from BitVec.add_zero a] at h0
  rw [Memory.half, h0, h1, append_halfBytes]

/-- 書いた 2 バイトのほかは変わらない。 -/
theorem Memory.setHalf_byte (h : 2 ≤ (x - a).toNat) : m.setHalf a v x = m x := Memory.write_other m a h

theorem Memory.setHalf_other (h : 2 ≤ (x - a).toNat) (h' : 2 ≤ (a - x).toNat) : (m.setHalf a v).half x = m.half x := by
  have h1 : 2 ≤ (x + 1 - a).toNat := by bv_omega
  rw [Memory.half, Memory.half, Memory.setHalf_byte h, Memory.setHalf_byte h1]

theorem Memory.write_half {c : Byte} (h : x ≠ a) (h' : x + 1 ≠ a) : (m.write a [c]).half x = m.half x := by
  rw [Memory.half, Memory.half, Memory.write_one_ne h, Memory.write_one_ne h']

/-- 続けて書いた 16 ビットの値の並びは、バイトの並びを書いたのと同じである。 -/
theorem Memory.setHalf_write (m : Memory) (a : Word) (v : BitVec 16) {bytes : List Byte} (h : bytes.length + 2 ≤ 2 ^ 32) :
    (m.setHalf a v).write (a + 2) bytes = m.write a (halfBytes v ++ bytes) :=
  Memory.write_append m a (halfBytes v) bytes (by rw [length_halfBytes]; omega)

end Machine
