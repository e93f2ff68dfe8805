import Mathlib.Algebra.Group.Int.Defs
import Mathlib.Algebra.Group.Nat.Defs
import Mathlib.Tactic.Common

/-!
# 32 ビットの整数

C の `int` を、2 の補数で折り返す整数として扱う。符号なしの値とアドレスは `BitVec 32` で表す。
-/

namespace Machine

/-- 符号なしの 32 ビットの値。アドレスもこの型で表す。 -/
abbrev Word := BitVec 32

abbrev Byte := BitVec 8

-- バイトの並びの `∈` の判定が、どのモジュールでも同じ項になるように、ここで名前を付ける。
instance : LawfulBEq Byte := inferInstance

/-- `int` の範囲へ折り返す。 -/
def i32 (x : Int) : Int := Int.bmod x (2 ^ 32)

theorem i32_of_bounds {x : Int} (hl : -2 ^ 31 ≤ x) (hu : x < 2 ^ 31) : i32 x = x := by
  apply Int.bmod_eq_of_le <;> omega

theorem i32_lt (x : Int) : i32 x < 2 ^ 31 := by
  have := Int.bmod_lt (x := x) (show 0 < 2 ^ 32 by decide)
  simp only [i32]
  omega

/-- 負でない値は、折り返しても大きくならない。 -/
theorem i32_le_self {x : Int} (h : 0 ≤ x) : i32 x ≤ x := by
  simp only [i32, Int.bmod_def]
  split <;> omega

/-- `int` の範囲を一つ分まで越えた値は、負へ折り返す。 -/
theorem i32_of_ge {x : Int} (hl : 2 ^ 31 ≤ x) (hu : x < 2 ^ 32) : i32 x = x - 2 ^ 32 := by
  simp only [i32, Int.bmod_def]
  split <;> omega

theorem i32_sub_i32 (x y : Int) : i32 (x - i32 y) = i32 (x - y) := Int.sub_bmod_bmod

theorem ofInt_i32 (x : Int) : BitVec.ofInt 32 (i32 x) = BitVec.ofInt 32 x := by
  apply BitVec.eq_of_toInt_eq
  simp [i32]

theorem toNat_ofInt_of_bounds {x : Int} (hl : 0 ≤ x) (hu : x < 2 ^ 32) :
    (BitVec.ofInt 32 x).toNat = x.toNat := by
  rw [BitVec.toNat_ofInt, Int.emod_eq_of_lt hl (by omega)]

theorem toInt_of_lt {w : Word} (h : w.toNat < 2 ^ 31) : w.toInt = w.toNat := by
  rw [BitVec.toInt_eq_toNat_of_lt (by omega)]

theorem toInt_of_le {w : Word} (h : 2 ^ 31 ≤ w.toNat) : w.toInt = (w.toNat : Int) - 2 ^ 32 := by
  rw [BitVec.toInt_eq_toNat_cond, if_neg (by omega)]
  rfl

end Machine
