import EnkiOs.Lib.Decimal
import EnkiOs.Libc.Text

/-!
# 整数の文字列

`libc/stdlib/stdlib.c` の `itoa`。静的な配列 `s` は、そのアドレスで渡す。`int` の範囲を越える符号の反転と、配列の外への書き込みは、
値を返さない。
-/

namespace EnkiOs
open Machine

/-- `-i` -/
def negate (i : Int) : Option Int := if -2 ^ 31 ≤ -i ∧ -i < 2 ^ 31 then some (-i) else none

/-- 12 バイトの配列への `s[idx] = c` -/
def itoaStore (s : Word) (idx : Int) (c : Byte) (mem : Memory) : Option Memory :=
  if 0 ≤ idx ∧ idx < 12 then some (mem.write (s + BitVec.ofInt 32 idx) [c]) else none

/-- `s[--idx] = c` -/
def itoaPut (s : Word) (idx : Int) (c : Byte) (mem : Memory) : Option (Int × Memory) :=
  (itoaStore s (idx - 1) c mem).map (idx - 1, ·)

/-- 下の桁から書く。`i` は零か負である。 -/
def itoaLoop (s : Word) (i idx : Int) (mem : Memory) : Option (Int × Memory) :=
  if i = 0 then some (idx, mem)
  else do
    let (idx, mem) ← itoaPut s idx (BitVec.ofInt 8 (48 - i.tmod 10)) mem
    itoaLoop s (i.tdiv 10) idx mem
termination_by i.natAbs
decreasing_by
  rw [Int.natAbs_tdiv]
  exact Nat.div_lt_self (Int.natAbs_pos.2 ‹_›) (by decide)

/-- 一桁も書かなければ、`0` を書く。 -/
def itoaDigits (s : Word) (i : Int) (mem : Memory) : Option (Int × Memory) := do
  let (idx, mem) ← itoaLoop s i 11 mem
  if idx = 11 then itoaPut s idx 0x30 mem else some (idx, mem)

def itoa (s : Word) (i : Int) (mem : Memory) : Option (Word × Memory) := do
  let mem ← itoaStore s 11 0 mem
  let neg := decide (i < 0)
  let i ← (if 0 ≤ i then negate i else some i)
  let (idx, mem) ← itoaDigits s i mem
  let (idx, mem) ← (if neg then itoaPut s idx 0x2D mem else some (idx, mem))
  return (s + BitVec.ofInt 32 idx, mem)

/-! ## 桁の並び -/

variable {s : Word} {mem : Memory} {n k : Nat}

theorem itoaStore_some (s : Word) (c : Byte) (mem : Memory) (h : k < 12) :
    itoaStore s k c mem = some (mem.write (s + BitVec.ofNat 32 k) [c]) := by
  rw [itoaStore, if_pos (by constructor <;> omega), BitVec.ofInt_natCast]

theorem itoaPut_some (s : Word) (c : Byte) (mem : Memory) (h : k < 12) :
    itoaPut s (k + 1 : Nat) c mem = some ((k : Int), mem.write (s + BitVec.ofNat 32 k) [c]) := by
  rw [itoaPut, show ((k + 1 : Nat) : Int) - 1 = k by omega, itoaStore_some s c mem h]
  rfl

/-- 書いてあるものの手前に書いた並び。 -/
theorem write_back {m : Memory} {j : Nat} (xs ys : List Byte) (hj : j = k + xs.length) (h : xs.length + ys.length ≤ 2 ^ 32) :
    (m.write (s + BitVec.ofNat 32 j) ys).write (s + BitVec.ofNat 32 k) xs = m.write (s + BitVec.ofNat 32 k) (xs ++ ys) := by
  rw [hj, BitVec.ofNat_add, ← BitVec.add_assoc, Memory.write_prepend _ _ _ _ h]

/-- 空いたところに桁が収まれば、書いた桁の並びの先頭で止まる。 -/
theorem itoaLoop_digits (s : Word) (mem : Memory) (hroom : (Decimal.digits n).length ≤ k) (hk : k < 12) :
    itoaLoop s (-n) k mem = some (((k - (Decimal.digits n).length : Nat) : Int),
      mem.write (s + BitVec.ofNat 32 (k - (Decimal.digits n).length)) (Decimal.digits n)) := by
  induction n using Nat.strongRecOn generalizing k mem with
  | _ n ih =>
      rw [itoaLoop]
      by_cases hn : n = 0
      · subst hn
        rfl
      · have hsplit := Decimal.digits_succ hn
        have hlen := congrArg List.length hsplit
        rw [List.length_append, List.length_singleton] at hlen
        obtain ⟨k, rfl⟩ : ∃ j, k = j + 1 := ⟨k - 1, by omega⟩
        have hdigit : BitVec.ofInt 8 (48 - (-(n : Int)).tmod 10) = Decimal.digit (n % 10) := by
          rw [Int.neg_tmod, Int.tmod_eq_emod_of_nonneg (Int.natCast_nonneg n), Decimal.digit, ← BitVec.ofInt_natCast]
          congr 1
          omega
        have hdiv : (-(n : Int)).tdiv 10 = -((n / 10 : Nat) : Int) := by
          rw [Int.neg_tdiv, Int.tdiv_eq_ediv_of_nonneg (Int.natCast_nonneg n)]
          rfl
        have hrest := ih (n / 10) (by omega) (mem.write (s + BitVec.ofNat 32 k) [Decimal.digit (n % 10)]) (k := k) (by omega)
          (by omega)
        have hback : k + 1 - (Decimal.digits n).length = k - (Decimal.digits (n / 10)).length := by omega
        rw [if_neg (by omega), hdigit, hdiv, itoaPut_some s _ mem (by omega)]
        refine hrest.trans ?_
        rw [hback, hsplit, write_back _ _ (by omega) (by simp; omega)]

theorem length_natural_le (h : n < 10 ^ 10) : (Decimal.natural n).length ≤ 10 := by
  rw [Decimal.natural]
  split
  · decide
  · exact Decimal.length_digits_le h

theorem itoaDigits_natural (s : Word) (mem : Memory) (h : n < 10 ^ 10) :
    itoaDigits s (-n) mem = some (((11 - (Decimal.natural n).length : Nat) : Int),
      mem.write (s + BitVec.ofNat 32 (11 - (Decimal.natural n).length)) (Decimal.natural n)) := by
  have hlen := Decimal.length_digits_le h
  have hloop := itoaLoop_digits (n := n) (k := 11) s mem (by omega) (by decide)
  by_cases hn : n = 0
  · subst hn
    rw [itoaDigits]
    exact (congrArg (· >>= _) hloop).trans (itoaPut_some (k := 10) s 0x30 mem (by decide))
  · have hpos := List.length_pos_iff.2 (Decimal.digits_ne_nil hn)
    rw [itoaDigits, Decimal.natural, if_neg hn]
    refine (congrArg (· >>= _) hloop).trans ?_
    exact if_neg (by omega)

/-! ## 返す文字列 -/

/-- 12 バイトの配列の終わりに、十進の文字列と終端が書かれ、その先頭が返る。 -/
theorem itoa_decimal {i : Int} (s : Word) (mem : Memory) (hl : -2 ^ 31 ≤ i) (hu : i < 2 ^ 31) :
    ∃ k, k + (Decimal.decimal i).length = 11 ∧
      itoa s i mem = some (s + BitVec.ofNat 32 k, mem.write (s + BitVec.ofNat 32 k) (Decimal.decimal i ++ [0])) := by
  have hnat := length_natural_le (n := i.natAbs) (by omega)
  have hnum := itoaDigits_natural (n := i.natAbs) s (mem.write (s + BitVec.ofNat 32 11) [0]) (by omega)
  rw [write_back _ _ (by omega) (by simp; omega)] at hnum
  have hend : itoaStore s 11 0 mem = some (mem.write (s + BitVec.ofNat 32 11) [0]) := itoaStore_some s 0 mem (by decide)
  rw [itoa]
  by_cases hneg : i < 0
  · have hdec : Decimal.decimal i = Decimal.minus :: Decimal.natural i.natAbs := if_pos hneg
    have hi : i = -(i.natAbs : Int) := by omega
    have hk : 11 - (Decimal.natural i.natAbs).length = (10 - (Decimal.natural i.natAbs).length) + 1 := by omega
    refine ⟨10 - (Decimal.natural i.natAbs).length, by rw [hdec, List.length_cons]; omega, ?_⟩
    have hroom : 10 - (Decimal.natural i.natAbs).length < 12 := by omega
    rw [hk] at hnum
    refine Option.bind_eq_some_iff.2 ⟨_, hend, ?_⟩
    refine Option.bind_eq_some_iff.2 ⟨i, if_neg (by omega), ?_⟩
    refine Option.bind_eq_some_iff.2 ⟨_, (congrArg (itoaDigits s · _) hi).trans hnum, ?_⟩
    refine Option.bind_eq_some_iff.2 ⟨_, (if_pos (decide_eq_true hneg)).trans (itoaPut_some s _ _ hroom), ?_⟩
    have hback := write_back (s := s) (m := mem) (k := 10 - (Decimal.natural i.natAbs).length) [Decimal.minus]
      (Decimal.natural i.natAbs ++ [0]) rfl (by simp; omega)
    simp only [BitVec.ofInt_natCast, hdec]
    exact congrArg (fun m => some (_, m)) hback
  · have hdec : Decimal.decimal i = Decimal.natural i.natAbs := if_neg hneg
    have hi : (if 0 ≤ i then negate i else some i) = some (-(i.natAbs : Int)) := by
      rw [if_pos (by omega), negate, if_pos (by constructor <;> omega)]
      congr 1
      omega
    refine ⟨11 - (Decimal.natural i.natAbs).length, by rw [hdec]; omega, ?_⟩
    refine Option.bind_eq_some_iff.2 ⟨_, hend, ?_⟩
    refine Option.bind_eq_some_iff.2 ⟨_, hi, ?_⟩
    refine Option.bind_eq_some_iff.2 ⟨_, hnum, ?_⟩
    refine Option.bind_eq_some_iff.2 ⟨_, if_neg (by simpa using hneg), ?_⟩
    simp only [BitVec.ofInt_natCast, hdec]
    rfl

/-- 返すポインタから十進の文字列が読め、配列の他は変わらない。 -/
theorem itoa_text {i : Int} (s : Word) (mem : Memory) (hl : -2 ^ 31 ≤ i) (hu : i < 2 ^ 31) :
    ∃ k mem', itoa s i mem = some (s + BitVec.ofNat 32 k, mem') ∧ StrAt mem' (s + BitVec.ofNat 32 k) (Decimal.decimal i) ∧
      k + (Decimal.decimal i).length < 12 ∧ ∀ x, (∀ j < 12, x ≠ s + BitVec.ofNat 32 j) → mem' x = mem x := by
  obtain ⟨k, hk, hrun⟩ := itoa_decimal s mem hl hu
  refine ⟨k, _, hrun, strAt_write (by omega) fun c hc => Decimal.decimal_ne_zero hc, by omega, ?_⟩
  intro x hx
  refine write_outside fun j hj => ?_
  rw [BitVec.add_assoc, ← BitVec.ofNat_add]
  rw [List.length_append, List.length_singleton] at hj
  exact hx (k + j) (by omega)

/-- `int` のどの値でも、配列の中に、その十進の文字列が置かれて返る。 -/
theorem itoa_canonical {i : Int} (s : Word) (mem : Memory) (hl : -2 ^ 31 ≤ i) (hu : i < 2 ^ 31) :
    ∃ k t mem', itoa s i mem = some (s + BitVec.ofNat 32 k, mem') ∧ StrAt mem' (s + BitVec.ofNat 32 k) t ∧
      k + t.length < 12 ∧ Decimal.Canonical i t ∧ ∀ x, (∀ j < 12, x ≠ s + BitVec.ofNat 32 j) → mem' x = mem x := by
  obtain ⟨k, mem', hrun, hstr, hlen, hsame⟩ := itoa_text s mem hl hu
  exact ⟨k, Decimal.decimal i, mem', hrun, hstr, hlen, Decimal.decimal_canonical i, hsame⟩

theorem itoa_canonical_min : ∃ k t mem', itoa 0x402000 (-2 ^ 31) (fun _ => 0xFF) = some (0x402000 + BitVec.ofNat 32 k, mem') ∧
    StrAt mem' (0x402000 + BitVec.ofNat 32 k) t ∧ k + t.length < 12 ∧ Decimal.Canonical (-2 ^ 31) t ∧
      ∀ x, (∀ j < 12, x ≠ 0x402000 + BitVec.ofNat 32 j) → mem' x = 0xFF :=
  itoa_canonical 0x402000 (fun _ => 0xFF) (by decide) (by decide)

end EnkiOs
