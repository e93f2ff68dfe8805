import EnkiOs.Lib.Int32
import Mathlib.Data.Nat.Digits.Lemmas

/-!
# 十進の文字列

整数の、余分な零のない十進の文字列と、その読み戻し。文字は ASCII のバイトで表す。
-/

namespace Decimal
open Machine

/-- 一桁の数字。 -/
def digit (d : Nat) : Byte := BitVec.ofNat 8 (48 + d)

def IsDigit (c : Byte) : Prop := 48 ≤ c.toNat ∧ c.toNat ≤ 57

instance (c : Byte) : Decidable (IsDigit c) := inferInstanceAs (Decidable (_ ∧ _))

/-- `-` -/
abbrev minus : Byte := 0x2D

/-- 上の桁からの数字の並び。0 では空である。 -/
def digits (n : Nat) : List Byte := (Nat.digits 10 n).reverse.map digit

/-- 零は一桁とする。 -/
def natural (n : Nat) : List Byte := if n = 0 then [digit 0] else digits n

def decimal (i : Int) : List Byte := if i < 0 then minus :: natural i.natAbs else natural i.natAbs

/-! ## 読み戻し -/

/-- 数字の並びの値。 -/
def value (t : List Byte) : Nat := t.foldl (fun n c => 10 * n + (c.toNat - 48)) 0

def parseNatural (t : List Byte) : Option Nat := if t ≠ [] ∧ ∀ c ∈ t, IsDigit c then some (value t) else none

def parse (t : List Byte) : Option Int :=
  if t.head? = some minus then (parseNatural t.tail).map fun n : Nat => -(n : Int) else (parseNatural t).map Int.ofNat

theorem toNat_digit {d : Nat} (h : d < 10) : (digit d).toNat = 48 + d := by
  rw [digit, BitVec.toNat_ofNat]
  omega

theorem digits_isDigit {n : Nat} {c : Byte} (h : c ∈ digits n) : IsDigit c := by
  obtain ⟨d, hd, rfl⟩ := List.mem_map.1 h
  have hlt : d < 10 := Nat.digits_lt_base (by decide) (List.mem_reverse.1 hd)
  rw [IsDigit, toNat_digit hlt]
  omega

theorem value_digits (n : Nat) : value (digits n) = n := by
  have hfold : ∀ l : List Nat, (∀ d ∈ l, d < 10) → value (l.reverse.map digit) = Nat.ofDigits 10 l := by
    intro l hl
    induction l with
    | nil => rfl
    | cons d l ih =>
        rw [List.forall_mem_cons] at hl
        rw [value, List.reverse_cons, List.map_append, List.foldl_append]
        have htail := ih hl.2
        rw [value] at htail
        rw [htail, Nat.ofDigits_cons]
        simp only [List.map_cons, List.map_nil, List.foldl_cons, List.foldl_nil, toNat_digit hl.1]
        omega
  rw [digits, hfold _ fun d hd => Nat.digits_lt_base (by decide) hd, Nat.ofDigits_digits]

theorem digits_succ {n : Nat} (h : n ≠ 0) : digits n = digits (n / 10) ++ [digit (n % 10)] := by
  rw [digits, Nat.digits_def' (by decide) (Nat.pos_of_ne_zero h), List.reverse_cons, List.map_append]
  rfl

theorem digits_ne_nil {n : Nat} (h : n ≠ 0) : digits n ≠ [] := by
  rw [digits_succ h]
  simp

theorem natural_ne_nil (n : Nat) : natural n ≠ [] := by
  rw [natural]
  split
  · simp
  · exact digits_ne_nil ‹_›

theorem natural_isDigit {n : Nat} {c : Byte} (h : c ∈ natural n) : IsDigit c := by
  rw [natural] at h
  split at h
  · obtain rfl := List.mem_singleton.1 h
    decide
  · exact digits_isDigit h

theorem value_natural (n : Nat) : value (natural n) = n := by
  rw [natural]
  split
  · rename_i h
    rw [h]
    rfl
  · exact value_digits n

theorem natural_head_ne_minus (n : Nat) : (natural n).head? ≠ some minus := by
  intro h
  have hdigit := natural_isDigit (List.mem_of_head? h)
  exact absurd hdigit (by decide)

/-- 十進の文字列は、元の整数に読み戻せる。 -/
theorem parse_decimal (i : Int) : parse (decimal i) = some i := by
  have hnat : parseNatural (natural i.natAbs) = some i.natAbs := by
    rw [parseNatural, if_pos ⟨natural_ne_nil _, fun c hc => natural_isDigit hc⟩, value_natural]
  rw [decimal]
  split
  · rw [parse, List.head?_cons, if_pos rfl, List.tail_cons, hnat, Option.map_some]
    congr 1
    omega
  · rw [parse, if_neg (natural_head_ne_minus _), hnat, Option.map_some, Int.ofNat_eq_natCast]
    congr 1
    omega

theorem decimal_ne_zero {i : Int} {c : Byte} (h : c ∈ decimal i) : c ≠ 0 := by
  rintro rfl
  have hnat : (0 : Byte) ∉ natural i.natAbs := fun hmem => absurd (natural_isDigit hmem) (by decide)
  rw [decimal] at h
  split at h
  · rcases List.mem_cons.1 h with h | h
    · exact absurd h (by decide)
    · exact hnat h
  · exact hnat h

/-! ## 余分な零のない形 -/

/-- `t` は、`i` の十進の文字列である。`-` は負のときだけ付き、零の他は零で始まらない。 -/
structure Canonical (i : Int) (t : List Byte) : Prop where
  sign : t.head? = some minus ↔ i < 0
  shape : ∃ ds, t = (if i < 0 then minus :: ds else ds) ∧ ds ≠ [] ∧ (∀ c ∈ ds, IsDigit c) ∧
    (ds.head? = some (digit 0) → i = 0 ∧ ds = [digit 0])
  parse : parse t = some i

theorem digits_head_ne_zero {n : Nat} (h : n ≠ 0) : (digits n).head? ≠ some (digit 0) := by
  induction n using Nat.strongRecOn with
  | _ n ih =>
      rw [digits_succ h]
      by_cases hsmall : n / 10 = 0
      · intro hhead
        rw [hsmall] at hhead
        have hd := congrArg BitVec.toNat (Option.some.inj hhead)
        rw [toNat_digit (by omega), toNat_digit (by decide)] at hd
        omega
      · obtain ⟨c, t, ht⟩ := List.exists_cons_of_ne_nil (digits_ne_nil hsmall)
        have hhead := ih (n / 10) (by omega) hsmall
        rw [ht] at hhead ⊢
        exact hhead

theorem decimal_canonical (i : Int) : Canonical i (decimal i) := by
  refine ⟨?_, ⟨natural i.natAbs, rfl, natural_ne_nil _, fun c hc => natural_isDigit hc, ?_⟩, parse_decimal i⟩
  · rw [decimal]
    split
    · exact iff_of_true rfl ‹_›
    · exact iff_of_false (natural_head_ne_minus _) ‹_›
  · intro hhead
    rw [natural] at hhead ⊢
    split at hhead
    · rename_i hzero
      exact ⟨Int.natAbs_eq_zero.1 hzero, if_pos hzero⟩
    · exact absurd hhead (digits_head_ne_zero ‹_›)

/-! ## 長さ -/

theorem length_digits_le {n k : Nat} (h : n < 10 ^ k) : (digits n).length ≤ k := by
  rw [digits, List.length_map, List.length_reverse]
  exact (Nat.digits_length_le_iff (by decide) n).2 h

end Decimal
