import Mathlib.Tactic.Common

/-!
# 書式

印と次の文字の対を、整数や文字列で置き換える書式。対の文字が表すものは `conv` で与える。
-/

namespace Format

/-- 書式の部分。`lone` は、書式の最後にあって、対にならない印である。 -/
inductive Piece (α : Type)
  | lit (c : α)
  | int
  | str
  | lone
deriving DecidableEq

variable {α : Type} [DecidableEq α] {percent c d : α} {conv : α → Piece α} {l : List α}

/-- 先頭から順に、印と次の文字を対にする。 -/
def pieces (percent : α) (conv : α → Piece α) : List α → List (Piece α)
  | [] => []
  | [c] => if c = percent then [.lone] else [.lit c]
  | c :: d :: l => if c = percent then conv d :: pieces percent conv l else .lit c :: pieces percent conv (d :: l)

/-- 整数と文字列の部分を、順に `ts` の並びで置き換える。 -/
def fill : List (Piece α) → List (List α) → List α
  | [], _ => []
  | .lit c :: ps, ts => c :: fill ps ts
  | .int :: ps, t :: ts => t ++ fill ps ts
  | .str :: ps, t :: ts => t ++ fill ps ts
  | .int :: ps, [] => fill ps []
  | .str :: ps, [] => fill ps []
  | .lone :: ps, ts => fill ps ts

theorem pieces_lit (h : c ≠ percent) : pieces percent conv (c :: l) = .lit c :: pieces percent conv l := by
  cases l with
  | nil => exact if_neg h
  | cons d l => exact if_neg h

theorem pieces_lone (percent : α) (conv : α → Piece α) : pieces percent conv [percent] = [.lone] := if_pos rfl

theorem pieces_conv (percent : α) (conv : α → Piece α) (d : α) (l : List α) :
    pieces percent conv (percent :: d :: l) = conv d :: pieces percent conv l := if_pos rfl

/-- 書式についての帰納法。先頭が、対にならない印か、印でない文字か、印と文字の対かで分ける。 -/
theorem pieces_induction {motive : List α → Prop} (percent : α) (nil : motive []) (lone : motive [percent])
    (lit : ∀ c l, c ≠ percent → motive l → motive (c :: l)) (conv : ∀ d l, motive l → motive (percent :: d :: l))
    (l : List α) : motive l := by
  induction hn : l.length using Nat.strongRecOn generalizing l with
  | _ n ih =>
      cases l with
      | nil => exact nil
      | cons c l =>
          rw [List.length_cons] at hn
          by_cases hc : c = percent
          · subst hc
            cases l with
            | nil => exact lone
            | cons d l =>
                rw [List.length_cons] at hn
                exact conv d l (ih l.length (by omega) l rfl)
          · exact lit c l hc (ih l.length (by omega) l rfl)

end Format
