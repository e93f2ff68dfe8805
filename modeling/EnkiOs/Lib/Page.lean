import Mathlib.Data.List.GetD
import Mathlib.Logic.Function.Basic

/-!
# ページ

幅 `w` の行を並べた画面に、先頭から順に書いた文字。画面のセルは番号からの関数で、まだ書いていないセルには空白がある。
-/

namespace Machine.Page

variable {α : Type} {blank c : α} {w size : Nat} {page : List α} {cells : Int → α}

/-- 行の残りを空白で埋める。 -/
def newline (w : Nat) (blank : α) (page : List α) : List α := page ++ List.replicate (w - page.length % w) blank

theorem length_newline (hw : 0 < w) (blank : α) (page : List α) : (newline w blank page).length = (page.length / w + 1) * w := by
  have hlt := Nat.mod_lt page.length hw
  have hdiv := Nat.div_add_mod' page.length w
  rw [newline, List.length_append, List.length_replicate, Nat.succ_mul]
  omega

theorem length_le_newline (w : Nat) (blank : α) (page : List α) : page.length ≤ (newline w blank page).length := by
  rw [newline, List.length_append]
  exact Nat.le_add_right _ _

/-- 画面の `size` 個のセルに、`page` の文字が並び、残りは空白である。 -/
def Shows (blank : α) (size : Nat) (cells : Int → α) (page : List α) : Prop := ∀ i : Nat, i < size → cells i = page.getD i blank

theorem Shows.empty (h : ∀ i : Nat, i < size → cells i = blank) : Shows blank size cells [] := h

/-- 次のセルに一文字を書く。 -/
theorem Shows.print (h : Shows blank size cells page) (c : α) :
    Shows blank size (Function.update cells (page.length : Int) c) (page ++ [c]) := by
  intro i hi
  rcases Nat.lt_trichotomy i page.length with hlt | rfl | hgt
  · rw [Function.update_of_ne (by omega), h i hi, List.getD_append _ _ _ _ hlt]
  · rw [Function.update_self, List.getD_append_right _ _ _ _ (Nat.le_refl _), Nat.sub_self]
    rfl
  · rw [Function.update_of_ne (by omega), h i hi, List.getD_eq_default _ _ (Nat.le_of_lt hgt)]
    exact (List.getD_eq_default _ _ (by rw [List.length_append, List.length_singleton]; omega)).symm

/-- 空白を書いて進んでも、書かずに進んでも、画面は同じである。 -/
theorem Shows.fill (h : Shows blank size cells page) (k : Nat) : Shows blank size cells (page ++ List.replicate k blank) := by
  intro i hi
  rw [h i hi]
  by_cases hlt : i < page.length
  · rw [List.getD_append _ _ _ _ hlt]
  · have hge : page.length ≤ i := Nat.not_lt.1 hlt
    rw [List.getD_eq_default _ _ hge, List.getD_append_right _ _ _ _ hge]
    by_cases hk : i - page.length < k
    · exact (List.getD_replicate _ hk).symm
    · rw [List.getD_eq_default _ _ (by rw [List.length_replicate]; omega)]

theorem Shows.newline (h : Shows blank size cells page) (w : Nat) : Shows blank size cells (newline w blank page) := h.fill _

/-- 最後の文字を空白に戻す。 -/
theorem Shows.erase (h : Shows blank size cells (page ++ [c])) :
    Shows blank size (Function.update cells (page.length : Int) blank) page := by
  intro i hi
  rcases Nat.lt_trichotomy i page.length with hlt | rfl | hgt
  · rw [Function.update_of_ne (by omega), h i hi, List.getD_append _ _ _ _ hlt]
  · rw [Function.update_self, List.getD_eq_default _ _ (Nat.le_refl _)]
  · rw [Function.update_of_ne (by omega), h i hi, List.getD_eq_default _ _ (Nat.le_of_lt hgt)]
    exact List.getD_eq_default _ _ (by rw [List.length_append, List.length_singleton]; omega)

end Machine.Page
