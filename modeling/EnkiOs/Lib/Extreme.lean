import Mathlib.Data.List.Induction
import Mathlib.Tactic.Common

/-!
# 並びの中で一番のもの

候補を一つ持ち、新しい要素と比べて残す畳み込み。比べる関係 `r` と、比べる値 `f` は問わない。
-/

namespace Machine

variable {σ α β : Type} {r : β → β → Prop} {f : α → β} {x y : α} {l l' : List α}

/-- `x` は `l` の要素で、その値は、どの要素の値とも `r` の関係にある。 -/
structure Extreme (r : β → β → Prop) (f : α → β) (l : List α) (x : α) : Prop where
  mem : x ∈ l
  bound : ∀ y ∈ l, r (f x) (f y)

namespace Extreme

theorem perm (h : Extreme r f l x) (hperm : l.Perm l') : Extreme r f l' x where
  mem := hperm.mem_iff.1 h.mem
  bound := fun y hy => h.bound y (hperm.mem_iff.2 hy)

/-- 一番の要素は一つとは限らないが、その値は一つである。 -/
theorem value_eq [Std.Antisymm r] (hx : Extreme r f l x) (hy : Extreme r f l y) : f x = f y :=
  Std.Antisymm.antisymm _ _ (hx.bound y hy.mem) (hy.bound x hx.mem)

theorem singleton [Std.Refl r] (f : α → β) (x : α) : Extreme r f [x] x where
  mem := List.mem_singleton_self x
  bound := by
    intro y hy
    rw [List.mem_singleton.1 hy]
    exact Std.Refl.refl _

theorem keep (h : Extreme r f l x) (hr : r (f x) (f y)) : Extreme r f (l ++ [y]) x where
  mem := List.mem_append_left [y] h.mem
  bound := by
    intro z hz
    rcases List.mem_append.1 hz with hz | hz
    · exact h.bound z hz
    · rw [List.mem_singleton.1 hz]
      exact hr

theorem replace [Std.Refl r] [IsTrans β r] (h : Extreme r f l x) (hr : r (f y) (f x)) : Extreme r f (l ++ [y]) y where
  mem := List.mem_append_right l (List.mem_singleton_self y)
  bound := by
    intro z hz
    rcases List.mem_append.1 hz with hz | hz
    · exact IsTrans.trans _ _ _ hr (h.bound z hz)
    · rw [List.mem_singleton.1 hz]
      exact Std.Refl.refl _

end Extreme

/-- `Rep s x` は、状態 `s` が候補 `x` を持つことを言う。最初の要素が候補になり、その後は新しい要素と今の候補のうち一番の方が
候補になるなら、最後の候補は並びの中で一番である。 -/
theorem foldl_extreme [Std.Refl r] [IsTrans β r] {step : σ → α → σ} {Rep : σ → α → Prop} {s : σ} (hne : l ≠ [])
    (hfirst : ∀ y ∈ l, Rep (step s y) y)
    (hstep : ∀ s, ∀ x ∈ l, ∀ y ∈ l, Rep s x →
      Rep (step s y) y ∧ r (f y) (f x) ∨ Rep (step s y) x ∧ r (f x) (f y)) :
    ∃ x, Extreme r f l x ∧ Rep (l.foldl step s) x := by
  induction l using List.reverseRecOn with
  | nil => exact absurd rfl hne
  | append_singleton init y ih =>
      rw [List.foldl_append]
      by_cases hnil : init = []
      · subst hnil
        exact ⟨y, .singleton f y, hfirst y (by simp)⟩
      · have hfirst' : ∀ z ∈ init, Rep (step s z) z := fun z hz => hfirst z (List.mem_append_left [y] hz)
        obtain ⟨x, hx, hrep⟩ := ih hnil hfirst' fun s' a ha b hb =>
          hstep s' a (List.mem_append_left [y] ha) b (List.mem_append_left [y] hb)
        rcases hstep _ x (List.mem_append_left [y] hx.mem) y (by simp) hrep with ⟨hnew, hr⟩ | ⟨hold, hr⟩
        · exact ⟨y, hx.replace hr, hnew⟩
        · exact ⟨x, hx.keep hr, hold⟩

end Machine
