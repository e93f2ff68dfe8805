import Mathlib.Tactic.Common

/-!
# 初めの違い

二つの列が、初めて違う位置。
-/

namespace FirstDiff

variable {α : Type*} {u v u' v' : Nat → α} {i j n : Nat}

/-- `i` より手前では等しく、`i` で違う。 -/
structure At (u v : Nat → α) (i : Nat) : Prop where
  differ : u i ≠ v i
  agree : ∀ j < i, u j = v j

theorem At.unique (hi : At u v i) (hj : At u v j) : i = j := by
  rcases Nat.lt_trichotomy i j with hlt | heq | hlt
  · exact absurd (hj.agree i hlt) hi.differ
  · exact heq
  · exact absurd (hi.agree j hlt) hj.differ

theorem At.congr (h : At u v i) (hu : ∀ j ≤ i, u' j = u j) (hv : ∀ j ≤ i, v' j = v j) : At u' v' i := by
  refine ⟨?_, fun j hj => ?_⟩
  · rw [hu i (Nat.le_refl i), hv i (Nat.le_refl i)]
    exact h.differ
  · rw [hu j (Nat.le_of_lt hj), hv j (Nat.le_of_lt hj)]
    exact h.agree j hj

theorem At.tail (h : At u v (i + 1)) : At (fun j => u (j + 1)) (fun j => v (j + 1)) i :=
  ⟨h.differ, fun j hj => h.agree (j + 1) (Nat.succ_lt_succ hj)⟩

theorem agree_or_at (u v : Nat → α) (n : Nat) : (∀ i < n, u i = v i) ∨ ∃ i < n, At u v i := by
  induction n with
  | zero => exact .inl fun i hi => absurd hi (Nat.not_lt_zero i)
  | succ n ih =>
      rcases ih with hagree | ⟨i, hi, hat⟩
      · by_cases hn : u n = v n
        · refine .inl fun i hi => ?_
          rcases Nat.lt_succ_iff_lt_or_eq.1 hi with hlt | rfl
          · exact hagree i hlt
          · exact hn
        · exact .inr ⟨n, Nat.lt_succ_self n, hn, hagree⟩
      · exact .inr ⟨i, Nat.lt_succ_of_lt hi, hat⟩

end FirstDiff
