import Mathlib.Data.Fintype.Pigeonhole

/-!
# ポインタをたどる歩み

`next` を繰り返し、`null` に着いたところで止まる歩み。位置が有限個しかなければ、歩みが止まるのは、同じ位置を二度
通らないときである。
-/

namespace PointerWalk

variable {α : Type*} (next : α → α) (null root : α)

/-- 歩みが止まる。 -/
def Ends : Prop := ∃ n, next^[n] root = null

/-- 止まる前に、同じ位置を二度通る。 -/
def Revisits : Prop := ∃ i j, i < j ∧ (∀ k ≤ j, next^[k] root ≠ null) ∧ next^[i] root = next^[j] root

variable {next null root}

/-- 同じ位置を二度通った後は、その間を繰り返すので、`null` に着かない。 -/
theorem Revisits.not_ends (h : Revisits next null root) : ¬Ends next null root := by
  obtain ⟨i, j, hij, hne, heq⟩ := h
  have hall : ∀ m, next^[m] root ≠ null := by
    intro m
    induction m using Nat.strongRecOn with
    | ind m ih =>
        by_cases hm : m ≤ j
        · exact hne m hm
        · have hback : next^[m] root = next^[m - j + i] root := by
            rw [show m = m - j + j by omega, Function.iterate_add_apply, ← heq, ← Function.iterate_add_apply]
            congr 1
            omega
          rw [hback]
          exact ih _ (by omega)
  rintro ⟨n, hn⟩
  exact hall n hn

theorem ends_iff [Finite α] : Ends next null root ↔ ¬Revisits next null root := by
  refine ⟨fun hends hrev => hrev.not_ends hends, ?_⟩
  intro hno
  by_contra hends
  have hne : ∀ n, next^[n] root ≠ null := fun n hn => hends ⟨n, hn⟩
  obtain ⟨i, j, hij, heq⟩ := Finite.exists_ne_map_eq_of_infinite fun n => next^[n] root
  rcases Nat.lt_or_gt_of_ne hij with hlt | hlt
  · exact hno ⟨i, j, hlt, fun k _ => hne k, heq⟩
  · exact hno ⟨j, i, hlt, fun k _ => hne k, heq.symm⟩

end PointerWalk
