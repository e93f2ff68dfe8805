import Mathlib.Tactic.Common

/-!
# 上限つきの計算

繰り返しの上限を渡す計算の、上限によらない結果。
-/

namespace Fuel

variable {ε α : Type} {f : Nat → Except ε α} {a b : α} {e : ε}

/-- 上限が十分に大きければ、いつも `a` で終わる。 -/
def Settles (f : Nat → Except ε α) (a : α) : Prop := ∃ n, ∀ fuel, n ≤ fuel → f fuel = .ok a

theorem Settles.unique (ha : Settles f a) (hb : Settles f b) : a = b := by
  obtain ⟨n, hn⟩ := ha
  obtain ⟨k, hk⟩ := hb
  have heq := hn (max n k) (Nat.le_max_left n k)
  rw [hk (max n k) (Nat.le_max_right n k)] at heq
  cases heq
  rfl

theorem not_settles (h : ∀ fuel, f fuel = .error e) : ¬Settles f a := by
  rintro ⟨n, hn⟩
  have heq := hn n (Nat.le_refl n)
  rw [h n] at heq
  cases heq

theorem Settles.pure (a : α) : Settles (fun _ => (.ok a : Except ε α)) a := ⟨0, fun _ _ => rfl⟩

/-- 続けて行う計算は、両方の上限のうち大きい方で終わる。 -/
theorem Settles.bind {β : Type} {g : Nat → α → Except ε β} {b : β} (ha : Settles f a) (hb : Settles (fun fuel => g fuel a) b) :
    Settles (fun fuel => f fuel >>= g fuel) b := by
  obtain ⟨n, hn⟩ := ha
  obtain ⟨k, hk⟩ := hb
  refine ⟨max n k, ?_⟩
  intro fuel hfuel
  simp only [hn fuel (by omega)]
  exact hk fuel (by omega)

end Fuel
