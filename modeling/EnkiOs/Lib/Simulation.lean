/-!
# 呼び出しの列の模倣

呼び出しを一つずつ処理する二つの機械について、一つの呼び出しで結果が対応すれば、列の結果も対応する。呼び出しは失敗してもよい。
-/

namespace Machine

variable {σ τ α ρ ε : Type} {step : σ → α → Except ε (ρ × σ)} {step' : τ → α → Except ε (ρ × τ)} {allowed : σ → α → Prop}
  {R : σ → τ → Prop}

/-- 呼び出しを順に処理し、返した値を並べる。失敗すると、そこで終わる。 -/
def runAll (step : σ → α → Except ε (ρ × σ)) : σ → List α → Except ε (List ρ × σ)
  | s, [] => .ok ([], s)
  | s, a :: calls => do
      let (r, s) ← step s a
      let (rs, s) ← runAll step s calls
      return (r :: rs, s)

/-- どの呼び出しも、その直前の状態で許されている。 -/
def Allows (step : σ → α → Except ε (ρ × σ)) (allowed : σ → α → Prop) : σ → List α → Prop
  | _, [] => True
  | s, a :: calls => allowed s a ∧ ∀ r s', step s a = .ok (r, s') → Allows step allowed s' calls

/-- 同じ値を返して対応する状態になるか、同じように失敗する。 -/
def Matches (R : σ → τ → Prop) : Except ε (ρ × σ) → Except ε (ρ × τ) → Prop
  | .ok (r, s), .ok (r', t) => r = r' ∧ R s t
  | .error e, .error e' => e = e'
  | _, _ => False

theorem Matches.imp {S : σ → τ → Prop} {x : Except ε (ρ × σ)} {y : Except ε (ρ × τ)} (h : Matches R x y)
    (himp : ∀ s t, R s t → S s t) : Matches S x y := by
  cases x with
  | error e =>
      cases y with
      | error e' => exact h
      | ok b => exact h
  | ok a =>
      cases y with
      | error e' => exact h
      | ok b => exact ⟨h.1, himp _ _ h.2⟩

/-- 続けて行う計算の対応。 -/
theorem Matches.bind {σ' τ' ρ' : Type} {S : σ' → τ' → Prop} {x : Except ε (ρ × σ)} {y : Except ε (ρ × τ)}
    {f : ρ × σ → Except ε (ρ' × σ')} {g : ρ × τ → Except ε (ρ' × τ')} (h : Matches R x y)
    (hf : ∀ r s t, x = .ok (r, s) → R s t → Matches S (f (r, s)) (g (r, t))) : Matches S (x >>= f) (y >>= g) := by
  cases x with
  | error e =>
      cases y with
      | error e' => exact h
      | ok b => exact h.elim
  | ok a =>
      cases y with
      | error e' => exact h.elim
      | ok b =>
          obtain ⟨r, s⟩ := a
          obtain ⟨r', t⟩ := b
          obtain ⟨rfl, hr⟩ := h
          exact hf r s t rfl hr

/-- 許された一つの呼び出しで対応が保たれれば、列でも保たれる。 -/
theorem Matches.run (hstep : ∀ s t a, R s t → allowed s a → Matches R (step s a) (step' t a)) {s : σ} {t : τ} {calls : List α}
    (hr : R s t) (hallows : Allows step allowed s calls) : Matches R (runAll step s calls) (runAll step' t calls) := by
  induction calls generalizing s t with
  | nil => exact ⟨rfl, hr⟩
  | cons a calls ih =>
      obtain ⟨hallowed, hrest⟩ := hallows
      refine (hstep s t a hr hallowed).bind fun r s₁ t₁ hx hr₁ => ?_
      refine (ih hr₁ (hrest r s₁ hx)).bind fun rs s₂ t₂ _ hr₂ => ?_
      exact ⟨rfl, hr₂⟩

end Machine
