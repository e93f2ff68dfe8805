import Mathlib.Tactic.Common

/-!
# 空きの並びの先頭からの探索

位置 `0, …, n - 1` を順に調べ、`m` 個続く空きを探す走査を定める。走査は続いている空きの先頭と個数だけを持つ。
終わった時点で先頭が残っていれば、それを結果とする。
-/

namespace FirstFit

variable (free : Nat → Bool) (m : Nat)

/-- 位置 `s` から `k` 個がどれも空いている。 -/
def Run (k s : Nat) : Prop := ∀ j, s ≤ j → j < s + k → free j = true

/-- `m` 個の空きが `s` から始まり、`n` の中に収まる。 -/
def Fits (n s : Nat) : Prop := s + m ≤ n ∧ Run free m s

/-- 残り `k` 個を位置 `i` から調べる。 -/
def scan : (k i current : Nat) → Option Nat → Option Nat
  | 0, _, _, start => start
  | k + 1, i, current, start =>
      if free i then
        if current + 1 = m then some (start.getD i)
        else scan k (i + 1) (current + 1) (some (start.getD i))
      else scan k (i + 1) 0 none

/-- 走査の結果が満たすこと。 -/
inductive Outcome (n : Nat) : Option Nat → Prop
  | fit {s : Nat} : Fits free m n s → (∀ s' < s, ¬ Fits free m n s') → Outcome n (some s)
  /-- 収まる場所はないが、末尾の空きの先頭が残った。 -/
  | tail {s : Nat} : (∀ s', ¬ Fits free m n s') → s < n → Run free (n - s) s → Outcome n (some s)
  | full : (∀ s', ¬ Fits free m n s') → (n = 0 ∨ free (n - 1) = false) → Outcome n none

/-- 位置 `i` まで調べた時点で、続いている空きの先頭と個数が満たすこと。 -/
structure Progress (i current : Nat) (start : Option Nat) : Prop where
  short : current < m
  nofit : ∀ s, ¬ Fits free m i s
  none_iff : start = none ↔ current = 0
  some_run : ∀ s, start = some s → s + current = i ∧ Run free current s
  left : ∀ s, start = some s → s = 0 ∨ free (s - 1) = false
  stop : start = none → i = 0 ∨ free (i - 1) = false

variable {free m}

/-- 空きの並びの手前が塞がっていれば、その先頭より前から始まる並びは先頭を越えられない。 -/
theorem Run.le_of_blocked {k s s' : Nat} (h : Run free k s') (hb : s = 0 ∨ free (s - 1) = false)
    (hs : s' < s) : s' + k < s := by
  rcases hb with rfl | hb
  · omega
  · by_contra hlt
    have := h (s - 1) (by omega) (by omega)
    rw [this] at hb
    cases hb

theorem progress_init (hm : 0 < m) : Progress free m 0 0 none where
  short := hm
  nofit := fun s h => by have := h.1; omega
  none_iff := by simp
  some_run := by simp
  left := by simp
  stop := fun _ => Or.inl rfl

theorem Progress.taken {i current start} (h : Progress free m i current start) (hf : free i = false) :
    Progress free m (i + 1) 0 none where
  short := by have := h.short; omega
  nofit := by
    intro s ⟨hle, hr⟩
    have hm := h.short
    by_cases hs : s + m ≤ i
    · exact h.nofit s ⟨hs, hr⟩
    · have := hr i (by omega) (by omega)
      rw [this] at hf
      cases hf
  none_iff := by simp
  some_run := by simp
  left := by simp
  stop := fun _ => Or.inr hf

/-- 続いている空きの先頭は、まだ無ければ今の位置になる。 -/
theorem Progress.head {i current start} (h : Progress free m i current start) (hf : free i = true) :
    start.getD i + (current + 1) = i + 1 ∧ Run free (current + 1) (start.getD i) ∧
      (start.getD i = 0 ∨ free (start.getD i - 1) = false) := by
  cases hs : start with
  | none =>
      have hc := h.none_iff.mp hs
      subst hc
      refine ⟨rfl, ?_, h.stop hs⟩
      intro j h1 h2
      simp only [Option.getD_none] at h1 h2
      obtain rfl : j = i := by omega
      exact hf
  | some s =>
      obtain ⟨he, hr⟩ := h.some_run s hs
      refine ⟨by simp only [Option.getD_some]; omega, ?_, h.left s hs⟩
      intro j h1 h2
      simp only [Option.getD_some] at h1 h2
      by_cases hj : j < s + current
      · exact hr j h1 hj
      · obtain rfl : j = i := by omega
        exact hf

theorem Progress.vacant {i current start} (h : Progress free m i current start) (hf : free i = true)
    (hne : current + 1 ≠ m) : Progress free m (i + 1) (current + 1) (some (start.getD i)) := by
  obtain ⟨he, hr, hl⟩ := h.head hf
  refine ⟨by have := h.short; omega, ?_, by simp, ?_, ?_, by simp⟩
  · intro s ⟨hle, hrun⟩
    have hlt := h.short
    by_cases hs : s < start.getD i
    · have := hrun.le_of_blocked hl hs
      exact h.nofit s ⟨by omega, hrun⟩
    · omega
  · intro s hs
    cases hs
    exact ⟨he, hr⟩
  · intro s hs
    cases hs
    exact hl

theorem Progress.found {i current start n} (h : Progress free m i current start) (hf : free i = true)
    (heq : current + 1 = m) (hn : i < n) : Outcome free m n (some (start.getD i)) := by
  obtain ⟨he, hr, hl⟩ := h.head hf
  subst heq
  refine .fit ⟨by omega, hr⟩ ?_
  intro s' hs' ⟨_, hr'⟩
  have := hr'.le_of_blocked hl hs'
  exact h.nofit s' ⟨by omega, hr'⟩

theorem scan_outcome {k i current : Nat} {start : Option Nat} (h : Progress free m i current start) :
    Outcome free m (i + k) (scan free m k i current start) := by
  induction k generalizing i current start with
  | zero =>
      cases hs : start with
      | none => exact .full (fun s => h.nofit s) (h.stop hs)
      | some s =>
          obtain ⟨he, hr⟩ := h.some_run s hs
          have hc : current ≠ 0 := fun hc => by rw [h.none_iff.mpr hc] at hs; cases hs
          refine .tail (fun s => h.nofit s) (by omega) ?_
          rwa [show i + 0 - s = current by omega]
  | succ k ih =>
      rw [scan, show i + (k + 1) = i + 1 + k by omega]
      cases hf : free i with
      | false => simpa using ih (h.taken hf)
      | true =>
          by_cases heq : current + 1 = m
          · simpa [heq] using h.found hf heq (by omega)
          · simpa [heq] using ih (h.vacant hf heq)

/-- 結果として残った先頭は、初めから持っていたものか、調べた中の空きである。`m` が 0 でもよい。 -/
theorem scan_some {k i current s : Nat} {start : Option Nat} (h : scan free m k i current start = some s) :
    start = some s ∨ (i ≤ s ∧ s < i + k ∧ free s = true) := by
  induction k generalizing i current start with
  | zero => exact .inl h
  | succ k ih =>
      rw [scan] at h
      cases hf : free i with
      | false =>
          rw [hf] at h
          rcases ih h with h0 | ⟨h1, h2, h3⟩
          · cases h0
          · exact .inr ⟨by omega, by omega, h3⟩
      | true =>
          rw [hf, if_pos rfl] at h
          have hhead : start.getD i = s → start = some s ∨ (i ≤ s ∧ s < i + (k + 1) ∧ free s = true) := by
            intro he
            cases start with
            | none =>
                have he' : i = s := he
                exact .inr ⟨by omega, by omega, he' ▸ hf⟩
            | some s' => exact .inl (congrArg some he)
          split at h
          · exact hhead (Option.some.inj h)
          · rcases ih h with h0 | ⟨h1, h2, h3⟩
            · exact hhead (Option.some.inj h0)
            · exact .inr ⟨by omega, by omega, h3⟩

/-- 0 個の空きを探すと、最後の位置が空いていれば、何かの先頭が残る。 -/
theorem scan_nothing {k i current : Nat} {start : Option Nat} (hlast : free (i + k) = true) :
    ∃ s, scan free 0 (k + 1) i current start = some s := by
  induction k generalizing i current start with
  | zero =>
      rw [scan, show free i = true from hlast]
      exact ⟨_, rfl⟩
  | succ k ih =>
      have hnext : free (i + 1 + k) = true := by rwa [show i + 1 + k = i + (k + 1) by omega]
      rw [scan]
      split
      · exact ih hnext
      · exact ih hnext

/-- 先頭から `n` 個を調べた結果。 -/
theorem scan_spec (hm : 0 < m) (n : Nat) : Outcome free m n (scan free m n 0 0 none) := by
  have h : Progress free m 0 0 none := progress_init hm
  simpa using scan_outcome (k := n) h

/-! ## 末尾の空き -/

/-- `s` から末尾までが空いていて、その手前は空いていない。 -/
structure Tail (free : Nat → Bool) (n s : Nat) : Prop where
  lt : s < n
  run : Run free (n - s) s
  left : s = 0 ∨ free (s - 1) = false

theorem Tail.eq {n s s' : Nat} (ht : Tail free n s) (ht' : Tail free n s') : s = s' := by
  have hle : ∀ {a b : Nat}, Tail free n a → Tail free n b → b ≤ a := by
    intro a b ha hb
    by_contra hlt
    have hb' := hb.left
    have halt := ha.lt
    have hblt := hb.lt
    rcases hb' with hb' | hb'
    · omega
    · rw [ha.run (b - 1) (by omega) (by omega)] at hb'
      cases hb'
  exact Nat.le_antisymm (hle ht' ht) (hle ht ht')

/-- 走査の途中で持っている先頭は、そこまでの末尾の空きの先頭である。 -/
def Trail (free : Nat → Bool) (i current : Nat) : Option Nat → Prop
  | none => i = 0 ∨ free (i - 1) = false
  | some s => Tail free i s ∧ s + current = i

theorem Trail.taken {i : Nat} (hf : free i = false) : Trail free (i + 1) 0 none := .inr hf

theorem Trail.vacant {i current : Nat} {start : Option Nat} (h : Trail free i current start) (hc : start = none → current = 0)
    (hf : free i = true) : Trail free (i + 1) (current + 1) (some (start.getD i)) := by
  cases start with
  | none =>
      obtain rfl := hc rfl
      refine ⟨⟨Nat.lt_succ_self i, fun j h1 h2 => ?_, h⟩, rfl⟩
      obtain rfl : j = i := by simp only [Option.getD_none] at h1 h2; omega
      exact hf
  | some s =>
      obtain ⟨ht, hcount⟩ := h
      have hlt := ht.lt
      refine ⟨⟨by simp only [Option.getD_some]; omega, fun j h1 h2 => ?_, ht.left⟩, by simp only [Option.getD_some]; omega⟩
      simp only [Option.getD_some] at h1 h2
      by_cases hj : j = i
      · rw [hj]
        exact hf
      · exact ht.run j h1 (by omega)

/-- 収まる場所が見つかるか、末尾の空きの先頭が残る。`m` が 0 でもよい。 -/
theorem scan_trail {k i current : Nat} {start : Option Nat} (h : Trail free i current start) (hc : start = none → current = 0) :
    (0 < m ∧ ∃ s, Fits free m (i + k) s) ∨ ∃ c, Trail free (i + k) c (scan free m k i current start) := by
  induction k generalizing i current start with
  | zero => exact .inr ⟨current, h⟩
  | succ k ih =>
      rw [scan, show i + (k + 1) = i + 1 + k by omega]
      cases hf : free i with
      | false => simpa using ih (Trail.taken hf) fun _ => rfl
      | true =>
          have hnext := h.vacant hc hf
          by_cases heq : current + 1 = m
          · obtain ⟨ht, hcount⟩ := hnext
            refine .inl ⟨by omega, _, by omega, fun j h1 h2 => ht.run j h1 (by omega)⟩
          · simpa [heq] using ih hnext fun h0 => by cases h0

end FirstFit
