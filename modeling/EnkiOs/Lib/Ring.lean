import Mathlib.Tactic.Common
import Mathlib.Logic.Function.Basic

/-!
# 環状のバッファ

`n` 個の場所を、整数の番号を `n` で割った余りで使う。空いた場所は `empty` を持つので、番号の差を数えなくても、先頭の場所を見れば
空かどうかが分かる。
-/

namespace Machine

/-- 番号 `pos` の場所。 -/
def ringSlot (n : Nat) (pos : Int) : Nat := (pos % n).toNat

/-- `n` 個までの続いた番号は、違う場所を使う。 -/
theorem ringSlot_inj {n : Nat} {pos pos' : Int} (hlt : pos < pos' + n) (hlt' : pos' < pos + n)
    (h : ringSlot n pos = ringSlot n pos') : pos = pos' := by
  have hn : (n : Int) ≠ 0 := by omega
  have hmod := Int.emod_nonneg pos hn
  have hmod' := Int.emod_nonneg pos' hn
  have hemod : pos % n = pos' % n := by
    simp only [ringSlot] at h
    omega
  obtain ⟨c, hc⟩ := Int.dvd_of_emod_eq_zero (Int.emod_eq_emod_iff_emod_sub_eq_zero.1 hemod)
  have hnpos : (0 : Int) < n := by omega
  have hlow : -1 < c := by
    apply Int.lt_of_mul_lt_mul_left _ (Int.le_of_lt hnpos)
    omega
  have hhigh : c < 1 := by
    apply Int.lt_of_mul_lt_mul_left _ (Int.le_of_lt hnpos)
    omega
  obtain rfl : c = 0 := by omega
  omega

/-- 一周の中の、番号の違う場所は違う。 -/
theorem ringSlot_ne {n j k : Nat} (head : Int) (hj : j < n) (hk : k < n) (hne : j ≠ k) :
    ringSlot n (head + j) ≠ ringSlot n (head + k) := by
  intro heq
  have := ringSlot_inj (by omega) (by omega) heq
  omega

/-- 番号 `head` から順に `queue` が入っていて、ほかの場所は空いている。 -/
structure RingHolds {α : Type} (n : Nat) (empty : α) (slots : Nat → α) (head : Int) (queue : List α) : Prop where
  fits : queue.length ≤ n
  used : ∀ k (h : k < queue.length), slots (ringSlot n (head + k)) = queue[k]
  unused : ∀ k, queue.length ≤ k → k < n → slots (ringSlot n (head + k)) = empty
  solid : ∀ x ∈ queue, x ≠ empty

namespace RingHolds

variable {α : Type} {n : Nat} {empty c : α} {slots : Nat → α} {head : Int} {queue : List α}

theorem blank (n : Nat) (empty : α) (head : Int) : RingHolds n empty (fun _ => empty) head [] where
  fits := Nat.zero_le n
  used k h := absurd h (Nat.not_lt_zero k)
  unused _ _ _ := rfl
  solid := by simp

/-- 番号は、`n` で割った余りだけが意味を持つ。 -/
theorem congr {head' : Int} (h : RingHolds n empty slots head queue) (hmod : head' % n = head % n) :
    RingHolds n empty slots head' queue := by
  have hslot : ∀ k : Int, ringSlot n (head' + k) = ringSlot n (head + k) := by
    intro k
    rw [ringSlot, ringSlot, Int.add_emod, hmod, ← Int.add_emod]
  constructor
  · exact h.fits
  · intro k hk
    rw [hslot]
    exact h.used k hk
  · intro k hk hkn
    rw [hslot]
    exact h.unused k hk hkn
  · exact h.solid

theorem front (h : RingHolds n empty slots head (c :: queue)) : slots (ringSlot n head) = c := by
  have h0 := h.used 0 (Nat.succ_pos _)
  rwa [Int.natCast_zero, Int.add_zero] at h0

theorem front_empty_iff (h : RingHolds n empty slots head queue) (hn : 0 < n) :
    slots (ringSlot n head) = empty ↔ queue = [] := by
  cases queue with
  | nil =>
      have h0 := h.unused 0 (Nat.le_refl 0) hn
      rw [Int.natCast_zero, Int.add_zero] at h0
      exact iff_of_true h0 rfl
  | cons c queue =>
      rw [h.front]
      exact iff_of_false (h.solid c List.mem_cons_self) (by simp)

/-- 空いた場所があれば、末尾の次の場所に書いた値が末尾に加わる。 -/
theorem push (h : RingHolds n empty slots head queue) (hlt : queue.length < n) (hc : c ≠ empty) :
    RingHolds n empty (Function.update slots (ringSlot n (head + queue.length)) c) head (queue ++ [c]) := by
  have hne : ∀ k < n, k ≠ queue.length → ringSlot n (head + k) ≠ ringSlot n (head + queue.length) :=
    fun k hk hkne => ringSlot_ne head hk (by omega) hkne
  constructor
  · rw [List.length_append, List.length_singleton]
    exact hlt
  · intro k hk
    rw [List.length_append, List.length_singleton] at hk
    rcases Nat.lt_or_ge k queue.length with hold | hnew
    · rw [Function.update_of_ne (hne k (by omega) (by omega)), h.used k hold, List.getElem_append_left hold]
    · obtain rfl : k = queue.length := by omega
      rw [Function.update_self, List.getElem_concat_length rfl]
  · intro k hk hkn
    rw [List.length_append, List.length_singleton] at hk
    rw [Function.update_of_ne (hne k hkn (by omega))]
    exact h.unused k (by omega) hkn
  · intro x hx
    rcases List.mem_append.1 hx with hx | hx
    · exact h.solid x hx
    · rw [List.mem_singleton.1 hx]
      exact hc

/-- 先頭の場所を空けると、残りが次の番号から入っている。 -/
theorem pop (h : RingHolds n empty slots head (c :: queue)) :
    RingHolds n empty (Function.update slots (ringSlot n head) empty) (head + 1) queue := by
  have hfits := h.fits
  rw [List.length_cons] at hfits
  have hshift : ∀ k : Nat, head + 1 + k = head + (k + 1 : Nat) := by
    intro k
    omega
  have hne : ∀ k < n, k ≠ 0 → ringSlot n (head + k) ≠ ringSlot n head := by
    intro k hk hk0
    have hslot := ringSlot_ne head hk (by omega) hk0
    rwa [Int.natCast_zero, Int.add_zero] at hslot
  constructor
  · omega
  · intro k hk
    rw [hshift, Function.update_of_ne (hne (k + 1) (by omega) (Nat.succ_ne_zero k)), h.used (k + 1) (by simpa using hk),
      List.getElem_cons_succ]
  · intro k hk hkn
    rw [hshift]
    rcases Nat.lt_or_ge (k + 1) n with hlt | hge
    · rw [Function.update_of_ne (hne (k + 1) hlt (Nat.succ_ne_zero k))]
      exact h.unused (k + 1) (by simpa using hk) hlt
    · -- 一周して、空けた場所に戻る。
      obtain rfl : k + 1 = n := by omega
      have hwrap : ringSlot (k + 1) (head + (k + 1 : Nat)) = ringSlot (k + 1) head := by
        simp only [ringSlot, Int.add_emod_right]
      rw [hwrap, Function.update_self]
  · exact fun x hx => h.solid x (List.mem_cons_of_mem c hx)

/-- 末尾の場所を空けると、末尾の値だけが除かれる。 -/
theorem drop (h : RingHolds n empty slots head (queue ++ [c])) :
    RingHolds n empty (Function.update slots (ringSlot n (head + queue.length)) empty) head queue := by
  have hfits := h.fits
  rw [List.length_append, List.length_singleton] at hfits
  have hne : ∀ k < n, k ≠ queue.length → ringSlot n (head + k) ≠ ringSlot n (head + queue.length) :=
    fun k hk hkne => ringSlot_ne head hk (by omega) hkne
  constructor
  · omega
  · intro k hk
    have hk' : k < (queue ++ [c]).length := by
      rw [List.length_append, List.length_singleton]
      omega
    rw [Function.update_of_ne (hne k (by omega) (by omega)), h.used k hk', List.getElem_append_left hk]
  · intro k hk hkn
    rcases Nat.eq_or_lt_of_le hk with rfl | hlt
    · rw [Function.update_self]
    · rw [Function.update_of_ne (hne k hkn (by omega))]
      refine h.unused k ?_ hkn
      rw [List.length_append, List.length_singleton]
      exact hlt
  · exact fun x hx => h.solid x (List.mem_append_left _ hx)

end RingHolds

end Machine
