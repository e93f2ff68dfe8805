import Mathlib.Data.List.Chain
import Mathlib.Tactic.Common

/-!
# 双方向の連結リスト

二つの関数 `next` と `prev` が作る並び。要素の型と、空を表す値 `null` は問わない。
-/

namespace Machine

variable {α : Type}

/-- `head` から `next` をたどると `l` が順に得られて `null` で終わり、`prev` は逆向きにたどる。 -/
structure DoublyLinked (next prev : α → α) (null head tail : α) (l : List α) : Prop where
  nodup : l.Nodup
  ne_null : ∀ x ∈ l, x ≠ null
  head_eq : head = l.headD null
  tail_eq : tail = l.getLastD null
  links : l.IsChain fun a b => next a = b ∧ prev b = a
  first : ∀ x ∈ l.head?, prev x = null
  last : ∀ x ∈ l.getLast?, next x = null

/-- 次の要素。末尾からは先頭に戻る。 -/
def cyclicNext [DecidableEq α] (next : α → α) (null head a : α) : α := if next a = null then head else next a

namespace DoublyLinked

variable {next prev next' prev' : α → α} {null head tail : α} {l : List α}

theorem nil : DoublyLinked next prev null null null [] where
  nodup := List.nodup_nil
  ne_null := by simp
  head_eq := rfl
  tail_eq := rfl
  links := .nil
  first := by simp
  last := by simp

theorem singleton {t : α} (ht : t ≠ null) (hnext : next t = null) (hprev : prev t = null) :
    DoublyLinked next prev null t t [t] where
  nodup := by simp
  ne_null := by simpa using ht
  head_eq := rfl
  tail_eq := rfl
  links := .singleton t
  first := by simpa using hprev
  last := by simpa using hnext

theorem head_eq_null_iff (h : DoublyLinked next prev null head tail l) : head = null ↔ l = [] := by
  cases l with
  | nil => simp [h.head_eq]
  | cons x xs =>
      have hx := h.ne_null x List.mem_cons_self
      simp [h.head_eq, hx]

theorem tail_append {t : α} (h : DoublyLinked next prev null head tail (l ++ [t])) : tail = t := by
  rw [h.tail_eq]
  simp

/-- 並びの要素の外で関数が変わっても、並びは変わらない。 -/
theorem congr (h : DoublyLinked next prev null head tail l) (hn : ∀ x ∈ l, next' x = next x)
    (hp : ∀ x ∈ l, prev' x = prev x) : DoublyLinked next' prev' null head tail l where
  nodup := h.nodup
  ne_null := h.ne_null
  head_eq := h.head_eq
  tail_eq := h.tail_eq
  links := by
    refine h.links.imp_of_mem_imp ?_
    intro a b ha hb hab
    rw [hn a ha, hp b hb]
    exact hab
  first := by
    intro x hx
    rw [hp x (List.mem_of_mem_head? hx)]
    exact h.first x hx
  last := by
    intro x hx
    rw [hn x (List.mem_of_mem_getLast? hx)]
    exact h.last x hx

/-- 末尾 `z` の次に `t` をつなぐ。 -/
theorem snoc {z t : α} (h : DoublyLinked next prev null head tail (l ++ [z])) (ht : t ≠ null)
    (hfresh : t ∉ l ++ [z]) (hz : next' z = t) (hn : ∀ x ∈ l, next' x = next x) (hnt : next' t = null)
    (hp : ∀ x ∈ l ++ [z], prev' x = prev x) (hpt : prev' t = z) :
    DoublyLinked next' prev' null head t (l ++ [z] ++ [t]) where
  nodup := by
    refine List.nodup_append.2 ⟨h.nodup, by simp, ?_⟩
    intro a ha b hb hab
    rw [hab, List.mem_singleton.1 hb] at ha
    exact hfresh ha
  ne_null := by
    intro x hx
    rcases List.mem_append.1 hx with hx | hx
    · exact h.ne_null x hx
    · rw [List.mem_singleton.1 hx]
      exact ht
  head_eq := by
    rw [h.head_eq]
    cases l <;> rfl
  tail_eq := by simp
  links := by
    refine List.isChain_append.2 ⟨?_, .singleton t, ?_⟩
    · -- `z` は `null` へ続くので、並びの中のどの要素の手前でもない。
      have hzn : next z = null := h.last z (by simp)
      refine h.links.imp_of_mem_imp ?_
      intro a b ha hb hab
      have hne : a ≠ z := by
        intro he
        exact h.ne_null b hb (by rw [← hab.1, he, hzn])
      have hal : a ∈ l := by simpa [hne] using ha
      rw [hn a hal, hp b hb]
      exact hab
    · intro x hx y hy
      have hx' : x = z := by simpa using hx.symm
      have hy' : y = t := by simpa using hy.symm
      rw [hx', hy']
      exact ⟨hz, hpt⟩
  first := by
    intro x hx
    have hx' : x ∈ (l ++ [z]).head? := by
      cases l with
      | nil => simpa using hx
      | cons y ys => simpa using hx
    rw [hp x (List.mem_of_mem_head? hx')]
    exact h.first x hx'
  last := by
    intro x hx
    have hx' : x = t := by simpa using hx.symm
    rw [hx']
    exact hnt

/-- 末尾の要素を外すと、その手前の `z` が末尾になる。 -/
theorem dropLast {z t : α} (h : DoublyLinked next prev null head tail (l ++ [z] ++ [t])) (hz : next' z = null)
    (hn : ∀ x ∈ l, next' x = next x) (hp : ∀ x ∈ l ++ [z], prev' x = prev x) :
    DoublyLinked next' prev' null head z (l ++ [z]) where
  nodup := h.nodup.sublist (List.sublist_append_left _ _)
  ne_null := fun x hx => h.ne_null x (List.mem_append_left _ hx)
  head_eq := by
    rw [h.head_eq]
    cases l <;> rfl
  tail_eq := by simp
  links := by
    have hsplit := List.isChain_append.1 h.links
    have hzt : next z = t := (hsplit.2.2 z (by simp) t (by simp)).1
    refine hsplit.1.imp_of_mem_imp ?_
    intro a b ha hb hab
    have hne : a ≠ z := by
      intro he
      have hbt : b = t := by rw [← hab.1, he, hzt]
      exact (List.nodup_append.1 h.nodup).2.2 b hb t (by simp) hbt
    have hal : a ∈ l := by simpa [hne] using ha
    rw [hn a hal, hp b hb]
    exact hab
  first := by
    intro x hx
    have hx' : x ∈ (l ++ [z] ++ [t]).head? := by
      cases l with
      | nil => simpa using hx
      | cons y ys => simpa using hx
    rw [hp x (List.mem_of_mem_head? hx)]
    exact h.first x hx'
  last := by
    intro x hx
    have hx' : x = z := by simpa using hx.symm
    rw [hx']
    exact hz

/-- 並びの要素の次は、並びの要素か `null` である。 -/
theorem next_mem {x : α} (h : DoublyLinked next prev null head tail l) (hx : x ∈ l) :
    next x = null ∨ next x ∈ l := by
  obtain ⟨xs, ys, hl⟩ := List.append_of_mem hx
  subst hl
  cases ys with
  | nil => exact .inl (h.last x (by simp))
  | cons y ys =>
      have hxy := (List.isChain_append_cons_cons.1 h.links).2.1
      exact .inr (by simp [hxy.1])

/-- 二番目より後の要素の `prev` は、一つ前の要素である。 -/
theorem prev_eq {x y : α} {xs ys : List α} (h : DoublyLinked next prev null head tail (xs ++ x :: y :: ys)) :
    prev y = x :=
  (List.isChain_append_cons_cons.1 h.links).2.1.2

/-- 並びのどの要素から始めても、後ろの要素、先頭からの要素、自分の順に一巡する。 -/
theorem cyclic [DecidableEq α] {x : α} {xs ys : List α} (h : DoublyLinked next prev null head tail (xs ++ x :: ys)) :
    (x :: (ys ++ xs ++ [x])).IsChain fun a b => cyclicNext next null head a = b := by
  have hsplit : xs ++ x :: ys = xs ++ [x] ++ ys := by simp
  have hstep : ∀ a b, b ∈ xs ++ x :: ys → next a = b → cyclicNext next null head a = b := by
    intro a b hb hab
    rw [cyclicNext, if_neg (hab ▸ h.ne_null b hb), hab]
  have hback : (x :: ys).IsChain fun a b => cyclicNext next null head a = b := by
    refine (List.isChain_append.1 h.links).2.1.imp_of_mem_imp ?_
    intro a b _ hb hab
    exact hstep a b (List.mem_append_right xs hb) hab.1
  have hfront : (xs ++ [x]).IsChain fun a b => cyclicNext next null head a = b := by
    refine (List.isChain_append.1 (hsplit ▸ h.links)).1.imp_of_mem_imp ?_
    intro a b _ hb hab
    exact hstep a b (hsplit ▸ List.mem_append_left ys hb) hab.1
  rw [List.append_assoc, ← List.cons_append]
  refine List.isChain_append.2 ⟨hback, hfront, ?_⟩
  -- 末尾の `next` は `null` なので、先頭に戻る。
  intro a ha b hb
  have hlast : next a = null := h.last a (by rw [List.getLast?_append, ha]; rfl)
  have hhead : head = b := by
    rw [h.head_eq, List.headD_eq_head?_getD, hsplit, List.head?_append, hb]
    rfl
  rw [cyclicNext, if_pos hlast, hhead]

end DoublyLinked

end Machine
