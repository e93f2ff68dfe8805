import Mathlib.Tactic.Common

/-!
# 重ならない区間の配置

`[0, n)` の中の、互いに重ならない空でない区間の並びを扱う。各位置の値は、その位置を覆う区間から決まる
（`Layout.encode`）。区間の追加と削除で、この値がどう変わるかを示す。
-/

namespace Extents

/-- 空でない区間 `[first, first + count)`。 -/
@[ext] structure Extent where
  first : Nat
  count : Nat
  pos : 0 < count
  deriving DecidableEq

namespace Extent

def Covers (e : Extent) (i : Nat) : Prop := e.first ≤ i ∧ i < e.first + e.count

instance (e : Extent) (i : Nat) : Decidable (e.Covers i) := inferInstanceAs (Decidable (_ ∧ _))

def Apart (e f : Extent) : Prop := e.first + e.count ≤ f.first ∨ f.first + f.count ≤ e.first

theorem Apart.symm {e f : Extent} (h : e.Apart f) : f.Apart e := h.elim Or.inr Or.inl

theorem Apart.not_covers {e f : Extent} (h : e.Apart f) {i : Nat} (hi : e.Covers i) : ¬ f.Covers i := by
  intro hf
  simp only [Covers] at hi hf
  rcases h with h | h <;> omega

/-- 区間が離れていないなら、二つの区間の共通の位置がある。 -/
theorem apart_of_not_covers {e f : Extent} (h : ∀ i, e.Covers i → ¬ f.Covers i) : e.Apart f := by
  have he := e.pos
  have hf := f.pos
  by_contra hn
  simp only [Apart, not_or, Nat.not_le] at hn
  rcases Nat.le_total e.first f.first with hle | hle
  · exact h f.first ⟨hle, by omega⟩ ⟨Nat.le_refl _, by omega⟩
  · exact h e.first ⟨Nat.le_refl _, by omega⟩ ⟨hle, by omega⟩

end Extent

/-- 互いに離れた、`[0, n)` の中の区間の並び。 -/
structure Layout (n : Nat) where
  extents : List Extent
  inside : ∀ e ∈ extents, e.first + e.count ≤ n
  apart : extents.Pairwise Extent.Apart

namespace Layout

variable {n : Nat} {α : Type}

def empty (n : Nat) : Layout n := ⟨[], by simp, .nil⟩

/-- 区間 `e` の位置がどれも使われていない。 -/
def Vacant (l : Layout n) (e : Extent) : Prop := ∀ f ∈ l.extents, ∀ i, e.Covers i → ¬ f.Covers i

def add (l : Layout n) (e : Extent) (hin : e.first + e.count ≤ n) (hv : l.Vacant e) : Layout n where
  extents := e :: l.extents
  inside := by
    intro f hf
    rcases List.mem_cons.mp hf with rfl | hf
    · exact hin
    · exact l.inside f hf
  apart := .cons (fun f hf => Extent.apart_of_not_covers (hv f hf)) l.apart

def remove (l : Layout n) (k : Nat) : Layout n where
  extents := l.extents.eraseIdx k
  inside := fun e he => l.inside e (List.mem_of_mem_eraseIdx he)
  apart := l.apart.sublist (List.eraseIdx_sublist _ _)

/-- 位置 `i` の値。覆う区間があれば `code` で、なければ `blank` とする。 -/
def encode (code : Extent → Nat → α) (blank : α) (l : Layout n) (i : Nat) : α :=
  match l.extents.find? (fun e => e.Covers i) with
  | some e => code e i
  | none => blank

variable {code : Extent → Nat → α} {blank : α} {l : Layout n} {i : Nat}

theorem apart_getElem (l : Layout n) {a b : Nat} (ha : a < l.extents.length) (hb : b < l.extents.length)
    (hab : a ≠ b) : l.extents[a].Apart l.extents[b] := by
  rcases Nat.lt_or_gt_of_ne hab with h | h
  · exact List.pairwise_iff_getElem.mp l.apart a b ha hb h
  · exact (List.pairwise_iff_getElem.mp l.apart b a hb ha h).symm

@[simp] theorem encode_empty : (empty n).encode code blank i = blank := rfl

theorem encode_of_not_covers (h : ∀ e ∈ l.extents, ¬ e.Covers i) : l.encode code blank i = blank := by
  unfold encode
  rw [List.find?_eq_none.mpr (by simpa using h)]

/-- 覆う区間はただ一つなので、並びの順によらずその区間の値になる。 -/
theorem encode_of_covers {e : Extent} (he : e ∈ l.extents) (hi : e.Covers i) :
    l.encode code blank i = code e i := by
  unfold encode
  cases hf : l.extents.find? (fun e => e.Covers i) with
  | none => exact absurd hi (by simpa using List.find?_eq_none.mp hf e he)
  | some f =>
      have hfm := List.mem_of_find?_eq_some hf
      have hfc : f.Covers i := by simpa using List.find?_some hf
      obtain ⟨a, ha, rfl⟩ := List.mem_iff_getElem.mp he
      obtain ⟨b, hb, rfl⟩ := List.mem_iff_getElem.mp hfm
      by_cases hab : a = b
      · subst hab; rfl
      · exact absurd hfc ((l.apart_getElem ha hb hab).not_covers hi)

theorem encode_add {e : Extent} (hin : e.first + e.count ≤ n) (hv : l.Vacant e) :
    (l.add e hin hv).encode code blank i = if e.Covers i then code e i else l.encode code blank i := by
  split
  · exact encode_of_covers (by simp [add]) ‹_›
  · rename_i hi
    simp [encode, add, hi]

theorem encode_remove {k : Nat} {e : Extent} (hk : l.extents[k]? = some e) :
    (l.remove k).encode code blank i = if e.Covers i then blank else l.encode code blank i := by
  obtain ⟨hlt, rfl⟩ := List.getElem?_eq_some_iff.mp hk
  by_cases hi : l.extents[k].Covers i
  · rw [if_pos hi]
    apply encode_of_not_covers
    intro f hf
    obtain ⟨j, hj, hjk, rfl⟩ := List.mem_eraseIdx_iff_getElem.mp hf
    exact (l.apart_getElem hlt hj (Ne.symm hjk)).not_covers hi
  · rw [if_neg hi]
    by_cases hc : ∃ f ∈ l.extents, f.Covers i
    · obtain ⟨f, hf, hfi⟩ := hc
      obtain ⟨j, hj, rfl⟩ := List.mem_iff_getElem.mp hf
      have hjk : j ≠ k := by rintro rfl; exact hi hfi
      rw [encode_of_covers hf hfi]
      exact encode_of_covers (List.mem_eraseIdx_iff_getElem.mpr ⟨j, hj, hjk, rfl⟩) hfi
    · have hn : ∀ f ∈ l.extents, ¬ f.Covers i := fun f hf hfi => hc ⟨f, hf, hfi⟩
      rw [encode_of_not_covers hn]
      exact encode_of_not_covers (fun f hf => hn f (List.mem_of_mem_eraseIdx hf))

end Layout

end Extents
