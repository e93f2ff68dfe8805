import Mathlib.Data.List.Basic
import Mathlib.Data.List.TakeWhile

/-!
# 区切りで分けた並び

区切りで分けた並びの、空でない部分のすべてを `words`、最初の空の部分より手前を `leading` とする。二つが一致する条件と、
続く区切りを一つにまとめたときの変化、区切りでつないだ並びを分けると元に戻ることを示す。
-/

namespace Segments

variable {α : Type*} {p : α → Bool} {c d : α} {l w rest : List α}

/-- 区切りを含まない、極大の部分の並び。 -/
def words (p : α → Bool) (l : List α) : List (List α) := (l.splitOnP p).filter (· ≠ [])

/-- 最初の空の部分より手前の並び。 -/
def leading (p : α → Bool) (l : List α) : List (List α) := (l.splitOnP p).takeWhile (· ≠ [])

/-- 続く区切りを一つにまとめる。 -/
def collapse (p : α → Bool) : List α → List α
  | [] => []
  | c :: l => if p c ∧ l.head?.any p then collapse p l else c :: collapse p l

/-- 区切りが二つ続けば、その後には区切りしかない。 -/
def Gapless (p : α → Bool) (l : List α) : Prop :=
  ∀ c d rest, (c :: d :: rest) <:+ l → p c → p d → ∀ x ∈ rest, p x

/-! ## 先頭の部分 -/

theorem splitOnP_sep (hc : p c) : (c :: l).splitOnP p = [] :: l.splitOnP p :=
  List.splitOnP_append_cons_of_forall_mem (show ∀ x ∈ ([] : List α), p x = false by simp) c hc l

@[simp] theorem words_nil : words p [] = [] := rfl

@[simp] theorem leading_nil : leading p [] = [] := rfl

theorem words_sep (hc : p c) : words p (c :: l) = words p l := by
  rw [words, splitOnP_sep hc, List.filter_cons_of_neg (by simp)]
  rfl

theorem words_skip (hw : ∀ c ∈ w, p c) : words p (w ++ l) = words p l := by
  induction w with
  | nil => rfl
  | cons c w ih =>
      rw [List.cons_append, words_sep (hw c List.mem_cons_self)]
      exact ih fun x hx => hw x (List.mem_cons_of_mem _ hx)

theorem leading_sep (hc : p c) : leading p (c :: l) = [] := by
  rw [leading, splitOnP_sep hc, List.takeWhile_cons_of_neg (by simp)]

theorem words_word (hw : ∀ c ∈ w, p c = false) (hne : w ≠ []) : words p w = [w] := by
  rw [words, List.splitOnP_eq_singleton hw]
  simp [hne]

theorem leading_word (hw : ∀ c ∈ w, p c = false) (hne : w ≠ []) : leading p w = [w] := by
  rw [leading, List.splitOnP_eq_singleton hw]
  simp [hne]

theorem words_append (hw : ∀ c ∈ w, p c = false) (hne : w ≠ []) (hc : p c) :
    words p (w ++ c :: rest) = w :: words p rest := by
  rw [words, List.splitOnP_append_cons_of_forall_mem hw c hc, List.filter_cons_of_pos (by simpa using hne)]
  rfl

theorem leading_append (hw : ∀ c ∈ w, p c = false) (hne : w ≠ []) (hc : p c) :
    leading p (w ++ c :: rest) = w :: leading p rest := by
  rw [leading, List.splitOnP_append_cons_of_forall_mem hw c hc, List.takeWhile_cons_of_pos (by simpa using hne)]
  rfl

/-- 先頭の部分と、その後の区切りで分ける。 -/
theorem split_cases (p : α → Bool) (l : List α) :
    (∀ c ∈ l, p c = false) ∨ ∃ w c rest, l = w ++ c :: rest ∧ (∀ c ∈ w, p c = false) ∧ p c := by
  have hword : ∀ c ∈ l.takeWhile (!p ·), p c = false := fun c hc => by simpa using List.mem_takeWhile_imp hc
  have happend := List.takeWhile_append_dropWhile (p := (!p ·)) (l := l)
  cases hdrop : l.dropWhile (!p ·) with
  | nil =>
      left
      rw [hdrop, List.append_nil] at happend
      rwa [happend] at hword
  | cons c rest =>
      right
      have hc := List.dropWhile_get_zero_not (!p ·) l (by rw [hdrop]; simp)
      simp only [hdrop, List.get_eq_getElem, List.getElem_cons_zero, Bool.not_eq_true', Bool.not_eq_false] at hc
      exact ⟨_, c, rest, by rw [← hdrop, happend], hword, hc⟩

theorem leading_takeWhile (p : α → Bool) (l : List α) : leading p l =
    if l.takeWhile (!p ·) = [] then []
    else l.takeWhile (!p ·) :: leading p (l.drop ((l.takeWhile (!p ·)).length + 1)) := by
  rcases split_cases p l with hl | ⟨w, c, rest, rfl, hw, hc⟩
  · have htake : l.takeWhile (!p ·) = l := List.takeWhile_eq_self_iff.2 fun c hc => by simp [hl c hc]
    rw [htake, List.drop_eq_nil_of_le (Nat.le_succ _)]
    split
    · rename_i hnil
      rw [hnil, leading_nil]
    · rename_i hne
      rw [leading_word hl hne, leading_nil]
  · have htake : (w ++ c :: rest).takeWhile (!p ·) = w := by
      rw [List.takeWhile_append_of_pos fun x hx => by simp [hw x hx], List.takeWhile_cons_of_neg (by simp [hc]),
        List.append_nil]
    rw [htake]
    split
    · rename_i hnil
      rw [hnil, List.nil_append, leading_sep hc]
    · rename_i hne
      rw [leading_append hw hne hc, ← List.drop_drop, List.drop_left]
      rfl

/-- 部分の並びについての帰納法。先頭が区切りか、区切りのない部分か、部分と区切りの後に残りが続くかで分ける。 -/
theorem segments_induction {motive : List α → Prop} (sep : ∀ c l, p c → motive l → motive (c :: l))
    (word : ∀ w, (∀ c ∈ w, p c = false) → motive w)
    (append : ∀ w c l, (∀ c ∈ w, p c = false) → w ≠ [] → p c → motive l → motive (w ++ c :: l)) (l : List α) :
    motive l := by
  induction hn : l.length using Nat.strong_induction_on generalizing l with
  | _ n ih =>
      rcases split_cases p l with hl | ⟨w, c, rest, rfl, hw, hc⟩
      · exact word l hl
      · have hrest := ih rest.length (by simp at hn; omega) rest rfl
        cases w with
        | nil => exact sep c rest hc hrest
        | cons x w => exact append (x :: w) c rest hw (by simp) hc hrest

theorem words_eq_nil : words p l = [] ↔ ∀ c ∈ l, p c := by
  induction l using segments_induction (p := p) with
  | sep c l hc ih =>
      rw [words_sep hc, ih]
      simp [hc]
  | word w hw =>
      cases w with
      | nil => simp
      | cons c w =>
          rw [words_word hw (by simp)]
          simp [hw c List.mem_cons_self]
  | append w c l hw hne hc ih =>
      rw [words_append hw hne hc]
      obtain ⟨x, w, rfl⟩ := List.exists_cons_of_ne_nil hne
      simp [hw x List.mem_cons_self]

theorem length_words_le (p : α → Bool) (l : List α) : (words p l).length ≤ l.length := by
  induction l using segments_induction (p := p) with
  | sep c l hc ih =>
      rw [words_sep hc, List.length_cons]
      omega
  | word w hw =>
      cases w with
      | nil => exact Nat.le_refl 0
      | cons c w =>
          rw [words_word hw (by simp)]
          simp
  | append w c l hw hne hc ih =>
      rw [words_append hw hne hc, List.length_cons, List.length_append, List.length_cons]
      omega

theorem length_leading_le (p : α → Bool) (l : List α) : (leading p l).length ≤ l.length := by
  induction l using segments_induction (p := p) with
  | sep c l hc ih => simp [leading_sep hc]
  | word w hw =>
      cases w with
      | nil => exact Nat.le_refl 0
      | cons c w =>
          rw [leading_word hw (by simp)]
          simp
  | append w c l hw hne hc ih =>
      rw [leading_append hw hne hc, List.length_cons, List.length_append, List.length_cons]
      omega

/-! ## 空の部分の後 -/

theorem gapless_cons_cons : Gapless p (c :: d :: l) ↔ (p c → p d → ∀ x ∈ l, p x) ∧ Gapless p (d :: l) := by
  constructor
  · intro h
    exact ⟨h c d l List.suffix_rfl, fun c' d' rest hsuffix => h c' d' rest (List.suffix_cons_iff.2 (.inr hsuffix))⟩
  · rintro ⟨hhead, htail⟩ c' d' rest hsuffix
    rcases List.suffix_cons_iff.1 hsuffix with heq | hsuffix
    · cases heq
      exact hhead
    · exact htail c' d' rest hsuffix

theorem gapless_singleton (c : α) : Gapless p [c] := by
  intro c' d' rest hsuffix
  have hlen := hsuffix.length_le
  simp at hlen

theorem gapless_word_append (hw : ∀ c ∈ w, p c = false) (hne : w ≠ []) (c : α) :
    Gapless p (c :: (w ++ d :: l)) ↔ Gapless p (d :: l) := by
  induction w generalizing c with
  | nil => exact absurd rfl hne
  | cons x w ih =>
      have hx := hw x List.mem_cons_self
      rw [List.cons_append, gapless_cons_cons]
      cases w with
      | nil =>
          rw [List.nil_append, gapless_cons_cons]
          simp [hx]
      | cons y w =>
          rw [ih (fun c hc => hw c (List.mem_cons_of_mem _ hc)) (by simp) x]
          simp [hx]

theorem gapless_word (hw : ∀ c ∈ w, p c = false) (c : α) : Gapless p (c :: w) := by
  induction w generalizing c with
  | nil => exact gapless_singleton c
  | cons x w ih =>
      refine gapless_cons_cons.2 ⟨fun _ hx => ?_, ih (fun c hc => hw c (List.mem_cons_of_mem _ hc)) x⟩
      rw [hw x List.mem_cons_self] at hx
      cases hx

/-- 空の部分の後に落ちるものがないのは、区切りに続く並びで、二つ続いた区切りの後に区切りしかないときである。 -/
theorem leading_eq_words_iff (hc : p c) : leading p l = words p l ↔ Gapless p (c :: l) := by
  induction l using segments_induction (p := p) generalizing c with
  | sep d l hd ih =>
      rw [leading_sep hd, words_sep hd, eq_comm, words_eq_nil, gapless_cons_cons]
      refine ⟨fun h => ⟨fun _ _ => h, ?_⟩, fun h => h.1 hc hd⟩
      intro c' d' rest hsuffix _ _ x hx
      rcases List.suffix_cons_iff.1 hsuffix with heq | hsuffix
      · cases heq
        exact h x (List.mem_cons_of_mem _ hx)
      · exact h x (hsuffix.subset (List.mem_cons_of_mem _ (List.mem_cons_of_mem _ hx)))
  | word w hw =>
      refine iff_of_true ?_ (gapless_word hw c)
      cases w with
      | nil => rfl
      | cons x w => rw [leading_word hw (by simp), words_word hw (by simp)]
  | append w d l hw hne hd ih =>
      rw [leading_append hw hne hd, words_append hw hne hd, gapless_word_append hw hne, ← ih hd, List.cons_eq_cons]
      simp

/-! ## 続く区切りをまとめる -/

theorem collapse_word_append (hw : ∀ c ∈ w, p c = false) (l : List α) : collapse p (w ++ l) = w ++ collapse p l := by
  induction w with
  | nil => rfl
  | cons x w ih =>
      rw [List.cons_append, collapse, if_neg (by simp [hw x List.mem_cons_self]),
        ih fun c hc => hw c (List.mem_cons_of_mem _ hc)]
      rfl

theorem collapse_word (hw : ∀ c ∈ w, p c = false) : collapse p w = w := by
  have happend := collapse_word_append hw []
  rwa [List.append_nil, collapse, List.append_nil] at happend

theorem collapse_cons_of_head (c : α) (hl : ¬l.head?.any p) : collapse p (c :: l) = c :: collapse p l := by
  rw [collapse, if_neg fun h => hl h.2]

theorem length_collapse_le (p : α → Bool) (l : List α) : (collapse p l).length ≤ l.length := by
  induction l with
  | nil => exact Nat.le_refl 0
  | cons c l ih =>
      rw [collapse, List.length_cons]
      split
      · omega
      · rw [List.length_cons]
        omega

/-- まとめた後は、空の部分が手前に残らず、元の空でない部分がすべて読める。 -/
theorem leading_collapse (hc : p c) :
    ∃ d l', collapse p (c :: l) = d :: l' ∧ p d ∧ leading p l' = words p l := by
  induction l using segments_induction (p := p) generalizing c with
  | sep d l hd ih =>
      obtain ⟨d', l', heq, hd', hl'⟩ := ih hd
      refine ⟨d', l', ?_, hd', by rw [hl', words_sep hd]⟩
      rw [collapse, if_pos ⟨hc, by simpa using hd⟩, heq]
  | word w hw =>
      refine ⟨c, w, ?_, hc, (leading_eq_words_iff hc).2 (gapless_word hw c)⟩
      cases w with
      | nil => rw [collapse_cons_of_head c (by simp), collapse]
      | cons x w => rw [collapse_cons_of_head c (by simp [hw x List.mem_cons_self]), collapse_word hw]
  | append w d l hw hne hd ih =>
      obtain ⟨d', l', heq, hd', hl'⟩ := ih hd
      refine ⟨c, w ++ d' :: l', ?_, hc, by rw [leading_append hw hne hd', words_append hw hne hd, hl']⟩
      obtain ⟨x, w, rfl⟩ := List.exists_cons_of_ne_nil hne
      rw [collapse_cons_of_head c (by simp [hw x List.mem_cons_self]), collapse_word_append hw, heq]

/-! ## つないだ並び -/

theorem leading_intercalate {ws : List (List α)} (hws : ∀ w ∈ ws, w ≠ [] ∧ ∀ x ∈ w, p x = false) (hc : p c) :
    leading p ([c].intercalate ws) = ws := by
  induction ws with
  | nil => rfl
  | cons w ws ih =>
      obtain ⟨hne, hw⟩ := hws w List.mem_cons_self
      cases ws with
      | nil => rw [List.intercalate_singleton, leading_word hw hne]
      | cons w' ws =>
          rw [List.intercalate_cons_cons, List.append_assoc, List.singleton_append, leading_append hw hne hc,
            ih fun w hw => hws w (List.mem_cons_of_mem _ hw)]

theorem leading_intercalate_append {ws : List (List α)} (hws : ∀ w ∈ ws, w ≠ [] ∧ ∀ x ∈ w, p x = false) (hc : p c) :
    leading p ([c].intercalate ws ++ [c]) = ws := by
  induction ws with
  | nil => exact leading_sep hc
  | cons w ws ih =>
      obtain ⟨hne, hw⟩ := hws w List.mem_cons_self
      cases ws with
      | nil => rw [List.intercalate_singleton, leading_append hw hne hc, leading_nil]
      | cons w' ws =>
          rw [List.intercalate_cons_cons, List.append_assoc, List.append_assoc, List.singleton_append,
            leading_append hw hne hc, ih fun w hw => hws w (List.mem_cons_of_mem _ hw)]

/-! ## 部分の位置 -/

/-- `l` の `i` 番目から、区切りを含まない極大の部分 `w` がある。 -/
def Maximal (p : α → Bool) (l : List α) (i : Nat) (w : List α) : Prop :=
  ∃ a b, l = a ++ w ++ b ∧ a.length = i ∧ w ≠ [] ∧ (∀ c ∈ w, p c = false) ∧ (∀ c ∈ a.getLast?, p c) ∧ ∀ c ∈ b.head?, p c

theorem not_maximal_nil {i : Nat} : ¬Maximal p [] i w := by
  rintro ⟨a, b, hl, -, hne, -⟩
  simp_all

theorem maximal_sep {i : Nat} (hc : p c) : Maximal p (c :: l) i w ↔ ∃ j, i = j + 1 ∧ Maximal p l j w := by
  constructor
  · rintro ⟨a, b, hl, rfl, hne, hw, ha, hb⟩
    cases a with
    | nil =>
        obtain ⟨x, w, rfl⟩ := List.exists_cons_of_ne_nil hne
        cases hl
        have hx := hw c List.mem_cons_self
        rw [hc] at hx
        cases hx
    | cons x a =>
        cases hl
        refine ⟨a.length, rfl, a, b, rfl, rfl, hne, hw, ?_, hb⟩
        intro y hy
        cases a with
        | nil => cases hy
        | cons z a => exact ha y (by rwa [List.getLast?_cons_cons])
  · rintro ⟨j, rfl, a, b, rfl, rfl, hne, hw, ha, hb⟩
    refine ⟨c :: a, b, rfl, rfl, hne, hw, ?_, hb⟩
    intro y hy
    cases a with
    | nil =>
        cases hy
        exact hc
    | cons z a => exact ha y (by rwa [List.getLast?_cons_cons] at hy)

theorem takeWhile_word (hw : ∀ c ∈ w, p c = false) (hrest : ∀ c ∈ rest.head?, p c) : (w ++ rest).takeWhile (!p ·) = w := by
  rw [List.takeWhile_append_of_pos fun x hx => by simp [hw x hx]]
  cases rest with
  | nil => rw [List.takeWhile_nil, List.append_nil]
  | cons c rest => rw [List.takeWhile_cons_of_neg (by simp [hrest c rfl]), List.append_nil]

/-- 先頭の部分の他の極大の部分は、先頭の部分の後にある。 -/
theorem word_of_boundary {v a b : List α} (hw : ∀ c ∈ w, p c = false) (hrest : ∀ c ∈ rest.head?, p c)
    (hv : ∀ c ∈ v, p c = false) (ha : ∀ c ∈ a.getLast?, p c) (hb : ∀ c ∈ b.head?, p c) (h : w ++ rest = a ++ (v ++ b)) :
    (a = [] ∧ v = w ∧ b = rest) ∨ ∃ a', a = w ++ a' ∧ a' ≠ [] ∧ rest = a' ++ (v ++ b) := by
  by_cases hnil : a = []
  · subst hnil
    rw [List.nil_append] at h
    have hsame : v = w := by rw [← takeWhile_word hv hb, ← h, takeWhile_word hw hrest]
    subst hsame
    exact .inl ⟨rfl, rfl, (List.append_cancel_left h).symm⟩
  · right
    -- `a` の最後は区切りなので、`a` は先頭の部分の中では終わらない。
    have hlast : a.getLast hnil ∉ w := by
      intro hmem
      have hsep := ha _ (List.getLast?_eq_some_getLast hnil)
      rw [hw _ hmem] at hsep
      cases hsep
    rcases List.append_eq_append_iff.1 h with ⟨a', ha', hrest'⟩ | ⟨w', hw', -⟩
    · refine ⟨a', ha', ?_, hrest'⟩
      rintro rfl
      rw [List.append_nil] at ha'
      subst ha'
      exact hlast (List.getLast_mem hnil)
    · exact absurd (hw' ▸ List.mem_append_left _ (List.getLast_mem hnil)) hlast

theorem maximal_word {i : Nat} {v : List α} (hw : ∀ c ∈ w, p c = false) (hne : w ≠ []) : Maximal p w i v ↔ i = 0 ∧ v = w := by
  constructor
  · rintro ⟨a, b, hl, rfl, hne', hv, ha, hb⟩
    rw [List.append_assoc, ← List.append_nil w] at hl
    rcases word_of_boundary hw (by simp) hv ha hb hl with ⟨rfl, rfl, -⟩ | ⟨a', -, -, hrest⟩
    · exact ⟨rfl, rfl⟩
    · simp_all
  · rintro ⟨rfl, rfl⟩
    exact ⟨[], [], by simp, rfl, hne, hw, by simp, by simp⟩

theorem maximal_append {i : Nat} {v : List α} (hw : ∀ c ∈ w, p c = false) (hne : w ≠ []) (hc : p c) :
    Maximal p (w ++ c :: rest) i v ↔ (i = 0 ∧ v = w) ∨ ∃ j, i = w.length + 1 + j ∧ Maximal p rest j v := by
  have hhead : ∀ x ∈ (c :: rest).head?, p x := by simpa using hc
  constructor
  · rintro ⟨a, b, hl, rfl, hne', hv, ha, hb⟩
    rw [List.append_assoc] at hl
    rcases word_of_boundary hw hhead hv ha hb hl with ⟨rfl, rfl, -⟩ | ⟨a', rfl, hne'', hrest⟩
    · exact .inl ⟨rfl, rfl⟩
    · right
      have htail : Maximal p (c :: rest) a'.length v := by
        refine ⟨a', b, by rw [hrest, List.append_assoc], rfl, hne', hv, ?_, hb⟩
        rwa [List.getLast?_append_of_ne_nil _ hne''] at ha
      obtain ⟨j, hj, hmax⟩ := (maximal_sep hc).1 htail
      exact ⟨j, by rw [List.length_append, hj]; omega, hmax⟩
  · rintro (⟨rfl, rfl⟩ | ⟨j, rfl, hmax⟩)
    · exact ⟨[], c :: rest, rfl, rfl, hne, hw, by simp, hhead⟩
    · obtain ⟨a, b, hl, ha, hne', hv, hlast, hb⟩ := (maximal_sep (l := rest) hc).2 ⟨j, rfl, hmax⟩
      refine ⟨w ++ a, b, by rw [hl]; simp, by rw [List.length_append, ha]; omega, hne', hv, ?_, hb⟩
      have hne'' : a ≠ [] := by
        rintro rfl
        cases ha
      rwa [List.getLast?_append_of_ne_nil _ hne'']

/-- `ts` は、位置に `k` を足した、極大の部分のすべてを、先頭からの順に並べたものである。 -/
structure Located (p : α → Bool) (k : Nat) (l : List α) (ts : List (Nat × List α)) : Prop where
  sorted : ts.Pairwise fun s t => s.1 < t.1
  mem_iff : ∀ i w, (i, w) ∈ ts ↔ ∃ j, i = k + j ∧ Maximal p l j w
  words_eq : ts.map Prod.snd = words p l

variable {k : Nat} {ts : List (Nat × List α)}

theorem located_nil : Located p k [] [] := by
  refine ⟨.nil, ?_, rfl⟩
  intro i w
  refine iff_of_false List.not_mem_nil ?_
  rintro ⟨j, -, hmax⟩
  exact not_maximal_nil hmax

theorem Located.sep (h : Located p (k + 1) l ts) (hc : p c) : Located p k (c :: l) ts := by
  refine ⟨h.sorted, ?_, h.words_eq.trans (words_sep hc).symm⟩
  intro i w
  rw [h.mem_iff]
  simp only [maximal_sep hc]
  constructor
  · rintro ⟨j, rfl, hmax⟩
    exact ⟨j + 1, by omega, j, rfl, hmax⟩
  · rintro ⟨_, rfl, j, rfl, hmax⟩
    exact ⟨j, by omega, hmax⟩

theorem Located.skip (h : Located p (k + w.length) l ts) (hw : ∀ c ∈ w, p c) : Located p k (w ++ l) ts := by
  induction w generalizing k with
  | nil => exact h
  | cons c w ih =>
      refine Located.sep (ih ?_ fun x hx => hw x (List.mem_cons_of_mem _ hx)) (hw c List.mem_cons_self)
      rwa [Nat.add_assoc, Nat.add_comm 1, ← List.length_cons (a := c)]

theorem located_word (k : Nat) (hw : ∀ c ∈ w, p c = false) (hne : w ≠ []) : Located p k w [(k, w)] := by
  refine ⟨List.pairwise_singleton _ _, ?_, (words_word hw hne).symm⟩
  intro i v
  simp only [maximal_word hw hne, List.mem_singleton, Prod.mk.injEq]
  constructor
  · rintro ⟨rfl, rfl⟩
    exact ⟨0, rfl, rfl, rfl⟩
  · rintro ⟨_, rfl, rfl, rfl⟩
    exact ⟨rfl, rfl⟩

theorem Located.append (h : Located p (k + w.length + 1) rest ts) (hw : ∀ c ∈ w, p c = false) (hne : w ≠ []) (hc : p c) :
    Located p k (w ++ c :: rest) ((k, w) :: ts) := by
  refine ⟨List.pairwise_cons.2 ⟨?_, h.sorted⟩, ?_, ?_⟩
  · rintro ⟨i, v⟩ hmem
    obtain ⟨j, rfl, -⟩ := (h.mem_iff i v).1 hmem
    show k < k + w.length + 1 + j
    omega
  · intro i v
    simp only [List.mem_cons, h.mem_iff, maximal_append hw hne hc, Prod.mk.injEq]
    constructor
    · rintro (⟨rfl, rfl⟩ | ⟨j, rfl, hmax⟩)
      · exact ⟨0, rfl, .inl ⟨rfl, rfl⟩⟩
      · exact ⟨w.length + 1 + j, by omega, .inr ⟨j, rfl, hmax⟩⟩
    · rintro ⟨_, rfl, ⟨rfl, rfl⟩ | ⟨j, rfl, hmax⟩⟩
      · exact .inl ⟨rfl, rfl⟩
      · exact .inr ⟨j, by omega, hmax⟩
  · rw [List.map_cons, h.words_eq, words_append hw hne hc]

/-- 先頭の部分は、手前の区切りのすぐ後にある。 -/
theorem Located.head {ds v : List α} {i : Nat} (h : Located p k (ds ++ c :: l) ((i, v) :: ts)) (hds : ∀ x ∈ ds, p x)
    (hc : p c = false) : i = k + ds.length := by
  have hfirst : Maximal p (ds ++ c :: l) ds.length ((c :: l).takeWhile (!p ·)) := by
    refine ⟨ds, (c :: l).dropWhile (!p ·), by rw [List.append_assoc, List.takeWhile_append_dropWhile], rfl, ?_, ?_, ?_, ?_⟩
    · rw [List.takeWhile_cons_of_pos (by simp [hc])]
      exact List.cons_ne_nil _ _
    · intro x hx
      simpa using List.mem_takeWhile_imp hx
    · intro x hx
      exact hds x (List.mem_of_getLast? hx)
    · intro x hx
      have hnot := List.head?_dropWhile_not (!p ·) (c :: l)
      rw [Option.mem_def.1 hx] at hnot
      simpa using hnot
  obtain ⟨j, rfl, a, b, hl, rfl, hne, hv, -, -⟩ := (h.mem_iff i v).1 List.mem_cons_self
  -- 手前の区切りの中からは始まらない。
  have hle : ds.length ≤ a.length := by
    by_contra hlt
    obtain ⟨x, v, rfl⟩ := List.exists_cons_of_ne_nil hne
    have hx : (ds ++ c :: l)[a.length]? = some x := by rw [hl]; simp
    rw [List.getElem?_append_left (by omega)] at hx
    have hsep := hds x (List.mem_of_getElem? hx)
    rw [hv x List.mem_cons_self] at hsep
    cases hsep
  have hmem : (k + ds.length, (c :: l).takeWhile (!p ·)) ∈ (k + a.length, v) :: ts := (h.mem_iff _ _).2 ⟨_, rfl, hfirst⟩
  rcases List.mem_cons.1 hmem with heq | hmem
  · exact (congrArg Prod.fst heq).symm
  · have hlt : k + a.length < k + ds.length := List.rel_of_pairwise_cons h.sorted hmem
    omega

end Segments
