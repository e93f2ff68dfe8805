import EnkiOs.Libc.String

/-!
# 終端のある文字列

メモリにある文字列を、先頭から順に読むバイトの列として表す。
-/

namespace EnkiOs
open Machine

variable {tr : Translation} {mem mem' : Memory} {off off' : Word → Prop} {a p q src dst : Word} {t : List Byte} {c : Byte}

/-! ## 物理アドレスの文字列 -/

/-- アドレス `a` から `t` が並び、終端が続く。 -/
def StrAt (mem : Memory) : Word → List Byte → Prop
  | a, [] => mem a = 0
  | a, c :: t => mem a = c ∧ c ≠ 0 ∧ StrAt mem (a + 1) t

instance StrAt.decidable (mem : Memory) : (a : Word) → (t : List Byte) → Decidable (StrAt mem a t)
  | a, [] => inferInstanceAs (Decidable (mem a = 0))
  | a, c :: t =>
      have := StrAt.decidable mem (a + 1) t
      inferInstanceAs (Decidable (mem a = c ∧ c ≠ 0 ∧ StrAt mem (a + 1) t))

theorem StrAt.congr (h : StrAt mem a t) (hsame : ∀ j ≤ t.length, mem' (a + BitVec.ofNat 32 j) = mem (a + BitVec.ofNat 32 j)) :
    StrAt mem' a t := by
  induction t generalizing a with
  | nil =>
      have h0 := hsame 0 (Nat.le_refl 0)
      rw [BitVec.add_zero] at h0
      exact h0.trans h
  | cons c t ih =>
      obtain ⟨hc, hne, hrest⟩ := h
      have h0 := hsame 0 (Nat.zero_le _)
      rw [BitVec.add_zero] at h0
      refine ⟨h0.trans hc, hne, ih hrest ?_⟩
      intro j hj
      rw [add_one_add]
      exact hsame (j + 1) (Nat.succ_le_succ hj)

theorem StrAt.ne_zero (h : StrAt mem a t) : ∀ c ∈ t, c ≠ 0 := by
  induction t generalizing a with
  | nil => exact fun c hc => absurd hc List.not_mem_nil
  | cons c t ih =>
      intro x hx
      rcases List.mem_cons.1 hx with rfl | hx
      · exact h.2.1
      · exact ih h.2.2 x hx

theorem StrAt.unique {t' : List Byte} (h : StrAt mem a t) (h' : StrAt mem a t') : t = t' := by
  induction t generalizing a t' with
  | nil =>
      cases t' with
      | nil => rfl
      | cons c t' => exact absurd (h'.1.symm.trans h) h'.2.1
  | cons c t ih =>
      cases t' with
      | nil => exact absurd (h.1.symm.trans h') h.2.1
      | cons c' t' => rw [← h.1, ← h'.1, ih h.2.2 h'.2.2]

/-- 文字と終端が並んでいれば、文字列である。 -/
theorem strAt_read (hread : mem.read a t.length = t) (hend : mem (a + BitVec.ofNat 32 t.length) = 0) (hne : ∀ c ∈ t, c ≠ 0) :
    StrAt mem a t := by
  induction t generalizing a with
  | nil =>
      rw [List.length_nil, BitVec.add_zero] at hend
      exact hend
  | cons c t ih =>
      rw [List.length_cons, Memory.read_succ] at hread
      obtain ⟨hc, hread⟩ := List.cons_eq_cons.1 hread
      rw [List.length_cons, ← add_one_add] at hend
      exact ⟨hc, hne c List.mem_cons_self, ih hread hend fun x hx => hne x (List.mem_cons_of_mem _ hx)⟩

/-- 書いた文字列は、そのまま読める。 -/
theorem strAt_write (hlen : t.length < 2 ^ 32 - 1) (hne : ∀ c ∈ t, c ≠ 0) : StrAt (mem.write a (t ++ [0])) a t := by
  induction t generalizing a mem with
  | nil => exact write_one mem a 0
  | cons c t ih =>
      simp only [List.length_cons] at hlen
      rw [List.cons_append, write_cons mem a c (by simp; omega)]
      refine ⟨?_, hne c List.mem_cons_self, ih (by omega) fun x hx => hne x (List.mem_cons_of_mem _ hx)⟩
      rw [write_outside, write_one]
      intro i hi
      simp only [List.length_append, List.length_cons, List.length_nil] at hi
      exact ne_add_one_add a (by omega)

/-- アドレス `s` から `i` 番目のバイト。 -/
def charAt (mem : Memory) (s : Word) (i : Nat) : Byte := mem (s + BitVec.ofNat 32 i)

theorem charAt_zero (mem : Memory) (s : Word) : charAt mem s 0 = mem s := by rw [charAt, BitVec.add_zero]

theorem charAt_tail (mem : Memory) (s : Word) : (fun j => charAt mem s (j + 1)) = charAt mem (s + 1) := by
  funext j
  rw [charAt, charAt, add_one_add]

theorem charAt_text {i : Nat} (h : StrAt mem a t) (hi : i ≤ t.length) : charAt mem a i = byteAt t i := by
  induction t generalizing a i with
  | nil =>
      obtain rfl : i = 0 := Nat.le_zero.1 hi
      rw [charAt_zero]
      exact h
  | cons c t ih =>
      cases i with
      | zero =>
          rw [charAt_zero]
          exact h.1
      | succ i =>
          have htail := congrFun (charAt_tail mem a) i
          rw [htail, ih h.2.2 (Nat.le_of_succ_le_succ hi)]
          rfl

/-! ## 変換を通して読む文字列 -/

/-- `p` から `tr` を通して読むと `t` で、読むアドレスは、終端まで、どれも `off` を満たす。 -/
def TextAt (tr : Translation) (mem : Memory) (off : Word → Prop) : Word → List Byte → Prop
  | p, [] => ∃ x, tr p = .ok x ∧ mem x = 0 ∧ off x
  | p, c :: t => (∃ x, tr p = .ok x ∧ mem x = c ∧ off x) ∧ c ≠ 0 ∧ TextAt tr mem off (p + 1) t

theorem TextAt.mono (h : TextAt tr mem off p t) (hoff : ∀ x, off x → off' x ∧ mem' x = mem x) : TextAt tr mem' off' p t := by
  induction t generalizing p with
  | nil =>
      obtain ⟨x, hx, h0, hox⟩ := h
      exact ⟨x, hx, (hoff x hox).2.trans h0, (hoff x hox).1⟩
  | cons c t ih =>
      obtain ⟨⟨x, hx, hc, hox⟩, hne, hrest⟩ := h
      exact ⟨⟨x, hx, (hoff x hox).2.trans hc, (hoff x hox).1⟩, hne, ih hrest⟩

theorem TextAt.ne_zero (h : TextAt tr mem off p t) : ∀ c ∈ t, c ≠ 0 := by
  induction t generalizing p with
  | nil => exact fun c hc => absurd hc List.not_mem_nil
  | cons c t ih =>
      intro x hx
      rcases List.mem_cons.1 hx with rfl | hx
      · exact h.2.1
      · exact ih h.2.2 x hx

theorem StrAt.textAt (h : StrAt mem q t) (hmap : ∀ j ≤ t.length, tr (p + BitVec.ofNat 32 j) = .ok (q + BitVec.ofNat 32 j))
    (hoff : ∀ j ≤ t.length, off (q + BitVec.ofNat 32 j)) : TextAt tr mem off p t := by
  have hmap₀ := hmap 0 (Nat.zero_le _)
  have hoff₀ := hoff 0 (Nat.zero_le _)
  rw [BitVec.add_zero] at hmap₀ hoff₀
  rw [BitVec.add_zero] at hmap₀
  induction t generalizing p q with
  | nil => exact ⟨q, hmap₀, h, hoff₀⟩
  | cons c t ih =>
      have hmap' : ∀ j ≤ t.length, tr (p + 1 + BitVec.ofNat 32 j) = .ok (q + 1 + BitVec.ofNat 32 j) := maps_tail hmap
      have hoff' : ∀ j ≤ t.length, off (q + 1 + BitVec.ofNat 32 j) := by
        intro j hj
        rw [add_one_add]
        exact hoff (j + 1) (Nat.succ_le_succ hj)
      refine ⟨⟨q, hmap₀, h.1, hoff₀⟩, h.2.1, ih h.2.2 hmap' hoff' ?_ ?_⟩
      · simpa using hmap' 0 (Nat.zero_le _)
      · simpa using hoff' 0 (Nat.zero_le _)

/-- 書き込む範囲を読まないコピーは、文字列のはじめの `k` バイトと終端を書く。 -/
theorem strncpyLoop_text {k : Nat} (hk : k < 2 ^ 32 - 1)
    (hdst : ∀ j ≤ k, tr (dst + BitVec.ofNat 32 j) = .ok (q + BitVec.ofNat 32 j))
    (hsrc : TextAt tr mem (fun x => ∀ j ≤ k, x ≠ q + BitVec.ofNat 32 j) src t) :
    strncpyLoop tr k dst src mem = .ok (mem.write q (t.take k ++ [0])) := by
  have hzero : tr dst = .ok q := by simpa using hdst 0 (Nat.zero_le _)
  induction k generalizing dst src q mem t with
  | zero =>
      rw [strncpyLoop, storeByte_ok hzero, List.take_zero]
      rfl
  | succ k ih =>
      cases t with
      | nil =>
          obtain ⟨x, hx, h0, -⟩ := hsrc
          refine bind_ok.2 ⟨0, ?_, ?_⟩
          · rw [loadByte_ok hx, h0]
          · rw [if_pos rfl, storeByte_ok hzero]
            rfl
      | cons c t =>
          obtain ⟨⟨x, hx, hc, -⟩, hne, hrest⟩ := hsrc
          have hdst' : ∀ j ≤ k, tr (dst + 1 + BitVec.ofNat 32 j) = .ok (q + 1 + BitVec.ofNat 32 j) := maps_tail hdst
          have hrest' : TextAt tr (mem.write q [c]) (fun x => ∀ j ≤ k, x ≠ q + 1 + BitVec.ofNat 32 j) (src + 1) t := by
            refine hrest.mono fun x hx => ⟨?_, ?_⟩
            · intro j hj
              rw [add_one_add]
              exact hx (j + 1) (Nat.succ_le_succ hj)
            · refine write_outside fun i hi => ?_
              exact hx i (by simp at hi; omega)
          refine bind_ok.2 ⟨c, ?_, ?_⟩
          · rw [loadByte_ok hx, hc]
          · rw [if_neg hne]
            refine bind_ok.2 ⟨_, storeByte_ok hzero, ?_⟩
            rw [ih (by omega) hdst' hrest' (by simpa using hdst' 0 (Nat.zero_le _)), List.take_succ_cons, List.cons_append,
              ← write_cons mem q c (by simp; omega)]

end EnkiOs
