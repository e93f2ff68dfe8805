import EnkiOs.Fat.Lemmas.Lookup
import EnkiOs.Lib.FirstDiff
import EnkiOs.Lib.Fuel
import EnkiOs.Lib.Reads
import EnkiOs.Libc.Text

/-!
# 文字列の比較

`libc/string/string.c` の `memcmp`、`strcmp`、`strncmp`、`istrncmp`。読んだアドレスも残す。
-/

namespace EnkiOs
open Machine FirstDiff Fuel

/-- 残りの回数を持つ。 -/
def memcmp : Word → Word → Nat → Reads Int
  | _, _, 0 => pure 0
  | a, b, size + 1 => do
      let x ← Reads.byte a
      let y ← Reads.byte b
      if x < y then pure (-1) else if y < x then pure 1 else memcmp (a + 1) (b + 1) size

/-- 残りの上限を持つ。 -/
def strcmp : Nat → Word → Word → Reads (Except Fault Int)
  | 0, _, _ => pure (.error .hang)
  | k + 1, s1, s2 => do
      let a ← Reads.byte s1
      let b ← Reads.byte s2
      if a ≠ 0 ∧ b ≠ 0 ∧ a = b then strcmp k (s1 + 1) (s2 + 1) else pure (.ok (a.toInt - b.toInt))

/-- 直前に比べた値 `a` と `b` を持つ。`f` は、比べる前に文字を変える。 -/
def strncmpLoop (f : Byte → Byte) : Nat → Word → Word → Int → Int → Reads Int
  | 0, _, _, a, b => pure (a - b)
  | n + 1, s1, s2, a, b =>
      if a = b then do
        let x ← Reads.byte s1
        let y ← Reads.byte s2
        strncmpLoop f n (s1 + 1) (s2 + 1) (f x).toInt (f y).toInt
      else pure (a - b)

def strncmp (s1 s2 : Word) (n : Nat) : Reads Int := strncmpLoop id n s1 s2 0 0

/-- `istrncmp` を、アドレスから読むもの。 -/
def istrncmpAt (s1 s2 : Word) (n : Nat) : Reads Int := strncmpLoop tolower n s1 s2 0 0

/-- `s1` と `s2` から、順に `k` 文字ずつ読む。 -/
def compared : Word → Word → Nat → List Word
  | _, _, 0 => []
  | s1, s2, k + 1 => s1 :: s2 :: compared (s1 + 1) (s2 + 1) k

variable {mem : Memory} {s1 s2 : Word} {t1 t2 : List Byte} {n i : Nat} {f : Byte → Byte} {a b : Int}

/-! ## 繰り返しの結果 -/

theorem trace_byte (s : Word) (next : Byte → Reads Int) :
    (Reads.byte s >>= next).trace mem = s :: (next (mem s)).trace mem := rfl

theorem strncmpLoop_stop (n : Nat) (s1 s2 : Word) (h : a ≠ b) : strncmpLoop f n s1 s2 a b = pure (a - b) := by
  cases n with
  | zero => rfl
  | succ n => rw [strncmpLoop, if_neg h]

/-- 違いがなければ、`n` 文字をすべて読む。 -/
theorem strncmpLoop_agree (h : ∀ i < n, f (charAt mem s1 i) = f (charAt mem s2 i)) (hab : a = b) :
    (strncmpLoop f n s1 s2 a b).trace mem = compared s1 s2 n ∧ (strncmpLoop f n s1 s2 a b).value mem = 0 := by
  induction n generalizing s1 s2 a b with
  | zero =>
      refine ⟨rfl, ?_⟩
      rw [strncmpLoop, Reads.value_pure, hab, Int.sub_self]
  | succ n ih =>
      have hhead := h 0 (Nat.succ_pos n)
      rw [charAt_zero, charAt_zero] at hhead
      have htail : ∀ i < n, f (charAt mem (s1 + 1) i) = f (charAt mem (s2 + 1) i) := by
        intro i hi
        rw [← charAt_tail, ← charAt_tail]
        exact h (i + 1) (Nat.succ_lt_succ hi)
      obtain ⟨htrace, hvalue⟩ := ih htail (congrArg BitVec.toInt hhead)
      rw [strncmpLoop, if_pos hab, compared]
      exact ⟨congrArg (fun l => s1 :: s2 :: l) htrace, hvalue⟩

/-- 初めの違いまでを読み、その差を返す。 -/
theorem strncmpLoop_differ (h : At (f ∘ charAt mem s1) (f ∘ charAt mem s2) i) (hi : i < n) (hab : a = b) :
    (strncmpLoop f n s1 s2 a b).trace mem = compared s1 s2 (i + 1) ∧
      (strncmpLoop f n s1 s2 a b).value mem = (f (charAt mem s1 i)).toInt - (f (charAt mem s2 i)).toInt := by
  induction i generalizing n s1 s2 a b with
  | zero =>
      obtain ⟨n, rfl⟩ : ∃ k, n = k + 1 := ⟨n - 1, by omega⟩
      have hne : (f (mem s1)).toInt ≠ (f (mem s2)).toInt := by
        have hdiffer := h.differ
        simp only [Function.comp_apply, charAt_zero] at hdiffer
        exact fun heq => hdiffer (BitVec.toInt_inj.1 heq)
      rw [strncmpLoop, if_pos hab, trace_byte, trace_byte, Reads.value_bind, Reads.value_bind, Reads.value_byte, Reads.value_byte,
        strncmpLoop_stop _ _ _ hne, charAt_zero, charAt_zero]
      exact ⟨rfl, rfl⟩
  | succ i ih =>
      obtain ⟨n, rfl⟩ : ∃ k, n = k + 1 := ⟨n - 1, by omega⟩
      have hhead := h.agree 0 (Nat.succ_pos i)
      simp only [Function.comp_apply, charAt_zero] at hhead
      have htail : At (f ∘ charAt mem (s1 + 1)) (f ∘ charAt mem (s2 + 1)) i := by
        rw [← charAt_tail, ← charAt_tail]
        exact h.tail
      obtain ⟨htrace, hvalue⟩ := ih htail (Nat.lt_of_succ_lt_succ hi) (congrArg BitVec.toInt hhead)
      rw [strncmpLoop, if_pos hab, compared]
      refine ⟨congrArg (fun l => s1 :: s2 :: l) htrace, hvalue.trans ?_⟩
      rw [← charAt_tail, ← charAt_tail]

theorem strncmpLoop_tolower (mem : Memory) (s1 s2 : Word) (n i : Nat) (a b : Int) :
    (strncmpLoop tolower n (s1 + BitVec.ofNat 32 i) (s2 + BitVec.ofNat 32 i) a b).value mem =
      istrncmpLoop (charAt mem s1) (charAt mem s2) n i a b := by
  induction n generalizing i a b with
  | zero => rfl
  | succ n ih =>
      rw [strncmpLoop, istrncmpLoop]
      split
      · rw [Reads.value_bind, Reads.value_bind, Reads.value_byte, Reads.value_byte, BitVec.add_assoc, BitVec.add_assoc]
        exact (congrArg₂ (fun p q => (strncmpLoop tolower n p q _ _).value mem)
          (congrArg (s1 + ·) (BitVec.ofNat_add ..).symm) (congrArg (s2 + ·) (BitVec.ofNat_add ..).symm)).trans (ih (i + 1) _ _)
      · rfl

/-- 返す値は、ファイルの名前を探すときに使うものと同じである。 -/
theorem istrncmpAt_value (mem : Memory) (s1 s2 : Word) (n : Nat) :
    (istrncmpAt s1 s2 n).value mem = istrncmp (charAt mem s1) (charAt mem s2) n := by
  rw [istrncmp, ← strncmpLoop_tolower, BitVec.add_zero, BitVec.add_zero]
  rfl

theorem memcmp_agree (h : ∀ i < n, charAt mem s1 i = charAt mem s2 i) : (memcmp s1 s2 n).value mem = 0 := by
  induction n generalizing s1 s2 with
  | zero => rfl
  | succ n ih =>
      have hhead := h 0 (Nat.succ_pos n)
      rw [charAt_zero, charAt_zero] at hhead
      simp only [memcmp, Reads.value_bind, Reads.value_byte, hhead, BitVec.lt_irrefl, if_false]
      apply ih
      intro i hi
      rw [← charAt_tail, ← charAt_tail]
      exact h (i + 1) (Nat.succ_lt_succ hi)

theorem memcmp_differ (h : At (charAt mem s1) (charAt mem s2) i) (hi : i < n) :
    (memcmp s1 s2 n).value mem = if charAt mem s1 i < charAt mem s2 i then -1 else 1 := by
  induction i generalizing n s1 s2 with
  | zero =>
      obtain ⟨n, rfl⟩ : ∃ k, n = k + 1 := ⟨n - 1, by omega⟩
      have hdiffer := h.differ
      rw [charAt_zero, charAt_zero] at hdiffer ⊢
      simp only [memcmp, Reads.value_bind, Reads.value_byte, Reads.value_ite, Reads.value_pure]
      by_cases hlt : mem s1 < mem s2
      · rw [if_pos hlt, if_pos hlt]
      · have hgt : mem s2 < mem s1 := by
          rw [BitVec.lt_def] at hlt ⊢
          have hne : (mem s1).toNat ≠ (mem s2).toNat := fun heq => hdiffer (BitVec.eq_of_toNat_eq heq)
          omega
        rw [if_neg hlt, if_neg hlt, if_pos hgt]
  | succ i ih =>
      obtain ⟨n, rfl⟩ : ∃ k, n = k + 1 := ⟨n - 1, by omega⟩
      have hhead := h.agree 0 (Nat.succ_pos i)
      have htail := h.tail
      rw [charAt_zero, charAt_zero] at hhead
      rw [charAt_tail, charAt_tail] at htail
      simp only [memcmp, Reads.value_bind, Reads.value_byte, hhead, BitVec.lt_irrefl, if_false]
      rw [ih htail (Nat.lt_of_succ_lt_succ hi), ← charAt_tail, ← charAt_tail]

/-- 繰り返しは、違う文字か終端で止まる。 -/
theorem strcmp_stop {fuel : Nat} (hrun : ∀ j < i, charAt mem s1 j ≠ 0 ∧ charAt mem s1 j = charAt mem s2 j)
    (hstop : ¬(charAt mem s1 i ≠ 0 ∧ charAt mem s2 i ≠ 0 ∧ charAt mem s1 i = charAt mem s2 i)) (hi : i < fuel) :
    (strcmp fuel s1 s2).value mem = .ok ((charAt mem s1 i).toInt - (charAt mem s2 i).toInt) := by
  induction i generalizing fuel s1 s2 with
  | zero =>
      obtain ⟨k, rfl⟩ : ∃ k, fuel = k + 1 := ⟨fuel - 1, by omega⟩
      rw [charAt_zero, charAt_zero] at hstop ⊢
      simp only [strcmp, Reads.value_bind, Reads.value_byte, if_neg hstop, Reads.value_pure]
  | succ i ih =>
      obtain ⟨k, rfl⟩ : ∃ k, fuel = k + 1 := ⟨fuel - 1, by omega⟩
      obtain ⟨hne, heq⟩ := hrun 0 (Nat.succ_pos i)
      rw [charAt_zero] at hne
      rw [charAt_zero, charAt_zero] at heq
      have hgo : mem s1 ≠ 0 ∧ mem s2 ≠ 0 ∧ mem s1 = mem s2 := ⟨hne, heq ▸ hne, heq⟩
      simp only [strcmp, Reads.value_bind, Reads.value_byte, if_pos hgo]
      have htail1 := congrFun (charAt_tail mem s1)
      have htail2 := congrFun (charAt_tail mem s2)
      rw [ih ?_ ?_ (Nat.lt_of_succ_lt_succ hi), ← htail1, ← htail2]
      · intro j hj
        rw [← htail1, ← htail2]
        exact hrun (j + 1) (Nat.succ_lt_succ hj)
      · rw [← htail1, ← htail2]
        exact hstop

/-! ## 文字列の初めの違い -/

theorem length_compared (s1 s2 : Word) (k : Nat) : (compared s1 s2 k).length = 2 * k := by
  induction k generalizing s1 s2 with
  | zero => rfl
  | succ k ih =>
      rw [compared, List.length_cons, List.length_cons, ih]
      omega

theorem byteAt_map (hf : f 0 = 0) (t : List Byte) (j : Nat) : f (byteAt t j) = byteAt (t.map f) j := by
  simp only [byteAt, List.getD_eq_getElem?_getD, List.getElem?_map]
  cases t[j]? with
  | none => exact hf
  | some c => rfl

/-- 違う文字列は、終端までのどこかで初めて違う。 -/
theorem exists_firstDiff (h1 : 0 ∉ t1) (h2 : 0 ∉ t2) (hne : t1 ≠ t2) :
    ∃ i ≤ t1.length, i ≤ t2.length ∧ At (byteAt t1) (byteAt t2) i := by
  have hend : ∀ {u v : List Byte} {i : Nat}, 0 ∉ u → 0 ∉ v → At (byteAt u) (byteAt v) i → i ≤ u.length := by
    intro u v i hu hv hat
    by_contra hlt
    have hzero := hat.agree u.length (by omega)
    rw [byteAt_of_length_le (Nat.le_refl _)] at hzero
    have hle : v.length ≤ u.length := by
      by_contra hlt
      exact byteAt_ne_zero hv (by omega) hzero.symm
    exact hat.differ (by rw [byteAt_of_length_le (by omega), byteAt_of_length_le (by omega)])
  rcases agree_or_at (byteAt t1) (byteAt t2) (max t1.length t2.length + 1) with hagree | ⟨i, -, hat⟩
  · refine absurd ?_ hne
    have hlen : ∀ {u v : List Byte}, 0 ∉ v → (∀ i < max u.length v.length + 1, byteAt u i = byteAt v i) → v.length ≤ u.length := by
      intro u v hv hagree
      by_contra hlt
      have hzero := hagree u.length (by omega)
      rw [byteAt_of_length_le (Nat.le_refl _)] at hzero
      exact byteAt_ne_zero hv (by omega) hzero.symm
    have hle := hlen h2 hagree
    have hge := hlen h1 fun i hi => (hagree i (by omega)).symm
    refine List.ext_getElem (by omega) fun j hj1 hj2 => ?_
    have heq := hagree j (by omega)
    rwa [byteAt, byteAt, List.getD_eq_getElem?_getD, List.getD_eq_getElem?_getD, List.getElem?_eq_getElem hj1,
      List.getElem?_eq_getElem hj2] at heq
  · have hat' : At (byteAt t2) (byteAt t1) i := ⟨hat.differ.symm, fun j hj => (hat.agree j hj).symm⟩
    exact ⟨i, hend h1 h2 hat, hend h2 h1 hat', hat⟩

end EnkiOs
