import EnkiOs.Libc.Compare

/-!
# 比較の正しさ

`strncmp` と `istrncmp` は終端で止まらないので、等しい文字列では、終端の後ろまで比べる。`strcmp` と `strncmp` は符号つきの文字
の差を返すので、`memcmp` とは、0x80 からの文字の順が違う。
-/

namespace EnkiOs
open Machine FirstDiff Fuel

variable {mem : Memory} {s1 s2 : Word} {t1 t2 : List Byte} {n i : Nat} {f : Byte → Byte}

theorem StrAt.zero_not_mem (h : StrAt mem s1 t1) : 0 ∉ t1 := fun h0 => h.ne_zero 0 h0 rfl

theorem zero_not_mem_map (hf : ∀ c, f c = 0 ↔ c = 0) (h : 0 ∉ t1) : 0 ∉ t1.map f := by
  intro hmem
  obtain ⟨c, hc, h0⟩ := List.mem_map.1 hmem
  rw [(hf c).1 h0] at hc
  exact h hc

theorem charAt_map (hf : ∀ c, f c = 0 ↔ c = 0) (h : StrAt mem s1 t1) (hi : i ≤ t1.length) :
    f (charAt mem s1 i) = byteAt (t1.map f) i := by
  rw [charAt_text h hi, byteAt_map ((hf 0).2 rfl)]

/-- 二つの文字列は、終端まで等しいか、どちらの終端も越えないところで初めて違う。 -/
theorem firstDiff_cases (hf : ∀ c, f c = 0 ↔ c = 0) (h1 : StrAt mem s1 t1) (h2 : StrAt mem s2 t2) :
    (t1.map f = t2.map f ∧ ∀ i ≤ t1.length, f (charAt mem s1 i) = f (charAt mem s2 i)) ∨
    (t1.map f ≠ t2.map f ∧ ∃ i ≤ t1.length, i ≤ t2.length ∧ At (byteAt (t1.map f)) (byteAt (t2.map f)) i ∧
      At (f ∘ charAt mem s1) (f ∘ charAt mem s2) i) := by
  by_cases hsame : t1.map f = t2.map f
  · refine .inl ⟨hsame, fun i hi => ?_⟩
    have hlen := congrArg List.length hsame
    rw [List.length_map, List.length_map] at hlen
    rw [charAt_map hf h1 hi, charAt_map hf h2 (hlen ▸ hi), hsame]
  · obtain ⟨i, hi1, hi2, hat⟩ := exists_firstDiff (zero_not_mem_map hf h1.zero_not_mem) (zero_not_mem_map hf h2.zero_not_mem) hsame
    rw [List.length_map] at hi1 hi2
    refine .inr ⟨hsame, i, hi1, hi2, hat, hat.congr ?_ ?_⟩
    · exact fun j hj => charAt_map hf h1 (Nat.le_trans hj hi1)
    · exact fun j hj => charAt_map hf h2 (Nat.le_trans hj hi2)

/-! ## 読む範囲 -/

/-- 比べる文字は、高々 `n` 文字で、どちらの終端も越えない。 -/
def StaysWithin (mem : Memory) (s1 s2 : Word) (t1 t2 : List Byte) (n : Nat) (r : Reads Int) : Prop :=
  ∃ k ≤ n, k ≤ t1.length + 1 ∧ k ≤ t2.length + 1 ∧ r.trace mem = compared s1 s2 k

theorem strncmpLoop_within_iff (hf : ∀ c, f c = 0 ↔ c = 0) (h1 : StrAt mem s1 t1) (h2 : StrAt mem s2 t2) :
    StaysWithin mem s1 s2 t1 t2 n (strncmpLoop f n s1 s2 0 0) ↔ (t1.map f = t2.map f → n ≤ t1.length + 1) := by
  have hcount : ∀ {k l}, compared s1 s2 k = compared s1 s2 l → k = l := by
    intro k l heq
    have hlen := congrArg List.length heq
    rw [length_compared, length_compared] at hlen
    omega
  rcases firstDiff_cases hf h1 h2 with ⟨hsame, hagree⟩ | ⟨hne, i, hi1, hi2, -, hat⟩
  · have hlen := congrArg List.length hsame
    rw [List.length_map, List.length_map] at hlen
    refine Iff.trans ?_ (forall_prop_of_true hsame).symm
    constructor
    · -- 終端の後ろまで比べると、比べた文字の数が文字列の長さを越える。
      rintro ⟨k, hkn, hk1, -, htrace⟩
      rcases agree_or_at (f ∘ charAt mem s1) (f ∘ charAt mem s2) n with hall | ⟨i, hi, hat⟩
      · rw [(strncmpLoop_agree hall rfl).1] at htrace
        rw [hcount htrace]
        exact hk1
      · rw [(strncmpLoop_differ hat hi rfl).1] at htrace
        have hk := hcount htrace
        by_contra hgt
        exact hat.differ (hagree i (by omega))
    · intro hn
      exact ⟨n, Nat.le_refl n, hn, by omega, (strncmpLoop_agree (fun i hi => hagree i (by omega)) rfl).1⟩
  · refine iff_of_true ?_ fun hsame => absurd hsame hne
    by_cases hi : i < n
    · exact ⟨i + 1, hi, by omega, by omega, (strncmpLoop_differ hat hi rfl).1⟩
    · exact ⟨n, Nat.le_refl n, by omega, by omega, (strncmpLoop_agree (fun j hj => hat.agree j (by omega)) rfl).1⟩

theorem byteAt_take {t : List Byte} (hi : i < n) : byteAt (t.take n) i = byteAt t i := by
  rw [byteAt, byteAt, List.getD_eq_getElem?_getD, List.getD_eq_getElem?_getD, List.getElem?_take_of_lt hi]

/-- はじめの `n` 文字が等しければ、終端を越えない限り、0 を返す。 -/
theorem strncmpLoop_equal (hf : ∀ c, f c = 0 ↔ c = 0) (h1 : StrAt mem s1 t1) (h2 : StrAt mem s2 t2)
    (hn : t1.map f = t2.map f → n ≤ t1.length + 1) (heq : (t1.take n).map f = (t2.take n).map f) :
    (strncmpLoop f n s1 s2 0 0).value mem = 0 := by
  rcases firstDiff_cases hf h1 h2 with ⟨hsame, hagree⟩ | ⟨-, i, -, -, hat, hat'⟩
  · have hle := hn hsame
    exact (strncmpLoop_agree (fun i hi => hagree i (by omega)) rfl).2
  · by_cases hi : i < n
    · refine absurd ?_ hat.differ
      rw [List.map_take, List.map_take] at heq
      rw [← byteAt_take hi, heq, byteAt_take hi]
    · exact (strncmpLoop_agree (fun j hj => hat'.agree j (by omega)) rfl).2

/-! ## 符号 -/

theorem toInt_byte (x : Byte) : x.toInt = if x.msb then (x.toNat : Int) - 256 else x.toNat := BitVec.toInt_eq_msb_cond x

theorem msb_byte (x : Byte) : x.msb = true ↔ 128 ≤ x.toNat := by
  rw [BitVec.msb_eq_decide, decide_eq_true_eq]

/-- 符号つきの差の符号が、符号なしの順と同じになるのは、最上位のビットが等しいときである。 -/
theorem sign_sub_iff {x y : Byte} (hne : x ≠ y) :
    (x.toInt - y.toInt).sign = (if x < y then -1 else 1 : Int).sign ↔ x.msb = y.msb := by
  have hnat : x.toNat ≠ y.toNat := fun heq => hne (BitVec.eq_of_toNat_eq heq)
  have hx := x.isLt
  have hy := y.isLt
  have hmx := msb_byte x
  have hmy := msb_byte y
  rw [toInt_byte, toInt_byte]
  by_cases hlt : x < y
  · have hlt' : x.toNat < y.toNat := hlt
    rw [if_pos hlt, show (-1 : Int).sign = -1 from rfl, Int.sign_eq_neg_one_iff_neg]
    cases hxm : x.msb <;> cases hym : y.msb <;> simp [hxm, hym] at hmx hmy ⊢ <;> omega
  · have hlt' : ¬x.toNat < y.toNat := hlt
    rw [if_neg hlt, show (1 : Int).sign = 1 from rfl, Int.sign_eq_one_iff_pos]
    cases hxm : x.msb <;> cases hym : y.msb <;> simp [hxm, hym] at hmx hmy ⊢ <;> omega

/-- 初めの違いは、0x80 からの文字と、その手前の文字との違いではない。 -/
def SameHalf (t1 t2 : List Byte) : Prop := ∀ i, At (byteAt t1) (byteAt t2) i → (byteAt t1 i).msb = (byteAt t2 i).msb

theorem firstDiff_text (h1 : StrAt mem s1 t1) (h2 : StrAt mem s2 t2) :
    (t1 = t2 ∧ ∀ i ≤ t1.length, charAt mem s1 i = charAt mem s2 i) ∨
    (t1 ≠ t2 ∧ ∃ i ≤ t1.length, i ≤ t2.length ∧ At (byteAt t1) (byteAt t2) i ∧ At (charAt mem s1) (charAt mem s2) i) := by
  have hcases := firstDiff_cases (f := id) (fun _ => Iff.rfl) h1 h2
  rwa [List.map_id, List.map_id] at hcases

theorem sameHalf_iff (h1 : StrAt mem s1 t1) (h2 : StrAt mem s2 t2) (hi1 : i ≤ t1.length) (hi2 : i ≤ t2.length)
    (hat : At (byteAt t1) (byteAt t2) i) : SameHalf t1 t2 ↔ (charAt mem s1 i).msb = (charAt mem s2 i).msb := by
  rw [charAt_text h1 hi1, charAt_text h2 hi2]
  constructor
  · intro h
    exact h i hat
  · intro h j hj
    obtain rfl := hat.unique hj
    exact h

/-- 等しい文字列には 0 を、違う文字列には、初めの違いの差を返す。 -/
theorem strcmp_settles (h1 : StrAt mem s1 t1) (hi : i ≤ t1.length)
    (hagree : ∀ j < i, charAt mem s1 j = charAt mem s2 j) (hend : charAt mem s1 i ≠ charAt mem s2 i ∨ charAt mem s1 i = 0) :
    Settles (fun fuel => (strcmp fuel s1 s2).value mem) ((charAt mem s1 i).toInt - (charAt mem s2 i).toInt) := by
  refine ⟨i + 1, fun fuel hfuel => strcmp_stop ?_ ?_ hfuel⟩
  · intro j hj
    refine ⟨?_, hagree j hj⟩
    rw [charAt_text h1 (by omega)]
    exact byteAt_ne_zero h1.zero_not_mem (by omega)
  · rintro ⟨hne, -, heq⟩
    rcases hend with h | h
    · exact h heq
    · exact hne h

/-- `strcmp` の符号は、終端までの `memcmp` の符号である。 -/
def StrcmpSigned (mem : Memory) (s1 s2 : Word) (t1 t2 : List Byte) : Prop :=
  ∃ v, Settles (fun fuel => (strcmp fuel s1 s2).value mem) v ∧
    v.sign = ((memcmp s1 s2 (min t1.length t2.length + 1)).value mem).sign

theorem strcmpSigned_iff (h1 : StrAt mem s1 t1) (h2 : StrAt mem s2 t2) : StrcmpSigned mem s1 s2 t1 t2 ↔ SameHalf t1 t2 := by
  rcases firstDiff_text h1 h2 with ⟨rfl, hagree⟩ | ⟨-, i, hi1, hi2, hat, hat'⟩
  · refine iff_of_true ?_ fun i hat => absurd rfl hat.differ
    have hnul : charAt mem s1 t1.length = 0 := by
      rw [charAt_text h1 (Nat.le_refl _)]
      exact byteAt_of_length_le (Nat.le_refl _)
    refine ⟨_, strcmp_settles h1 (Nat.le_refl _) (fun j hj => hagree j (Nat.le_of_lt hj)) (.inr hnul), ?_⟩
    rw [memcmp_agree fun j hj => hagree j (by omega), hagree _ (Nat.le_refl _), Int.sub_self]
  · have hsettles := strcmp_settles h1 hi1 hat'.agree (.inl hat'.differ)
    rw [sameHalf_iff h1 h2 hi1 hi2 hat, ← sign_sub_iff hat'.differ, ← memcmp_differ hat' (by omega : i < min t1.length t2.length + 1)]
    constructor
    · rintro ⟨v, hv, hsign⟩
      rwa [hv.unique hsettles] at hsign
    · intro hsign
      exact ⟨_, hsettles, hsign⟩

theorem strncmp_sign (h1 : StrAt mem s1 t1) (h2 : StrAt mem s2 t2) (hn : t1 = t2 → n ≤ t1.length + 1) (hhalf : SameHalf t1 t2) :
    ((strncmp s1 s2 n).value mem).sign = ((memcmp s1 s2 (min n (min t1.length t2.length + 1))).value mem).sign := by
  rcases firstDiff_text h1 h2 with ⟨rfl, hagree⟩ | ⟨-, i, hi1, hi2, hat, hat'⟩
  · have hle := hn rfl
    rw [strncmp, (strncmpLoop_agree (f := id) (fun i hi => hagree i (by omega)) rfl).2, memcmp_agree fun j hj => hagree j (by omega)]
  · by_cases hi : i < n
    · rw [strncmp, (strncmpLoop_differ (f := id) hat' hi rfl).2, memcmp_differ hat' (by omega)]
      exact (sign_sub_iff hat'.differ).2 ((sameHalf_iff h1 h2 hi1 hi2 hat).1 hhalf)
    · rw [strncmp, (strncmpLoop_agree (f := id) (fun j hj => hat'.agree j (by omega)) rfl).2,
        memcmp_agree fun j hj => hat'.agree j (by omega)]

/-! ## 比較の四つの関数 -/

/-- C の比較の通りである。 -/
structure ComparesAsC (mem : Memory) (s1 s2 : Word) (t1 t2 : List Byte) (n : Nat) : Prop where
  strncmp_within : StaysWithin mem s1 s2 t1 t2 n (strncmp s1 s2 n)
  istrncmp_within : StaysWithin mem s1 s2 t1 t2 n (istrncmpAt s1 s2 n)
  strncmp_equal : t1.take n = t2.take n → (strncmp s1 s2 n).value mem = 0
  istrncmp_equal : SameName (t1.take n) (t2.take n) → (istrncmpAt s1 s2 n).value mem = 0
  strcmp_signed : StrcmpSigned mem s1 s2 t1 t2
  strncmp_signed :
    ((strncmp s1 s2 n).value mem).sign = ((memcmp s1 s2 (min n (min t1.length t2.length + 1))).value mem).sign

/-- C の通りになるのは、大文字と小文字の違いを除いて等しい文字列を、終端の後ろまで比べず、初めの違いが 0x80 をまたがない
ときである。 -/
theorem comparesAsC_iff (h1 : StrAt mem s1 t1) (h2 : StrAt mem s2 t2) :
    ComparesAsC mem s1 s2 t1 t2 n ↔ (SameName t1 t2 → n ≤ t1.length + 1) ∧ SameHalf t1 t2 := by
  have hid : ∀ c : Byte, id c = 0 ↔ c = 0 := fun _ => Iff.rfl
  have hlower : ∀ c, tolower c = 0 ↔ c = 0 := fun _ => tolower_eq_zero_iff
  constructor
  · intro h
    exact ⟨(strncmpLoop_within_iff hlower h1 h2).1 h.istrncmp_within, (strcmpSigned_iff h1 h2).1 h.strcmp_signed⟩
  · rintro ⟨hn, hhalf⟩
    have hn' : t1 = t2 → n ≤ t1.length + 1 := fun heq => hn (congrArg (List.map tolower) heq)
    have hid' : t1.map id = t2.map id → n ≤ t1.length + 1 := by rwa [List.map_id, List.map_id]
    constructor
    · exact (strncmpLoop_within_iff hid h1 h2).2 hid'
    · exact (strncmpLoop_within_iff hlower h1 h2).2 hn
    · intro heq
      exact strncmpLoop_equal hid h1 h2 hid' (by rw [heq])
    · intro heq
      exact strncmpLoop_equal hlower h1 h2 hn heq
    · exact (strcmpSigned_iff h1 h2).2 hhalf
    · exact strncmp_sign h1 h2 hn' hhalf

/-- `0x1000` に `"a"` と `b`、`0x2000` に `"a"` と `c`、`0x3000` に `"\x80"` がある。 -/
def compareMemory : Memory := fun x =>
  if x = 0x1000 ∨ x = 0x2000 then 0x61 else if x = 0x1002 then 0x62 else if x = 0x2002 then 0x63
  else if x = 0x3000 then 0x80 else 0

theorem comparesAsC_iff_long :
    ComparesAsC compareMemory 0x1000 0x2000 [0x61] [0x61] 3 ↔ (SameName [0x61] [0x61] → 3 ≤ 1 + 1) ∧ SameHalf [0x61] [0x61] :=
  comparesAsC_iff (by decide) (by decide)

/-- `strncmp("a\0b", "a\0c", 3)` は負で、`strcmp("\x80", "a")` は、`memcmp` と符号が違う。 -/
theorem comparesAsC_fails :
    (StrAt compareMemory 0x1000 [0x61] ∧ StrAt compareMemory 0x2000 [0x61] ∧ StrAt compareMemory 0x3000 [0x80]) ∧
    (strncmp 0x1000 0x2000 3).value compareMemory = -1 ∧ (istrncmpAt 0x1000 0x2000 3).value compareMemory = -1 ∧
    (strcmp 1 0x3000 0x1000).value compareMemory = .ok (-225) ∧ (memcmp 0x3000 0x1000 2).value compareMemory = 1 := by
  decide

end EnkiOs
