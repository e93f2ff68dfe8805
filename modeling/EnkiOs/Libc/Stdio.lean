import EnkiOs.Lib.Format
import EnkiOs.Lib.Fuel
import EnkiOs.Libc.Stdlib

/-!
# 書式つきの出力

`libc/stdio/stdio.c` の `printf`。可変長の引数は、四バイトずつの語の列で渡す。`buf` は、`itoa` の静的な配列である。`reads` は、書式を
読んだアドレスで、C の側には無く、仕様のためだけに持つ。
-/

namespace EnkiOs
open Machine Format Fuel

/-- 渡した文字を出す。 -/
def enkiPutchar (c : Byte) : List Byte := [c]

def putchar (c : Byte) : List Byte := enkiPutchar c

/-- 終端までの文字を出す。 -/
def enkiPrint (mem : Memory) : Nat → Word → Except Fault (List Byte)
  | 0, _ => .error .hang
  | k + 1, a =>
      if mem a = 0 then .ok []
      else do
        let rest ← enkiPrint mem k (a + 1)
        return mem a :: rest

def vaArg : List Word → Except Fault (Word × List Word)
  | [] => .error .outOfBounds
  | w :: ap => .ok (w, ap)

/-- `printf` の `switch`。 -/
def printfSwitch (fuel : Nat) (buf : Word) (c : Byte) (ap : List Word) (mem : Memory) :
    Except Fault (List Byte × List Word × Memory) :=
  if c = 0x64 ∨ c = 0x69 then do
    let (ival, ap) ← vaArg ap
    let (text, mem) ← (itoa buf ival.toInt mem).elim (.error .outOfBounds) .ok
    let out ← enkiPrint mem fuel text
    return (out, ap, mem)
  else if c = 0x73 then do
    let (sval, ap) ← vaArg ap
    let out ← enkiPrint mem fuel sval
    return (out, ap, mem)
  else .ok (putchar c, ap, mem)

structure Printed where
  mem : Memory
  output : List Byte
  reads : List Word

/-- 先に出した文字と、読んだアドレスを足す。 -/
def Printed.after (r : Printed) (out : List Byte) (reads : List Word) : Printed := ⟨r.mem, out ++ r.output, reads ++ r.reads⟩

/-- 残りの上限を持つ。 -/
def printfLoop (fuel : Nat) (buf : Word) : Nat → Word → List Word → Memory → Except Fault Printed
  | 0, _, _, _ => .error .hang
  | k + 1, p, ap, mem =>
      if mem p = 0 then .ok ⟨mem, [], [p]⟩
      else if mem p ≠ 0x25 then do
        let r ← printfLoop fuel buf k (p + 1) ap mem
        return r.after (putchar (mem p)) [p]
      else do
        let (out, ap, mem) ← printfSwitch fuel buf (mem (p + 1)) ap mem
        let r ← printfLoop fuel buf k (p + 1 + 1) ap mem
        return r.after out [p, p + 1]

def printf (buf fmt : Word) (ap : List Word) (mem : Memory) (fuel : Nat) : Except Fault (Int × Printed) := do
  let r ← printfLoop fuel buf fuel fmt ap mem
  return (0, r)

/-! ## 書式の意味 -/

/-- `%` の後の文字が表すもの。 -/
def conversion (c : Byte) : Piece Byte := if c = 0x64 ∨ c = 0x69 then .int else if c = 0x73 then .str else .lit c

abbrev formatPieces : List Byte → List (Piece Byte) := pieces 0x25 conversion

/-- 引数の列が部分の列に合い、置き換える並びが `ts` である。文字列は、手前の `itoa` が書いた後のメモリで読む。 -/
def Matching (buf : Word) : Memory → List (Piece Byte) → List Word → List (List Byte) → Prop
  | _, [], _, ts => ts = []
  | mem, .lit _ :: ps, ap, ts => Matching buf mem ps ap ts
  | mem, .lone :: ps, ap, ts => Matching buf mem ps ap ts
  | mem, .int :: ps, w :: ap, t :: ts =>
      t = Decimal.decimal w.toInt ∧ ∀ text mem', itoa buf w.toInt mem = some (text, mem') → Matching buf mem' ps ap ts
  | mem, .str :: ps, w :: ap, t :: ts => StrAt mem w t ∧ Matching buf mem ps ap ts
  | _, _, _, _ => False

/-- `itoa` の静的な配列の外にある。 -/
def OffStatic (buf x : Word) : Prop := ∀ i < 12, x ≠ buf + BitVec.ofNat 32 i

/-- 終わって、書式 `t` の通りに出し、書式の終端より後を読まない。 -/
def PrintsFormat (buf fmt : Word) (t : List Byte) (ap : List Word) (ts : List (List Byte)) (mem : Memory) : Prop :=
  ∃ r, Settles (printf buf fmt ap mem) (0, r) ∧ r.output = fill (formatPieces t) ts ∧
    ∀ a ∈ r.reads, ∃ j ≤ t.length, a = fmt + BitVec.ofNat 32 j

variable {buf fmt p : Word} {mem mem' : Memory} {ap ap' : List Word} {t out : List Byte} {ts : List (List Byte)} {c : Byte}
  {ps : List (Piece Byte)} {fuel k : Nat} {r : Printed} {off : Word → Prop}

/-! ## 一つの変換 -/

theorem enkiPrint_text {a : Word} (h : StrAt mem a t) (hfuel : t.length < fuel) : enkiPrint mem fuel a = .ok t := by
  induction t generalizing a fuel with
  | nil =>
      obtain ⟨k, rfl⟩ := Nat.exists_eq_add_of_lt hfuel
      exact if_pos h
  | cons c t ih =>
      obtain ⟨k, rfl⟩ : ∃ l, fuel = l + 1 := ⟨fuel - 1, by omega⟩
      obtain ⟨rfl, hne, hrest⟩ := h
      rw [enkiPrint, if_neg hne]
      exact bind_ok.2 ⟨t, ih hrest (Nat.lt_of_succ_lt_succ hfuel), rfl⟩

theorem itoa_outside (buf w : Word) (mem : Memory) : ∃ text mem', itoa buf w.toInt mem = some (text, mem') ∧
    StrAt mem' text (Decimal.decimal w.toInt) ∧ (Decimal.decimal w.toInt).length < 12 ∧
      ∀ x, OffStatic buf x → mem' x = mem x := by
  obtain ⟨k, mem', hrun, hstr, hlen, hsame⟩ := itoa_text buf mem (BitVec.le_toInt w) BitVec.toInt_lt
  exact ⟨_, mem', hrun, hstr, by omega, hsame⟩

/-- 引数が合えば、変換の一つ分を出して、残りの引数も合う。 -/
theorem printfSwitch_matching (h : Matching buf mem (conversion c :: ps) ap ts) : ∃ n out ap' mem' ts',
    (∀ fuel ≥ n, printfSwitch fuel buf c ap mem = .ok (out, ap', mem')) ∧ Matching buf mem' ps ap' ts' ∧
      fill (conversion c :: ps) ts = out ++ fill ps ts' ∧
      ∀ x, (conversion c = .int → OffStatic buf x) → mem' x = mem x := by
  unfold conversion at h ⊢
  by_cases hint : c = 0x64 ∨ c = 0x69
  · rw [if_pos hint] at h ⊢
    match ap, ts, h with
    | w :: ap, t :: ts, ⟨ht, hrest⟩ =>
        obtain ⟨text, mem', hitoa, hstr, hlen, hsame⟩ := itoa_outside buf w mem
        refine ⟨12, t, ap, mem', ts, fun fuel hfuel => ?_, hrest text mem' hitoa, rfl, fun x hx => hsame x (hx rfl)⟩
        rw [printfSwitch, if_pos hint]
        refine bind_ok.2 ⟨_, rfl, bind_ok.2 ⟨_, by rw [hitoa]; rfl, bind_ok.2 ⟨t, ?_, rfl⟩⟩⟩
        rw [ht]
        exact enkiPrint_text hstr (by omega)
  · rw [if_neg hint] at h ⊢
    by_cases hstring : c = 0x73
    · rw [if_pos hstring] at h ⊢
      match ap, ts, h with
      | w :: ap, t :: ts, ⟨hstr, hrest⟩ =>
          refine ⟨t.length + 1, t, ap, mem, ts, fun fuel hfuel => ?_, hrest, rfl, fun _ _ => rfl⟩
          rw [printfSwitch, if_neg hint, if_pos hstring]
          exact bind_ok.2 ⟨_, rfl, bind_ok.2 ⟨t, enkiPrint_text hstr hfuel, rfl⟩⟩
    · rw [if_neg hstring] at h ⊢
      refine ⟨0, [c], ap, mem, ts, fun fuel _ => ?_, h, rfl, fun _ _ => rfl⟩
      rw [printfSwitch, if_neg hint, if_neg hstring]
      rfl

theorem printfSwitch_outside (h : printfSwitch fuel buf c ap mem = .ok (out, ap', mem')) :
    ∀ x, (conversion c = .int → OffStatic buf x) → mem' x = mem x := by
  rw [printfSwitch] at h
  split at h
  · rename_i hint
    obtain ⟨⟨w, ap₁⟩, -, h⟩ := bind_ok.1 h
    obtain ⟨text, mem₁, hitoa, -, -, hsame⟩ := itoa_outside buf w mem
    obtain ⟨r, hr, h⟩ := bind_ok.1 h
    rw [hitoa] at hr
    cases hr
    obtain ⟨out₁, -, h⟩ := bind_ok.1 h
    cases h
    exact fun x hx => hsame x (hx (if_pos hint))
  · split at h
    · obtain ⟨_, -, h⟩ := bind_ok.1 h
      obtain ⟨_, -, h⟩ := bind_ok.1 h
      cases h
      exact fun _ _ => rfl
    · cases h
      exact fun _ _ => rfl

/-! ## 一続きの出力 -/

theorem TextAt.byte (h : TextAt .ok mem off p (c :: t)) : mem p = c ∧ c ≠ 0 ∧ TextAt .ok mem off (p + 1) t := by
  obtain ⟨⟨x, hx, hc, -⟩, hne, hrest⟩ := h
  cases hx
  exact ⟨hc, hne, hrest⟩

theorem TextAt.last (h : TextAt .ok mem off p []) : mem p = 0 := by
  obtain ⟨x, hx, h0, -⟩ := h
  cases hx
  exact h0

theorem printfLoop_end (h0 : mem p = 0) : printfLoop fuel buf (k + 1) p ap mem = .ok ⟨mem, [], [p]⟩ := if_pos h0

theorem printfLoop_char (h : mem p = c) (h0 : c ≠ 0) (hc : c ≠ 0x25) : printfLoop fuel buf (k + 1) p ap mem =
    (printfLoop fuel buf k (p + 1) ap mem).bind fun r => .ok (r.after [c] [p]) := by
  subst h
  exact (if_neg h0).trans (if_pos hc)

theorem printfLoop_percent (h : mem p = 0x25) : printfLoop fuel buf (k + 1) p ap mem =
    (printfSwitch fuel buf (mem (p + 1)) ap mem).bind fun s =>
      (printfLoop fuel buf k (p + 1 + 1) s.2.1 s.2.2).bind fun r => .ok (r.after s.1 [p, p + 1]) := by
  rw [printfLoop, if_neg (by rw [h]; decide), if_neg (by simp [h])]
  rfl

/-- 対にならない `%` がなければ、書式の通りに出し、終端までを読む。 -/
theorem printfLoop_prints (h : TextAt .ok mem off p t) (hoff : .int ∈ formatPieces t → ∀ x, off x → OffStatic buf x)
    (hargs : Matching buf mem (formatPieces t) ap ts) (hlone : .lone ∉ formatPieces t) :
    ∃ n r, (∀ fuel k, n ≤ fuel → t.length < k → printfLoop fuel buf k p ap mem = .ok r) ∧
      r.output = fill (formatPieces t) ts ∧ ∀ a ∈ r.reads, ∃ j ≤ t.length, a = p + BitVec.ofNat 32 j := by
  induction t using pieces_induction (0x25 : Byte) generalizing p ap mem ts with
  | nil =>
      refine ⟨0, ⟨mem, [], [p]⟩, fun fuel k _ hk => ?_, rfl, ?_⟩
      · obtain ⟨k, rfl⟩ := Nat.exists_eq_add_of_lt hk
        exact printfLoop_end h.last
      · intro a ha
        exact ⟨0, Nat.zero_le _, by simpa using ha⟩
  | lone => exact absurd (by rw [formatPieces, pieces_lone]; exact List.mem_singleton_self _) hlone
  | lit c t hc ih =>
      rw [formatPieces, pieces_lit hc] at hargs hlone hoff ⊢
      obtain ⟨hload, h0, hrest⟩ := h.byte
      obtain ⟨n, r, hrun, hout, hreads⟩ := ih hrest (fun hmem => hoff (List.mem_cons_of_mem _ hmem)) hargs
        fun hmem => hlone (List.mem_cons_of_mem _ hmem)
      refine ⟨n, r.after [c] [p], fun fuel k hn hk => ?_, congrArg (c :: ·) hout, ?_⟩
      · obtain ⟨k, rfl⟩ : ∃ l, k = l + 1 := ⟨k - 1, by omega⟩
        rw [printfLoop_char hload h0 hc, hrun fuel k hn (by simp at hk; omega)]
        rfl
      · intro a ha
        rcases List.mem_cons.1 ha with rfl | ha
        · exact ⟨0, Nat.zero_le _, (BitVec.add_zero _).symm⟩
        · obtain ⟨j, hj, rfl⟩ := hreads a ha
          exact ⟨j + 1, Nat.succ_le_succ hj, add_one_add p j⟩
  | conv d t ih =>
      rw [formatPieces, pieces_conv] at hargs hlone hoff ⊢
      obtain ⟨hload, -, hrest⟩ := h.byte
      obtain ⟨hload', -, hrest⟩ := hrest.byte
      obtain ⟨n, out, ap', mem', ts', hswitch, hargs', hfill, hsame⟩ := printfSwitch_matching hargs
      have hkept := hrest.mono fun x hx => ⟨hx, hsame x fun hint => hoff (hint ▸ List.mem_cons_self) x hx⟩
      obtain ⟨n', r, hrun, hout, hreads⟩ := ih hkept (fun hmem => hoff (List.mem_cons_of_mem _ hmem)) hargs'
        fun hmem => hlone (List.mem_cons_of_mem _ hmem)
      refine ⟨max n n', r.after out [p, p + 1], fun fuel k hn hk => ?_, (congrArg (out ++ ·) hout).trans hfill.symm, ?_⟩
      · obtain ⟨k, rfl⟩ : ∃ l, k = l + 1 := ⟨k - 1, by omega⟩
        rw [printfLoop_percent hload, hload', hswitch fuel (by omega)]
        show (printfLoop fuel buf k (p + 1 + 1) ap' mem').bind _ = _
        rw [hrun fuel k (by omega) (by simp at hk; omega)]
        rfl
      · intro a ha
        rcases List.mem_cons.1 ha with rfl | ha
        · exact ⟨0, Nat.zero_le _, (BitVec.add_zero _).symm⟩
        · rcases List.mem_cons.1 ha with rfl | ha
          · exact ⟨1, by simp, rfl⟩
          · obtain ⟨j, hj, rfl⟩ := hreads a ha
            exact ⟨j + 2, by simpa using hj, by rw [add_one_add, add_one_add]⟩

theorem printfLoop_reads (h : printfLoop fuel buf k p ap mem = .ok r) : p ∈ r.reads := by
  cases k with
  | zero => cases h
  | succ k =>
      by_cases h0 : mem p = 0
      · rw [printfLoop_end h0] at h
        cases h
        exact List.mem_cons_self
      · by_cases hc : mem p = 0x25
        · rw [printfLoop_percent hc] at h
          obtain ⟨_, -, h⟩ := bind_ok.1 h
          obtain ⟨_, -, h⟩ := bind_ok.1 h
          cases h
          exact List.mem_cons_self
        · rw [printfLoop_char rfl h0 hc] at h
          obtain ⟨_, -, h⟩ := bind_ok.1 h
          cases h
          exact List.mem_cons_self

/-- 対にならない `%` があると、終端を `%` の対の文字とみて、その次から続ける。 -/
theorem printfLoop_past (h : TextAt .ok mem off p t) (hoff : .int ∈ formatPieces t → ∀ x, off x → OffStatic buf x)
    (hlone : .lone ∈ formatPieces t) (hrun : printfLoop fuel buf k p ap mem = .ok r) :
    ∃ k' < k, ∃ ap' mem' r', printfLoop fuel buf k' (p + BitVec.ofNat 32 (t.length + 1)) ap' mem' = .ok r' ∧
      (∀ a ∈ r'.reads, a ∈ r.reads) ∧ ∀ x, off x → mem' x = mem x := by
  induction t using pieces_induction (0x25 : Byte) generalizing p ap mem k r with
  | nil => cases hlone
  | lone =>
      cases k with
      | zero => cases hrun
      | succ k =>
          obtain ⟨hload, -, hrest⟩ := h.byte
          rw [printfLoop_percent hload, hrest.last] at hrun
          obtain ⟨s, hswitch, hrun⟩ := bind_ok.1 hrun
          obtain ⟨r', hrun', hrun⟩ := bind_ok.1 hrun
          cases hrun
          rw [BitVec.add_assoc] at hrun'
          exact ⟨k, Nat.lt_succ_self k, _, _, r', hrun', fun a ha => List.mem_append_right _ ha,
            fun x _ => printfSwitch_outside hswitch x fun hint => absurd hint (by decide)⟩
  | lit c t hc ih =>
      rw [formatPieces, pieces_lit hc] at hlone hoff
      obtain ⟨hload, h0, hrest⟩ := h.byte
      cases k with
      | zero => cases hrun
      | succ k =>
          rw [printfLoop_char hload h0 hc] at hrun
          obtain ⟨r', hrun', hrun⟩ := bind_ok.1 hrun
          cases hrun
          obtain ⟨k', hk, ap', mem', r'', hnext, hreads, hsame⟩ := ih hrest (fun hmem => hoff (List.mem_cons_of_mem _ hmem))
            ((List.mem_cons.1 hlone).resolve_left (by simp)) hrun'
          rw [add_one_add] at hnext
          exact ⟨k', Nat.lt_succ_of_lt hk, ap', mem', r'', hnext, fun a ha => List.mem_append_right _ (hreads a ha), hsame⟩
  | conv d t ih =>
      rw [formatPieces, pieces_conv] at hlone hoff
      obtain ⟨hload, -, hrest⟩ := h.byte
      obtain ⟨hload', -, hrest⟩ := hrest.byte
      have hne : Piece.lone ≠ conversion d := by
        unfold conversion
        split
        · simp
        · split <;> simp
      cases k with
      | zero => cases hrun
      | succ k =>
          rw [printfLoop_percent hload, hload'] at hrun
          obtain ⟨s, hswitch, hrun⟩ := bind_ok.1 hrun
          obtain ⟨r', hrun', hrun⟩ := bind_ok.1 hrun
          cases hrun
          have hkept : ∀ x, off x → s.2.2 x = mem x := fun x hx =>
            printfSwitch_outside hswitch x fun hint => hoff (hint ▸ List.mem_cons_self) x hx
          obtain ⟨k', hk, ap', mem', r'', hnext, hreads, hsame⟩ := ih (hrest.mono fun x hx => ⟨hx, hkept x hx⟩)
            (fun hmem => hoff (List.mem_cons_of_mem _ hmem)) ((List.mem_cons.1 hlone).resolve_left hne) hrun'
          rw [add_one_add, add_one_add] at hnext
          exact ⟨k', Nat.lt_succ_of_lt hk, ap', mem', r'', hnext, fun a ha => List.mem_append_right _ (hreads a ha),
            fun x hx => (hsame x hx).trans (hkept x hx)⟩

/-- 書式がメモリの全体を占めていると、終端の次は書式の先頭なので、終わらない。 -/
theorem printfLoop_wraps (h : TextAt .ok mem off p t) (hoff : .int ∈ formatPieces t → ∀ x, off x → OffStatic buf x)
    (hlone : .lone ∈ formatPieces t) (hlen : t.length + 1 = 2 ^ 32) : printfLoop fuel buf k p ap mem ≠ .ok r := by
  induction k using Nat.strongRecOn generalizing ap mem r with
  | _ k ih =>
      intro hrun
      obtain ⟨k', hk, ap', mem', r', hnext, -, hsame⟩ := printfLoop_past h hoff hlone hrun
      have hback : p + BitVec.ofNat 32 (t.length + 1) = p := by
        rw [hlen]
        exact BitVec.add_zero p
      rw [hback] at hnext
      exact ih k' hk (h.mono fun x hx => ⟨hx, hsame x hx⟩) hnext

/-- 終端は、文字のどれとも違う場所にある。 -/
theorem TextAt.length_lt (h : TextAt .ok mem off p t) : t.length < 2 ^ 32 := by
  have hend : mem (p + BitVec.ofNat 32 t.length) = 0 := by
    induction t generalizing p with
    | nil =>
        rw [List.length_nil, BitVec.add_zero]
        exact h.last
    | cons c t ih =>
        rw [List.length_cons, ← add_one_add]
        exact ih h.byte.2.2
  have hchar : ∀ j < t.length, mem (p + BitVec.ofNat 32 j) ≠ 0 := by
    clear hend
    induction t generalizing p with
    | nil => exact fun j hj => absurd hj (Nat.not_lt_zero j)
    | cons c t ih =>
        obtain ⟨hc, h0, hrest⟩ := h.byte
        intro j hj
        cases j with
        | zero =>
            rw [BitVec.add_zero, hc]
            exact h0
        | succ j =>
            rw [← add_one_add]
            exact ih hrest j (Nat.lt_of_succ_lt_succ hj)
  by_contra hge
  refine hchar (t.length - 2 ^ 32) (by omega) ?_
  rw [show BitVec.ofNat 32 (t.length - 2 ^ 32) = BitVec.ofNat 32 t.length from
    BitVec.eq_of_toNat_eq (by rw [BitVec.toNat_ofNat, BitVec.toNat_ofNat]; omega)]
  exact hend

/-- 書式の通りに出すのは、`%` と次の文字を先頭から対にしたとき、最後に `%` が残らないときである。整数を出す書式は、`itoa` の配列の外に置く。 -/
theorem printf_prints_iff (hfmt : TextAt .ok mem (fun x => .int ∈ formatPieces t → OffStatic buf x) fmt t)
    (hargs : Matching buf mem (formatPieces t) ap ts) : PrintsFormat buf fmt t ap ts mem ↔ .lone ∉ formatPieces t := by
  have hoff : .int ∈ formatPieces t → ∀ x, (.int ∈ formatPieces t → OffStatic buf x) → OffStatic buf x := fun hint x hx => hx hint
  constructor
  · rintro ⟨r, ⟨n, hn⟩, -, hreads⟩ hlone
    obtain ⟨r', hrun, heq⟩ := bind_ok.1 (hn n (Nat.le_refl n))
    cases heq
    obtain ⟨k', -, ap', mem', r', hnext, hmore, -⟩ := printfLoop_past hfmt hoff hlone hrun
    obtain ⟨j, hj, heq⟩ := hreads _ (hmore _ (printfLoop_reads hnext))
    have hlen := hfmt.length_lt
    rcases Nat.lt_or_eq_of_le (Nat.succ_le_of_lt hlen) with hlt | hwrap
    · rw [add_ofNat_inj fmt hlt (by omega)] at heq
      omega
    · exact printfLoop_wraps hfmt hoff hlone hwrap hrun
  · intro hlone
    obtain ⟨n, r, hrun, hout, hreads⟩ := printfLoop_prints hfmt hoff hargs hlone
    refine ⟨r, ⟨max n (t.length + 1), fun fuel hfuel => ?_⟩, hout, hreads⟩
    exact bind_ok.2 ⟨r, hrun fuel fuel (by omega) (by omega), rfl⟩

/-- `0x1000` に書式 `"%s=%d"`、`0x2000` に `"ab"`、`0x3000` に書式 `"%"` があり、その終端の次に `"x"` がある。 -/
def printfMemory : Memory := fun x =>
  if x = 0x1000 ∨ x = 0x1003 ∨ x = 0x3000 then 0x25 else if x = 0x1001 then 0x73 else if x = 0x1002 then 0x3D
  else if x = 0x1004 then 0x64 else if x = 0x2000 then 0x61 else if x = 0x2001 then 0x62 else if x = 0x3002 then 0x78 else 0

theorem printf_prints_iff_pair : PrintsFormat 0x402000 0x1000 [0x25, 0x73, 0x3D, 0x25, 0x64] [0x2000, 5]
      [[0x61, 0x62], Decimal.decimal (5 : Word).toInt] printfMemory ↔
    .lone ∉ formatPieces [0x25, 0x73, 0x3D, 0x25, 0x64] :=
  printf_prints_iff (StrAt.textAt (q := 0x1000) (by decide) (fun _ _ => rfl) (by unfold OffStatic; decide))
    ⟨by decide, rfl, fun _ _ _ => rfl⟩

/-- `printf("%")` は、終端を文字として出し、その次の `x` も出す。 -/
theorem printf_prints_fails : StrAt printfMemory 0x3000 [0x25] ∧ Matching 0x402000 printfMemory (formatPieces [0x25]) [] [] ∧
    (∀ fuel, printf 0x402000 0x3000 [] printfMemory (fuel + 4) =
      .ok (0, ⟨printfMemory, [0, 0x78], [0x3000, 0x3001, 0x3002, 0x3003]⟩)) ∧
    ¬PrintsFormat 0x402000 0x3000 [0x25] [] [] printfMemory := by
  have hrun : ∀ fuel, printf 0x402000 0x3000 [] printfMemory (fuel + 4) =
      .ok (0, ⟨printfMemory, [0, 0x78], [0x3000, 0x3001, 0x3002, 0x3003]⟩) := fun fuel => rfl
  refine ⟨by decide, rfl, hrun, ?_⟩
  rintro ⟨r, ⟨n, hn⟩, hout, -⟩
  have heq := hn (n + 4) (Nat.le_add_right n 4)
  rw [hrun n] at heq
  cases heq
  revert hout
  decide

end EnkiOs
