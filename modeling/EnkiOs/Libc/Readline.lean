import EnkiOs.Libc.Copy

/-!
# 一行の入力

`libc/enki/enki.c` の `enki_tty_readline`。`enki_getkey` が返す値の列を渡し、尽きると、次のキーを待ったまま終わらない。`shown` は、
`enki_putchar` に渡した文字の列である。
-/

namespace EnkiOs
open Machine

/-- 0 でない値が返るまで待つ。 -/
def enkiGetkeyBlock : List Word → Except Fault (Word × List Word)
  | [] => .error .hang
  | val :: polls => if val = 0 then enkiGetkeyBlock polls else .ok (val, polls)

structure Typing where
  mem : Logged
  shown : List Byte
  polls : List Word

/-- 残りの上限と `i` を持つ。`i -= 2` の後に、`for` の `i++` が続く。 -/
def readlineLoop (showTyping : Bool) (max : Int) (out : Word) : Nat → Int → Typing → Except Fault (Int × Typing)
  | 0, _, _ => .error .hang
  | k + 1, i, s =>
      if i < max - 1 then do
        let (val, polls) ← enkiGetkeyBlock s.polls
        let key : Byte := val.setWidth 8
        if key = 0x0D then return (i, { s with polls := polls })
        let shown := if showTyping then s.shown ++ [key] else s.shown
        if key = 0x08 ∧ i ≥ 1 then
          readlineLoop showTyping max out k (i - 2 + 1) ⟨s.mem.put (out + BitVec.ofInt 32 (i - 1)) 0, shown, polls⟩
        else readlineLoop showTyping max out k (i + 1) ⟨s.mem.put (out + BitVec.ofInt 32 i) key, shown, polls⟩
      else .ok (i, s)

/-- 一回りで値を一つは読むので、上限は値の数で足りる。 -/
def enkiTtyReadline (out : Word) (max : Int) (showTyping : Bool) (s : Typing) : Except Fault Typing := do
  let (i, s) ← readlineLoop showTyping max out (s.polls.length + 1) 0 s
  return { s with mem := s.mem.put (out + BitVec.ofInt 32 i) 0 }

/-! ## 行の編集 -/

/-- 読まれるキーの列。 -/
def typed (polls : List Word) : List Byte := (polls.filter (· ≠ 0)).map (·.setWidth 8)

/-- 改行か、`n` 文字になるまで、キーを順に行に加える。 -/
def editLine (n : Nat) : List Byte → List Byte → List Byte
  | [], line => line
  | key :: keys, line =>
      if n ≤ line.length ∨ key = 0x0D then line
      else if key = 0x08 then editLine n keys line.dropLast
      else editLine n keys (line ++ [key])

/-- `max` バイトの `out` の中だけに書き、打った行を、終端を付けて残す。 -/
def EditsLine (out : Word) (max : Int) (showTyping : Bool) (s : Typing) : Prop :=
  ∃ s', enkiTtyReadline out max showTyping s = .ok s' ∧
    (∀ a ∈ s'.mem.written, a ∈ s.mem.written ∨ ∃ j : Nat, j < max ∧ a = out + BitVec.ofNat 32 j) ∧
    StrAt s'.mem.mem out (editLine (max - 1).toNat (typed s.polls) [])

/-- 空の行で打った backspace が、読み終わるときに偶数回である。`r` は行の長さで、奇数回のときは `odd` とする。奇数回なら、行は一文字早く
埋まる。 -/
def Paired (n : Nat) : List Byte → Nat → Bool → Prop
  | [], _, odd => odd = false
  | key :: keys, r, odd =>
      if n ≤ r + odd.toNat ∨ key = 0x0D then odd = false
      else if key = 0x08 then Paired n keys (r - 1) (if r = 0 then !odd else odd)
      else Paired n keys (r + 1) odd

variable {out : Word} {max i : Int} {n k : Nat} {showTyping odd : Bool} {s : Typing} {polls : List Word} {val : Word}
  {keys line : List Byte} {key : Byte} {m : Logged} {written : List Word}

theorem erase_not_mem_editLine (n : Nat) (keys : List Byte) (hline : 0x08 ∉ line) : 0x08 ∉ editLine n keys line := by
  induction keys generalizing line with
  | nil => exact hline
  | cons key keys ih =>
      rw [editLine]
      split
      · exact hline
      · split
        · exact ih fun hmem => hline ((List.dropLast_sublist line).subset hmem)
        · rename_i hkey
          refine ih fun hmem => ?_
          rcases List.mem_append.1 hmem with hmem | hmem
          · exact hline hmem
          · exact hkey (List.mem_singleton.1 hmem).symm

/-! ## 書かれている行 -/

/-- `out` から `line` が書かれ、`i` がその長さである。 -/
structure Holding (out : Word) (n : Nat) (written : List Word) (line : List Byte) (i : Int) (m : Logged) : Prop where
  index : i = line.length
  room : line.length ≤ n
  text : m.mem.read out line.length = line
  within : ∀ a ∈ m.written, a ∈ written ∨ ∃ j ≤ n, a = out + BitVec.ofNat 32 j

theorem Holding.put_within (h : Holding out n written line i m) {j : Nat} (hj : j ≤ n) (c : Byte) :
    ∀ a ∈ (m.put (out + BitVec.ofNat 32 j) c).written, a ∈ written ∨ ∃ j ≤ n, a = out + BitVec.ofNat 32 j := by
  intro a ha
  rcases List.mem_cons.1 ha with rfl | ha
  · exact .inr ⟨j, hj, rfl⟩
  · exact h.within a ha

theorem Holding.push (h : Holding out n written line i m) (hn : n < 2 ^ 31) (hroom : line.length < n) (key : Byte) :
    Holding out n written (line ++ [key]) (i + 1) (m.put (out + BitVec.ofInt 32 i) key) := by
  obtain rfl := h.index
  rw [BitVec.ofInt_natCast]
  refine ⟨by simp, by simpa using Nat.succ_le_of_lt hroom, ?_, h.put_within h.room key⟩
  simp only [Logged.put, List.length_append, List.length_singleton]
  rw [Memory.read_concat, write_one, Memory.read_write_after _ _ _ (by simp; omega), h.text]

theorem Holding.erase (h : Holding out n written (line ++ [key]) i m) (hn : n < 2 ^ 31) :
    Holding out n written line (i - 2 + 1) (m.put (out + BitVec.ofInt 32 (i - 1)) 0) := by
  have hroom := h.room
  have htext := h.text
  have hindex := h.index
  rw [List.length_append, List.length_singleton] at hroom htext hindex
  have hi : i - 1 = (line.length : Int) := by omega
  rw [hi, BitVec.ofInt_natCast]
  refine ⟨by omega, by omega, ?_, h.put_within (by omega) 0⟩
  rw [Memory.read_concat] at htext
  rw [Logged.put, Memory.read_write_after _ _ _ (by simp; omega)]
  exact (List.append_inj htext (by simp)).1

/-- 終端を書くと、行の文字列になる。 -/
theorem Holding.strAt (h : Holding out n written line i m) (hn : n < 2 ^ 31) (hline : 0 ∉ line) :
    StrAt (m.put (out + BitVec.ofInt 32 i) 0).mem out line := by
  have hroom := h.room
  rw [h.index, BitVec.ofInt_natCast]
  refine strAt_read ?_ (write_one _ _ _) fun c hc h0 => hline (h0 ▸ hc)
  rw [Logged.put, Memory.read_write_after _ _ _ (by simp; omega), h.text]

/-! ## キーを読む -/

theorem enkiGetkeyBlock_typed (h : typed polls = key :: keys) :
    ∃ val rest, enkiGetkeyBlock polls = .ok (val, rest) ∧ val.setWidth 8 = key ∧ typed rest = keys ∧ rest.length < polls.length := by
  induction polls with
  | nil => cases h
  | cons val polls ih =>
      rw [enkiGetkeyBlock]
      by_cases h0 : val = 0
      · rw [typed, List.filter_cons_of_neg (by simpa using h0)] at h
        obtain ⟨val', rest, hget, hkey, hrest, hlt⟩ := ih h
        rw [if_pos h0]
        exact ⟨val', rest, hget, hkey, hrest, Nat.lt_succ_of_lt hlt⟩
      · rw [typed, List.filter_cons_of_pos (by simpa using h0), List.map_cons] at h
        rw [if_neg h0]
        obtain ⟨hkey, hkeys⟩ := List.cons_eq_cons.1 h
        exact ⟨val, polls, rfl, hkey, hkeys, Nat.lt_succ_self _⟩

theorem readlineLoop_full (h : ¬i < max - 1) : readlineLoop showTyping max out (k + 1) i s = .ok (i, s) := if_neg h

theorem readlineLoop_return (h : i < max - 1) (hget : enkiGetkeyBlock s.polls = .ok (val, polls)) (hkey : val.setWidth 8 = key)
    (hcr : key = 0x0D) : readlineLoop showTyping max out (k + 1) i s = .ok (i, { s with polls := polls }) := by
  subst hkey
  rw [readlineLoop, if_pos h]
  exact bind_ok.2 ⟨_, hget, if_pos hcr⟩

theorem readlineLoop_erase (showTyping : Bool) (out : Word) (k : Nat) (h : i < max - 1)
    (hget : enkiGetkeyBlock s.polls = .ok (val, polls)) (hkey : val.setWidth 8 = key) (hbs : key = 0x08) (hi : i ≥ 1) :
    ∃ shown, readlineLoop showTyping max out (k + 1) i s =
      readlineLoop showTyping max out k (i - 2 + 1) ⟨s.mem.put (out + BitVec.ofInt 32 (i - 1)) 0, shown, polls⟩ := by
  subst hkey
  refine ⟨if showTyping then s.shown ++ [val.setWidth 8] else s.shown, ?_⟩
  rw [readlineLoop, if_pos h, hget]
  exact (if_neg (by rw [hbs]; decide)).trans (if_pos ⟨hbs, hi⟩)

theorem readlineLoop_push (showTyping : Bool) (out : Word) (k : Nat) (h : i < max - 1)
    (hget : enkiGetkeyBlock s.polls = .ok (val, polls)) (hkey : val.setWidth 8 = key) (hcr : key ≠ 0x0D)
    (hbs : ¬(key = 0x08 ∧ i ≥ 1)) : ∃ shown, readlineLoop showTyping max out (k + 1) i s =
      readlineLoop showTyping max out k (i + 1) ⟨s.mem.put (out + BitVec.ofInt 32 i) key, shown, polls⟩ := by
  subst hkey
  refine ⟨if showTyping then s.shown ++ [val.setWidth 8] else s.shown, ?_⟩
  rw [readlineLoop, if_pos h, hget]
  exact (if_neg hcr).trans (if_neg hbs)

/-! ## 残った backspace -/

/-- 空の行での backspace が奇数回のときは、それが行の前に残る。 -/
def stray (odd : Bool) : List Byte := if odd then [0x08] else []

theorem length_stray (odd : Bool) : (stray odd).length = odd.toNat := by cases odd <;> rfl

/-- 一続きの入力の結果。偶数回で終われば、編集した行である。 -/
structure Typed (out : Word) (n : Nat) (written : List Word) (keys line : List Byte) (odd : Bool) (i : Int) (m : Logged)
    (line' : List Byte) (odd' : Bool) : Prop where
  holding : Holding out n written (stray odd' ++ line') i m
  clean : 0 ∉ line'
  edited : odd' = false → line' = editLine n keys line
  paired : Paired n keys line.length odd ↔ odd' = false

theorem Typed.step {line₁ line' : List Byte} {odd₁ odd' : Bool} (h : Typed out n written keys line₁ odd₁ i m line' odd')
    (hedit : editLine n (key :: keys) line = editLine n keys line₁)
    (hpair : Paired n (key :: keys) line.length odd ↔ Paired n keys line₁.length odd₁) :
    Typed out n written (key :: keys) line odd i m line' odd' :=
  ⟨h.holding, h.clean, fun hodd => (h.edited hodd).trans hedit.symm, hpair.trans h.paired⟩

/-- 行が埋まる前に、改行でないキーを一つ読む。空の行の backspace は、行の前に残るか、残ったものを消す。 -/
theorem readlineLoop_step (showTyping : Bool) (k : Nat) (hn : n < 2 ^ 31) (hmax : max = n + 1)
    (hget : enkiGetkeyBlock s.polls = .ok (val, polls)) (hkey : val.setWidth 8 = key) (hret : key ≠ 0x0D) (hkey0 : key ≠ 0)
    (hfull : ¬n ≤ line.length + odd.toNat) (h : Holding out n written (stray odd ++ line) i s.mem) (hline : 0 ∉ line) :
    ∃ i₁ m₁ shown line₁ odd₁,
      readlineLoop showTyping max out (k + 1) i s = readlineLoop showTyping max out k i₁ ⟨m₁, shown, polls⟩ ∧
      Holding out n written (stray odd₁ ++ line₁) i₁ m₁ ∧ 0 ∉ line₁ ∧ editLine n (key :: keys) line = editLine n keys line₁ ∧
      (Paired n (key :: keys) line.length odd ↔ Paired n keys line₁.length odd₁) := by
  have hindex := h.index
  rw [List.length_append, length_stray] at hindex
  have hi : i < max - 1 := by omega
  have hedit : ¬(n ≤ line.length ∨ key = 0x0D) := fun h => h.elim (fun hle => hfull (by omega)) hret
  have hpair : ¬(n ≤ line.length + odd.toNat ∨ key = 0x0D) := fun h => h.elim hfull hret
  have hpush := h.push hn (by rw [List.length_append, length_stray]; omega) key
  rw [editLine, if_neg hedit, Paired, if_neg hpair]
  by_cases hbs : key = 0x08
  · rw [if_pos hbs, if_pos hbs]
    have hends := List.eq_nil_or_concat line
    simp only [List.concat_eq_append] at hends
    rcases hends with rfl | ⟨line, x, rfl⟩
    · rw [List.append_nil] at h hpush
      rw [List.length_nil, Nat.add_zero] at hindex
      cases odd with
      | false =>
          -- 空の行では、backspace も文字として書かれる。
          obtain ⟨shown, hstep⟩ := readlineLoop_push showTyping out k hi hget hkey hret (by rw [hindex]; simp)
          subst hbs
          exact ⟨_, _, shown, [], true, hstep, hpush, by simp, rfl, Iff.rfl⟩
      | true =>
          obtain ⟨shown, hstep⟩ := readlineLoop_erase showTyping out k hi hget hkey hbs (by rw [hindex]; decide)
          exact ⟨_, _, shown, [], false, hstep, h.erase hn, by simp, rfl, Iff.rfl⟩
    · rw [← List.append_assoc] at h
      obtain ⟨shown, hstep⟩ := readlineLoop_erase showTyping out k hi hget hkey hbs (by simp at hindex; omega)
      refine ⟨_, _, shown, line, odd, hstep, h.erase hn, fun h0 => hline (List.mem_append_left _ h0), ?_, ?_⟩
      · rw [List.dropLast_concat]
      · simp
  · rw [if_neg hbs, if_neg hbs]
    obtain ⟨shown, hstep⟩ := readlineLoop_push showTyping out k hi hget hkey hret fun h => hbs h.1
    rw [List.append_assoc] at hpush
    refine ⟨_, _, shown, line ++ [key], odd, hstep, hpush, ?_, rfl, ?_⟩
    · intro h0
      rcases List.mem_append.1 h0 with h0 | h0
      · exact hline h0
      · exact hkey0 (List.mem_singleton.1 h0).symm
    · rw [List.length_append, List.length_singleton]

/-- キーの列についての帰納法。書かれている行は、編集した行と一致するか、その前に backspace が一つ残る。 -/
theorem readlineLoop_typed (showTyping : Bool) (hn : n < 2 ^ 31) (hmax : max = n + 1) (hkeys : 0 ∉ typed s.polls)
    (hcr : 0x0D ∈ typed s.polls) (hk : s.polls.length < k) (h : Holding out n written (stray odd ++ line) i s.mem)
    (hline : 0 ∉ line) : ∃ i' s' line' odd', readlineLoop showTyping max out k i s = .ok (i', s') ∧
      Typed out n written (typed s.polls) line odd i' s'.mem line' odd' := by
  generalize hpolls : typed s.polls = keys at hkeys hcr ⊢
  induction keys generalizing s k i line odd with
  | nil => cases hcr
  | cons key keys ih =>
      obtain ⟨k, rfl⟩ : ∃ l, k = l + 1 := ⟨k - 1, by omega⟩
      obtain ⟨val, rest, hget, hkey, hrest, hlt⟩ := enkiGetkeyBlock_typed hpolls
      have hindex := h.index
      rw [List.length_append, length_stray] at hindex
      by_cases hfull : n ≤ line.length + odd.toNat
      · refine ⟨i, s, line, odd, readlineLoop_full (by omega), h, hline, ?_, ?_⟩
        · rintro rfl
          rw [editLine, if_pos (.inl hfull)]
        · rw [Paired, if_pos (.inl hfull)]
      · by_cases hret : key = 0x0D
        · refine ⟨i, _, line, odd, readlineLoop_return (by omega) hget hkey hret, h, hline, fun _ => ?_, ?_⟩
          · rw [editLine, if_pos (.inr hret)]
          · rw [Paired, if_pos (.inr hret)]
        · have hkey0 : key ≠ 0 := fun h0 => hkeys (h0 ▸ List.mem_cons_self)
          have hkeys' : 0 ∉ keys := fun h0 => hkeys (List.mem_cons_of_mem _ h0)
          have hcr' : 0x0D ∈ keys := (List.mem_cons.1 hcr).resolve_left (Ne.symm hret)
          obtain ⟨i₁, m₁, shown, line₁, odd₁, hstep, hholding, hclean, hedit, hpair⟩ :=
            readlineLoop_step showTyping k hn hmax hget hkey hret hkey0 hfull h hline
          have hlt' : (⟨m₁, shown, rest⟩ : Typing).polls.length < k := Nat.lt_of_lt_of_le hlt (Nat.le_of_lt_succ hk)
          obtain ⟨i', s', line', odd', hrun, hres⟩ := ih hlt' hholding hclean hrest hkeys' hcr'
          exact ⟨i', s', line', odd', hstep.trans hrun, hres.step hedit hpair⟩

/-- どの入力でも、`out` の中だけに書き、打った行か、その前に backspace を一つ付けた行を残す。 -/
theorem enkiTtyReadline_typed (showTyping : Bool) (out : Word) (hpos : 1 ≤ max) (hint : max < 2 ^ 31) (hkeys : 0 ∉ typed s.polls)
    (hcr : 0x0D ∈ typed s.polls) : ∃ s' line odd, enkiTtyReadline out max showTyping s = .ok s' ∧
      (∀ a ∈ s'.mem.written, a ∈ s.mem.written ∨ ∃ j : Nat, j < max ∧ a = out + BitVec.ofNat 32 j) ∧
      StrAt s'.mem.mem out (stray odd ++ line) ∧ (odd = false → line = editLine (max - 1).toNat (typed s.polls) []) ∧
      (Paired (max - 1).toNat (typed s.polls) 0 false ↔ odd = false) := by
  obtain ⟨n, rfl⟩ : ∃ n : Nat, max = n + 1 := ⟨(max - 1).toNat, by omega⟩
  rw [show ((n : Int) + 1 - 1).toNat = n by omega]
  have hn : n < 2 ^ 31 := by omega
  have hempty : Holding out n s.mem.written (stray false ++ []) 0 s.mem := ⟨rfl, Nat.zero_le n, rfl, fun _ => .inl⟩
  obtain ⟨i, s', line, odd, hrun, hres⟩ := readlineLoop_typed showTyping hn rfl hkeys hcr (Nat.lt_succ_self _) hempty
    List.not_mem_nil
  refine ⟨_, line, odd, bind_ok.2 ⟨(i, s'), hrun, rfl⟩, ?_, ?_, hres.edited, hres.paired⟩
  · intro a ha
    rw [hres.holding.index, BitVec.ofInt_natCast] at ha
    rcases hres.holding.put_within hres.holding.room 0 a ha with ha | ⟨j, hj, rfl⟩
    · exact .inl ha
    · exact .inr ⟨j, by omega, rfl⟩
  · refine hres.holding.strAt hn fun h0 => ?_
    rcases List.mem_append.1 h0 with h0 | h0
    · cases odd <;> simp [stray] at h0
    · exact hres.clean h0

/-- 打った行が残るのは、空の行で打った backspace が、読み終わるときに偶数回であるときである。 -/
theorem readline_edits_iff (hpos : 1 ≤ max) (hint : max < 2 ^ 31) (hkeys : 0 ∉ typed s.polls) (hcr : 0x0D ∈ typed s.polls) :
    EditsLine out max showTyping s ↔ Paired (max - 1).toNat (typed s.polls) 0 false := by
  obtain ⟨s', line, odd, hrun, hwithin, hstr, hedited, hpaired⟩ := enkiTtyReadline_typed showTyping out hpos hint hkeys hcr
  rw [hpaired]
  constructor
  · rintro ⟨s'', hrun', -, hstr'⟩
    rw [hrun] at hrun'
    cases hrun'
    cases odd with
    | false => rfl
    | true =>
        have hline := hstr.unique hstr'
        have hclean := erase_not_mem_editLine (max - 1).toNat (typed s.polls) (List.not_mem_nil (a := 0x08))
        rw [← hline] at hclean
        exact absurd List.mem_cons_self hclean
  · rintro rfl
    refine ⟨s', hrun, hwithin, ?_⟩
    rw [← hedited rfl]
    exact hstr

/-- `keys` を順に打つ。キーボードは、初めの値だけを読ませる。 -/
def typing (keys : List Byte) : Typing := ⟨⟨fun _ => 0xFF, []⟩, [], 0 :: keys.map (·.signExtend 32)⟩

theorem readline_edits_iff_ab : EditsLine 0x1000 1024 true (typing [0x61, 0x62, 0x08, 0x0D]) ↔
    Paired 1023 [0x61, 0x62, 0x08, 0x0D] 0 false :=
  readline_edits_iff (s := typing [0x61, 0x62, 0x08, 0x0D]) (by decide) (by decide) (by decide) (by decide)

/-- backspace の後に改行を打つと、空の行ではなく、backspace の文字が残る。 -/
theorem readline_edits_fails : 0 ∉ typed (typing [0x08, 0x0D]).polls ∧ 0x0D ∈ typed (typing [0x08, 0x0D]).polls ∧
    editLine 1023 [0x08, 0x0D] [] = [] ∧
    (∃ s', enkiTtyReadline 0x1000 1024 true (typing [0x08, 0x0D]) = .ok s' ∧ StrAt s'.mem.mem 0x1000 [0x08]) ∧
    ¬EditsLine 0x1000 1024 true (typing [0x08, 0x0D]) := by
  refine ⟨by decide, by decide, by decide, ⟨_, rfl, by decide⟩, ?_⟩
  rintro ⟨s', hrun, -, hstr⟩
  cases hrun
  revert hstr
  decide

end EnkiOs
