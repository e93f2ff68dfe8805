import EnkiOs.Libc.Readline
import EnkiOs.Tty.Screen

/-!
# 打った行の表示

`enki_tty_readline` は、キーを読むたびに、そのまま端末に渡す。行の編集と端末のカーソルは別々に動くが、行の中で打つ限り、画面に見える行は、
`out` に残る行と一致する。
-/

namespace EnkiOs
open Machine

/-- `enki_putchar` を順に呼ぶ。システムコール 3 は、白い文字を書く。 -/
def ttyPutchars (t : Tty) (shown : List Byte) : Tty := shown.foldl (fun t c => ttyWritechar t c 15) t

theorem ttyPutchars_append (t : Tty) (xs ys : List Byte) : ttyPutchars t (xs ++ ys) = ttyPutchars (ttyPutchars t xs) ys :=
  List.foldl_append

/-- 空の行と画面の行の先頭では戻らず、制御文字を打たず、画面からはみ出さない打ち方。`p` は行の始まる位置、`r` は行の長さである。 -/
def Neat (n p : Nat) : List Byte → Nat → Prop
  | [], _ => True
  | key :: keys, r =>
      if n ≤ r ∨ key = 0x0D then True
      else if key = KEY_BACKSPACE then r ≠ 0 ∧ (p + r) % VGA_WIDTH ≠ 0 ∧ Neat n p keys (r - 1)
      else key ≠ 0x0A ∧ key ≠ 0x09 ∧ p + r < VGA_WIDTH * VGA_HEIGHT ∧ Neat n p keys (r + 1)

variable {out : Word} {max i : Int} {n k : Nat} {s : Typing} {t : Tty} {polls : List Word} {val : Word}
  {keys line page shown : List Byte} {key : Byte} {written : List Word}

/-- 改行でないキーは、画面に渡してから、行に加える。 -/
theorem readlineLoop_key (out : Word) (k : Nat) (h : i < max - 1) (hget : enkiGetkeyBlock s.polls = .ok (val, polls))
    (hkey : val.setWidth 8 = key) (hcr : key ≠ 0x0D) : readlineLoop true max out (k + 1) i s =
      if key = 0x08 ∧ i ≥ 1 then
        readlineLoop true max out k (i - 2 + 1) ⟨s.mem.put (out + BitVec.ofInt 32 (i - 1)) 0, s.shown ++ [key], polls⟩
      else readlineLoop true max out k (i + 1) ⟨s.mem.put (out + BitVec.ofInt 32 i) key, s.shown ++ [key], polls⟩ := by
  subst hkey
  rw [readlineLoop, if_pos h, hget]
  exact if_neg hcr

/-- 画面に書いた文字は、行の最後に加わる。 -/
theorem Displays.typed (h : Displays (ttyPutchars t shown) (page ++ line)) (hnl : key ≠ 0x0A) (htab : key ≠ 0x09)
    (hbs : key ≠ KEY_BACKSPACE) (hlt : page.length + line.length < VGA_WIDTH * VGA_HEIGHT) :
    Displays (ttyPutchars t (shown ++ [key])) (page ++ (line ++ [key])) := by
  have hpage : pageWritechar (page ++ line) key = page ++ (line ++ [key]) := by
    rw [pageWritechar, if_neg hnl, if_neg htab, if_neg hbs, List.append_assoc]
  have hfit : FitsPage (page ++ line) key := by
    refine ⟨?_, fun h => absurd h hbs⟩
    rw [hpage]
    simp only [List.length_append, List.length_singleton]
    omega
  have hwrite := h.writechar hfit 15
  rw [hpage] at hwrite
  rw [ttyPutchars_append]
  exact hwrite

theorem Displays.untyped (h : Displays (ttyPutchars t shown) (page ++ (line ++ [key])))
    (hcol : (page.length + (line.length + 1)) % VGA_WIDTH ≠ 0) (hle : page.length + line.length ≤ VGA_WIDTH * VGA_HEIGHT) :
    Displays (ttyPutchars t (shown ++ [0x08])) (page ++ line) := by
  rw [← List.append_assoc] at h
  have hpage : pageWritechar (page ++ line ++ [key]) 0x08 = page ++ line := List.dropLast_concat
  have hfit : FitsPage (page ++ line ++ [key]) 0x08 := by
    refine ⟨?_, fun _ => .inr ?_⟩
    · rw [hpage, List.length_append]
      exact hle
    · simp only [List.length_append, List.length_singleton]
      rw [Nat.add_assoc]
      exact hcol
  have hwrite := h.writechar hfit 15
  rw [hpage] at hwrite
  rw [ttyPutchars_append]
  exact hwrite

/-! ## 行の入力 -/

/-- 行を読み終えたときに、まだ読んでいないキー。`r` は行の長さである。 -/
def leftKeys (n : Nat) : List Byte → Nat → List Byte
  | [], _ => []
  | key :: keys, r =>
      if n ≤ r then key :: keys
      else if key = 0x0D then keys
      else if key = KEY_BACKSPACE then leftKeys n keys (r - 1)
      else leftKeys n keys (r + 1)

/-- `out` から `n + 1` バイトのほかは、同じである。 -/
def SameOutside (out : Word) (n : Nat) (mem mem' : Memory) : Prop :=
  ∀ x, (∀ j ≤ n, x ≠ out + BitVec.ofNat 32 j) → mem' x = mem x

theorem SameOutside.put (out : Word) (m : Logged) {j : Nat} (hj : j ≤ n) (c : Byte) :
    SameOutside out n m.mem (m.put (out + BitVec.ofNat 32 j) c).mem := fun _ hx => Memory.write_one_ne (hx j hj) c

theorem SameOutside.trans {mem mem' mem'' : Memory} (h : SameOutside out n mem mem') (h' : SameOutside out n mem' mem'') :
    SameOutside out n mem mem'' := fun x hx => (h' x hx).trans (h x hx)

/-- 行 `line` を読み終えて、画面にも `page` に続けて `line` が見える。 -/
structure Entered (t : Tty) (out : Word) (n : Nat) (written : List Word) (page line left : List Byte) (i : Int) (s s' : Typing) :
    Prop where
  holding : Holding out n written line i s'.mem
  clean : 0 ∉ line
  displays : Displays (ttyPutchars t s'.shown) (page ++ line)
  left : typed s'.polls = left
  outside : SameOutside out n s.mem.mem s'.mem.mem

/-- キーの列についての帰納法。書かれている行は、画面に見える行である。 -/
theorem readlineLoop_displays (hn : n < 2 ^ 31) (hmax : max = n + 1) (hkeys : 0 ∉ typed s.polls) (hcr : 0x0D ∈ typed s.polls)
    (hneat : Neat n page.length (typed s.polls) line.length) (hk : s.polls.length < k) (h : Holding out n written line i s.mem)
    (hline : 0 ∉ line) (hpage : page.length + line.length ≤ VGA_WIDTH * VGA_HEIGHT)
    (hd : Displays (ttyPutchars t s.shown) (page ++ line)) :
    ∃ i' s', readlineLoop true max out k i s = .ok (i', s') ∧
      Entered t out n written page (editLine n (typed s.polls) line) (leftKeys n (typed s.polls) line.length) i' s s' := by
  generalize hpolls : typed s.polls = keys at hkeys hcr hneat ⊢
  induction keys generalizing s k i line with
  | nil => cases hcr
  | cons key keys ih =>
      obtain ⟨k, rfl⟩ : ∃ l, k = l + 1 := ⟨k - 1, by omega⟩
      obtain ⟨val, rest, hget, hkey, hrest, hlt⟩ := enkiGetkeyBlock_typed hpolls
      have hindex := h.index
      have hlt' : rest.length < k := Nat.lt_of_lt_of_le hlt (Nat.le_of_lt_succ hk)
      rw [Neat] at hneat
      rw [editLine, leftKeys]
      by_cases hstop : n ≤ line.length ∨ key = 0x0D
      · rw [if_pos hstop]
        by_cases hfull : n ≤ line.length
        · rw [if_pos hfull]
          exact ⟨i, s, readlineLoop_full (by omega), h, hline, hd, hpolls, fun _ _ => rfl⟩
        · have hret := hstop.resolve_left hfull
          rw [if_neg hfull, if_pos hret]
          exact ⟨i, _, readlineLoop_return (by omega) hget hkey hret, h, hline, hd, hrest, fun _ _ => rfl⟩
      · rw [if_neg hstop] at hneat ⊢
        obtain ⟨hroom, hret⟩ := not_or.1 hstop
        rw [if_neg hroom, if_neg hret]
        have hkeys' : 0 ∉ keys := fun h0 => hkeys (List.mem_cons_of_mem _ h0)
        have hcr' : 0x0D ∈ keys := (List.mem_cons.1 hcr).resolve_left (Ne.symm hret)
        have hstep := readlineLoop_key out k (show i < max - 1 by omega) hget hkey hret
        by_cases hbs : key = 0x08
        · rw [if_pos hbs] at hneat ⊢
          rw [if_pos hbs]
          obtain ⟨hne, hcol, hneat⟩ := hneat
          have hends := List.eq_nil_or_concat line
          simp only [List.concat_eq_append] at hends
          rcases hends with rfl | ⟨line, last, rfl⟩
          · exact absurd rfl hne
          · rw [List.length_append, List.length_singleton] at hpage hcol hneat hindex hroom
            have hi : i - 1 = (line.length : Int) := by omega
            rw [List.dropLast_concat, List.length_append, List.length_singleton]
            rw [if_pos ⟨hbs, by omega⟩] at hstep
            have hd' := hd.untyped hcol (by omega)
            rw [← hbs] at hd'
            obtain ⟨i', s', hrun, hres⟩ := ih (s := ⟨s.mem.put (out + BitVec.ofInt 32 (i - 1)) 0, s.shown ++ [key], rest⟩) hlt'
              (h.erase hn) (fun h0 => hline (List.mem_append_left _ h0)) (by omega) hd' hrest hkeys' hcr' hneat
            refine ⟨i', s', hstep.trans hrun, hres.holding, hres.clean, hres.displays, hres.left, ?_⟩
            have hput := SameOutside.put out s.mem (show line.length ≤ n by omega) 0
            rw [← BitVec.ofInt_natCast, ← hi] at hput
            exact hput.trans hres.outside
        · rw [if_neg hbs] at hneat ⊢
          rw [if_neg hbs]
          obtain ⟨hnl, htab, hfit, hneat⟩ := hneat
          rw [if_neg (fun h => hbs h.1)] at hstep
          have hclean : 0 ∉ line ++ [key] := by
            intro h0
            rcases List.mem_append.1 h0 with h0 | h0
            · exact hline h0
            · exact hkeys (List.mem_singleton.1 h0 ▸ List.mem_cons_self)
          have hlen : (line ++ [key]).length = line.length + 1 := by rw [List.length_append, List.length_singleton]
          rw [← hlen] at hneat ⊢
          obtain ⟨i', s', hrun, hres⟩ := ih (s := ⟨s.mem.put (out + BitVec.ofInt 32 i) key, s.shown ++ [key], rest⟩) hlt'
            (h.push hn (Nat.not_le.1 hroom) key) hclean (by omega) (hd.typed hnl htab hbs hfit) hrest hkeys' hcr' hneat
          refine ⟨i', s', hstep.trans hrun, hres.holding, hres.clean, hres.displays, hres.left, ?_⟩
          have hput := SameOutside.put out s.mem h.room key
          rw [← BitVec.ofInt_natCast, ← hindex] at hput
          exact hput.trans hres.outside

/-- 行を読むと、`out` の行と画面の行が一致し、読み終えたキーの次から、まだ読まれずに残る。 -/
theorem enkiTtyReadline_entered (out : Word) (hpos : 1 ≤ max) (hint : max < 2 ^ 31) (hkeys : 0 ∉ typed s.polls)
    (hcr : 0x0D ∈ typed s.polls)
    (hneat : Neat (max - 1).toNat page.length (typed s.polls) 0) (hpage : page.length ≤ VGA_WIDTH * VGA_HEIGHT)
    (hd : Displays (ttyPutchars t s.shown) page) :
    ∃ s', enkiTtyReadline out max true s = .ok s' ∧ StrAt s'.mem.mem out (editLine (max - 1).toNat (typed s.polls) []) ∧
      Displays (ttyPutchars t s'.shown) (page ++ editLine (max - 1).toNat (typed s.polls) []) ∧
      typed s'.polls = leftKeys (max - 1).toNat (typed s.polls) 0 ∧ SameOutside out (max - 1).toNat s.mem.mem s'.mem.mem := by
  obtain ⟨n, rfl⟩ : ∃ n : Nat, max = n + 1 := ⟨(max - 1).toNat, by omega⟩
  rw [show ((n : Int) + 1 - 1).toNat = n by omega] at hneat ⊢
  have hn : n < 2 ^ 31 := by omega
  have hempty : Holding out n s.mem.written [] 0 s.mem := ⟨rfl, Nat.zero_le n, rfl, fun _ => .inl⟩
  rw [← List.append_nil page] at hd
  obtain ⟨i, s', hrun, hres⟩ := readlineLoop_displays hn rfl hkeys hcr hneat (Nat.lt_succ_self _) hempty List.not_mem_nil hpage hd
  refine ⟨_, bind_ok.2 ⟨(i, s'), hrun, rfl⟩, hres.holding.strAt hn hres.clean, hres.displays, hres.left, ?_⟩
  have hput := SameOutside.put out s'.mem hres.holding.room 0
  rw [← BitVec.ofInt_natCast, ← hres.holding.index] at hput
  exact hres.outside.trans hput

end EnkiOs
