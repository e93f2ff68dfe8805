import EnkiOs.Programs.Shell

/-!
# シェルの画面
-/

namespace EnkiOs
open Machine Fuel

variable {d : ShellData} {s : Typing} {t : Tty} {n p r : Nat} {keys line page rest shown text : List Byte} {a : Word}

/-! ## 改行までのキー -/

theorem editLine_stop (hcr : 0x0D ∉ keys) (hlen : line.length + keys.length < n) (rest : List Byte) :
    editLine n (keys ++ 0x0D :: rest) line = editLine n keys line := by
  induction keys generalizing line with
  | nil =>
      rw [List.nil_append, editLine, editLine, if_pos (.inr rfl)]
  | cons key keys ih =>
      rw [List.length_cons] at hlen
      have hret : key ≠ 0x0D := fun h => hcr (h ▸ List.mem_cons_self)
      have hcr' : 0x0D ∉ keys := fun h => hcr (List.mem_cons_of_mem _ h)
      have hstop : ¬(n ≤ line.length ∨ key = 0x0D) := fun h => h.elim (by omega) hret
      rw [List.cons_append, editLine, editLine, if_neg hstop, if_neg hstop]
      split
      · exact ih hcr' (by rw [List.length_dropLast]; omega)
      · exact ih hcr' (by rw [List.length_append, List.length_singleton]; omega)

theorem leftKeys_stop (hcr : 0x0D ∉ keys) (hlen : r + keys.length < n) (rest : List Byte) :
    leftKeys n (keys ++ 0x0D :: rest) r = rest := by
  induction keys generalizing r with
  | nil =>
      rw [List.length_nil] at hlen
      rw [List.nil_append, leftKeys, if_neg (by omega), if_pos rfl]
  | cons key keys ih =>
      rw [List.length_cons] at hlen
      have hret : key ≠ 0x0D := fun h => hcr (h ▸ List.mem_cons_self)
      have hcr' : 0x0D ∉ keys := fun h => hcr (List.mem_cons_of_mem _ h)
      rw [List.cons_append, leftKeys, if_neg (by omega), if_neg hret]
      split
      · exact ih hcr' (by omega)
      · exact ih hcr' (by omega)

theorem Neat.stop (h : Neat n p keys r) (hcr : 0x0D ∉ keys) (hlen : r + keys.length < n) (rest : List Byte) :
    Neat n p (keys ++ 0x0D :: rest) r := by
  induction keys generalizing r with
  | nil =>
      rw [List.nil_append, Neat, if_pos (.inr rfl)]
      trivial
  | cons key keys ih =>
      rw [List.length_cons] at hlen
      have hret : key ≠ 0x0D := fun h => hcr (h ▸ List.mem_cons_self)
      have hcr' : 0x0D ∉ keys := fun h => hcr (List.mem_cons_of_mem _ h)
      have hstop : ¬(n ≤ r ∨ key = 0x0D) := fun h => h.elim (by omega) hret
      rw [Neat, if_neg hstop] at h
      rw [List.cons_append, Neat, if_neg hstop]
      split
      · rename_i hbs
        rw [if_pos hbs] at h
        exact ⟨h.1, h.2.1, ih h.2.2 hcr' (by omega)⟩
      · rename_i hbs
        rw [if_neg hbs] at h
        exact ⟨h.1, h.2.1, h.2.2.1, ih h.2.2.2 hcr' (by omega)⟩

/-- 編集した行には、制御文字が無い。 -/
theorem Neat.printable (h : Neat n p keys line.length) (hline : ∀ c ∈ line, Printable c) :
    ∀ c ∈ editLine n keys line, Printable c := by
  induction keys generalizing line with
  | nil => exact hline
  | cons key keys ih =>
      rw [Neat] at h
      rw [editLine]
      split
      · exact hline
      · rename_i hstop
        rw [if_neg hstop] at h
        split
        · rename_i hbs
          rw [if_pos hbs] at h
          refine ih ?_ fun c hc => hline c ((List.dropLast_sublist line).subset hc)
          rw [List.length_dropLast]
          exact h.2.2
        · rename_i hbs
          rw [if_neg hbs] at h
          refine ih ?_ ?_
          · rw [List.length_append, List.length_singleton]
            exact h.2.2.2
          · intro c hc
            rcases List.mem_append.1 hc with hc | hc
            · exact hline c hc
            · rw [List.mem_singleton.1 hc]
              exact ⟨h.1, h.2.1, hbs⟩

/-! ## 画面への出力 -/

theorem Displays.printed (hd : Displays (ttyPutchars t shown) page) (text : List Byte) (htext : ∀ c ∈ text, Printable c)
    (hfit : page.length + text.length ≤ VGA_WIDTH * VGA_HEIGHT) : Displays (ttyPutchars t (shown ++ text)) (page ++ text) := by
  induction text using List.reverseRecOn with
  | nil =>
      rw [List.append_nil, List.append_nil]
      exact hd
  | append_singleton text c ih =>
      rw [List.length_append, List.length_singleton] at hfit
      have hbefore := ih (fun c hc => htext c (List.mem_append_left _ hc)) (by omega)
      obtain ⟨hnl, htab, hbs⟩ := htext c (List.mem_append_right _ List.mem_cons_self)
      rw [← List.append_assoc shown]
      exact hbefore.typed hnl htab hbs (by omega)

theorem Displays.lineFeed (hd : Displays (ttyPutchars t shown) page)
    (hfit : (Page.newline VGA_WIDTH 0x20 page).length ≤ VGA_WIDTH * VGA_HEIGHT) :
    Displays (ttyPutchars t (shown ++ [0x0A])) (Page.newline VGA_WIDTH 0x20 page) := by
  rw [ttyPutchars_append]
  have hpage : FitsPage page 0x0A := ⟨hfit, fun h => absurd h (by decide)⟩
  exact hd.writechar hpage 15

theorem StrAt.drop {mem : Memory} (h : StrAt mem a line) (hle : n ≤ line.length) :
    StrAt mem (a + BitVec.ofNat 32 n) (line.drop n) := by
  induction n generalizing a line with
  | zero =>
      rw [BitVec.add_zero]
      exact h
  | succ n ih =>
      cases line with
      | nil => exact absurd hle (Nat.not_succ_le_zero n)
      | cons c line =>
          rw [← add_one_add]
          exact ih h.2.2 (Nat.le_of_succ_le_succ hle)

/-! ## 一回り -/

/-- 打った行の後に、`echo` の出した行が続く。 -/
def echoTurn (page keys : List Byte) : List Byte :=
  let line := editLine 1023 keys []
  Page.newline VGA_WIDTH 0x20 (Page.newline VGA_WIDTH 0x20 (page ++ promptText ++ line) ++ line.drop 5)

/-- 画面に収まるように打った、`echo` の一行。 -/
structure EchoRound (page keys : List Byte) : Prop where
  short : keys.length < 1023
  noReturn : 0x0D ∉ keys
  nonzero : 0 ∉ keys
  neat : Neat 1023 (page.length + 2) keys 0
  echo : echoText <+: editLine 1023 keys []
  spaced : 5 ≤ (editLine 1023 keys []).length
  fits : (echoTurn page keys).length ≤ VGA_WIDTH * VGA_HEIGHT

/-- 途中のどの画面も、一回りの後の画面より長くない。 -/
theorem EchoRound.room (h : EchoRound page keys) :
    (Page.newline VGA_WIDTH 0x20 (page ++ promptText ++ editLine 1023 keys [])).length +
        ((editLine 1023 keys []).drop 5).length ≤ VGA_WIDTH * VGA_HEIGHT ∧
      (page ++ promptText).length ≤ VGA_WIDTH * VGA_HEIGHT := by
  have hfits := Nat.le_trans (Page.length_le_newline _ _ _) h.fits
  rw [List.length_append] at hfits
  have hline := Page.length_le_newline VGA_WIDTH 0x20 (page ++ promptText ++ editLine 1023 keys [])
  rw [List.length_append] at hline
  exact ⟨hfits, by omega⟩

theorem EchoRound.printable (h : EchoRound page keys) : ∀ c ∈ editLine 1023 keys [], Printable c :=
  Neat.printable (show Neat 1023 (page.length + 2) keys ([] : List Byte).length from h.neat) fun _ hc =>
    absurd hc List.not_mem_nil

/-- 一回りで、打った行と、その六文字目からが、一行ずつ画面に並ぶ。 -/
theorem shellTurn_echoes (hapart : d.Apart) (hloaded : d.Loaded s.mem.mem) (hround : EchoRound page keys)
    (hkeys : typed s.polls = keys ++ 0x0D :: rest) (hrest : 0 ∉ rest) (hd : Displays (ttyPutchars t s.shown) page) :
    ∃ s', Fuel.Settles (fun fuel => shellTurn d fuel s) (.done s') ∧ d.Loaded s'.mem.mem ∧
      Displays (ttyPutchars t s'.shown) (echoTurn page keys) ∧ typed s'.polls = rest := by
  have hroom := hround.room
  -- 促しの文字列を出す。
  have hprompt := shellPrint_text (s := s) (hloaded (d.prompt, promptText) List.mem_cons_self)
  have hd₁ := hd.printed promptText (by decide) (by rw [← List.length_append]; exact hroom.2)
  -- 一行を読む。
  have hzero : 0 ∉ typed s.polls := by
    rw [hkeys]
    intro h0
    rcases List.mem_append.1 h0 with h0 | h0
    · exact hround.nonzero h0
    · rcases List.mem_cons.1 h0 with h0 | h0
      · exact absurd h0 (by decide)
      · exact hrest h0
  have hlen : 0 + keys.length < 1023 := (Nat.zero_add _).symm ▸ hround.short
  have hneat : Neat 1023 (page ++ promptText).length (typed s.polls) 0 := by
    rw [hkeys, List.length_append]
    exact hround.neat.stop hround.noReturn hlen rest
  obtain ⟨s₂, hread, hbuf, hd₂, hleft, houtside⟩ :=
    enkiTtyReadline_entered d.buf (s := { s with shown := s.shown ++ promptText }) (show 1 ≤ SHELL_BUF_SIZE by decide)
      (by decide) hzero (by rw [hkeys]; simp) hneat hroom.2 hd₁
  have hmax : (SHELL_BUF_SIZE - 1).toNat = 1023 := rfl
  have hedit := editLine_stop hround.noReturn (show ([] : List Byte).length + keys.length < 1023 from hlen) rest
  simp only [hmax, hkeys, hedit, leftKeys_stop hround.noReturn hlen] at hbuf hd₂ hleft
  rw [hmax] at houtside
  have hloaded₂ := hloaded.outside hapart houtside
  -- 改行して、`echo` を行う。
  have hfeed := shellPrint_text (s := s₂) (hloaded₂ (d.lineFeed, [0x0A]) (by simp [ShellData.constants]))
  have hd₃ := hd₂.lineFeed (by omega)
  have hdrop := hbuf.drop hround.spaced
  have hecho := cmdEcho_text (s := { s₂ with shown := s₂.shown ++ [0x0A] })
    (hloaded₂ (d.format, echoFormat) (by simp [ShellData.constants])) hdrop
  have hd₄ := (hd₃.printed _ (fun c hc => hround.printable c (List.mem_of_mem_drop hc)) hroom.1).lineFeed hround.fits
  rw [List.append_assoc] at hd₄
  have hword := cmdHandler_echo (s := { s₂ with shown := s₂.shown ++ [0x0A] })
    (hloaded₂ (d.echo, echoText) (by simp [ShellData.constants])) hbuf hround.echo
  have hsettles :
      Fuel.Settles (fun _ => enkiTtyReadline d.buf SHELL_BUF_SIZE true { s with shown := s.shown ++ promptText }) s₂ :=
    ⟨0, fun _ _ => hread⟩
  refine ⟨{ s₂ with shown := s₂.shown ++ [0x0A] ++ ((editLine 1023 keys []).drop 5 ++ [0x0A]) },
    hprompt.bind (hsettles.bind (hfeed.bind ?_)), hloaded₂, hd₄, hleft⟩
  simp only [cmdHandler, if_pos hword]
  exact hecho.bind (Fuel.Settles.pure _)

/-! ## 一続きの入力 -/

/-- どの行も、そのときの画面に収まるように打つ。 -/
def EchoSession : List Byte → List (List Byte) → Prop
  | _, [] => True
  | page, keys :: rounds => EchoRound page keys ∧ EchoSession (echoTurn page keys) rounds

theorem EchoSession.nonzero {rounds : List (List Byte)} (h : EchoSession page rounds) (hrest : 0 ∉ rest) :
    0 ∉ rounds.flatMap (· ++ [0x0D]) ++ rest := by
  induction rounds generalizing page with
  | nil => exact hrest
  | cons keys rounds ih =>
      intro h0
      rw [List.flatMap_cons, List.append_assoc, List.append_assoc] at h0
      rcases List.mem_append.1 h0 with h0 | h0
      · exact h.1.nonzero h0
      · rcases List.mem_cons.1 h0 with h0 | h0
        · exact absurd h0 (by decide)
        · exact ih h.2 h0

/-- 何行でも、打った行と `echo` の出した行が、打った順に画面に並ぶ。 -/
theorem shellRun_displays {rounds : List (List Byte)} (hapart : d.Apart) (hloaded : d.Loaded s.mem.mem)
    (hsession : EchoSession page rounds) (hkeys : typed s.polls = rounds.flatMap (· ++ [0x0D]) ++ rest) (hrest : 0 ∉ rest)
    (hd : Displays (ttyPutchars t s.shown) page) :
    ∃ s', ShellRun d s s' ∧ Displays (ttyPutchars t s'.shown) (rounds.foldl echoTurn page) ∧ typed s'.polls = rest := by
  induction rounds generalizing s page with
  | nil => exact ⟨s, .refl, hd, hkeys⟩
  | cons keys rounds ih =>
      rw [List.flatMap_cons, List.append_assoc, List.append_assoc] at hkeys
      obtain ⟨s₁, hturn, hloaded₁, hd₁, hkeys₁⟩ := shellTurn_echoes hapart hloaded hsession.1 hkeys (hsession.2.nonzero hrest) hd
      obtain ⟨s', hrun, hd', hkeys'⟩ := ih hloaded₁ hsession.2 hkeys₁ hd₁
      exact ⟨s', .head hturn hrun, hd', hkeys'⟩

/-- `0x1000` に `"> "`、`0x1010` に改行、`0x1020` に `"echo"`、`0x1030` に `"%s\n"` がある。 -/
def shellMemory : Memory := fun x =>
  if x = 0x1000 then 0x3E else if x = 0x1001 then 0x20 else if x = 0x1010 then 0x0A else if x = 0x1020 then 0x65
  else if x = 0x1021 then 0x63 else if x = 0x1022 then 0x68 else if x = 0x1023 then 0x6F else if x = 0x1030 then 0x25
  else if x = 0x1031 then 0x73 else if x = 0x1032 then 0x0A else 0

def shellData : ShellData := ⟨0x1000, 0x1010, 0x1020, 0x1030, 0x3000, 0x4000⟩

/-- `echo hi` を打つ。 -/
def echoKeys : List Byte := [0x65, 0x63, 0x68, 0x6F, 0x20, 0x68, 0x69]

def shellStart : Typing := { typing (echoKeys ++ [0x0D]) with mem := ⟨shellMemory, []⟩ }

theorem shellRun_displays_hi :
    ∃ s', ShellRun shellData shellStart s' ∧ Displays (ttyPutchars (ttyInit blankTty) s'.shown) (echoTurn [] echoKeys) := by
  have hapart : shellData.Apart := by
    intro p hp j hj i hi
    simp only [ShellData.constants, shellData, promptText, echoText, echoFormat, List.mem_cons, List.not_mem_nil, or_false] at hp
    rcases hp with rfl | rfl | rfl | rfl <;>
      simp only [List.length_cons, List.length_nil, shellData] at hj ⊢ <;> bv_omega
  have hloaded : shellData.Loaded shellMemory := show ∀ p ∈ shellData.constants, StrAt shellMemory p.1 p.2 by decide
  have hround : EchoRound [] echoKeys := by
    refine ⟨by decide, by decide, by decide, ?_, by decide, by decide, by decide +kernel⟩
    simp [Neat, echoKeys, VGA_WIDTH, VGA_HEIGHT]
  obtain ⟨s', hrun, hd, -⟩ := shellRun_displays (s := shellStart) hapart hloaded
    (show EchoSession [] [echoKeys] from ⟨hround, trivial⟩)
    (show typed shellStart.polls = [echoKeys].flatMap (· ++ [0x0D]) ++ [] by decide) (by decide) (ttyInit_displays blankTty)
  exact ⟨s', hrun, hd⟩

end EnkiOs
