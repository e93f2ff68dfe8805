import EnkiOs.Idt.Dispatch

/-!
# 打った文字が届くまで

キーボードの割り込みから、バッファを経て、`getkey` のシステムコールが文字を返すまで。
-/

namespace EnkiOs
open Machine

/-! ## 打った文字 -/

/-- 読んだスキャンコードと、そのとき文字を受け取るプロセスが現在のプロセスだったか。 -/
structure KeyPress where
  sc : Byte
  mine : Bool

/-- 押すたびに、大文字と小文字が入れ替わる。 -/
def capsAfter (upper : Bool) (sc : Byte) : Bool := upper != (sc == PS2_CAPSLOCK)

/-- 文字の無いキーと、離したキーには、文字が無い。 -/
def keyChar (upper : Bool) (sc : Byte) : Option Byte :=
  match scanSet1[sc.toNat]? with
  | none => none
  | some c => if c = 0 then none else if upper = false ∧ 0x41 ≤ c ∧ c ≤ 0x5A then some (c + 32) else some c

/-- プロセスに宛てた文字の並び。 -/
def typedText : Bool → List KeyPress → List Byte
  | _, [] => []
  | upper, k :: rest =>
      (if k.mine then (keyChar (capsAfter upper k.sc) k.sc).toList else []) ++ typedText (capsAfter upper k.sc) rest

def capsRun (upper : Bool) (presses : List KeyPress) : Bool := presses.foldl (fun upper k => capsAfter upper k.sc) upper

theorem typedText_append (upper : Bool) (xs ys : List KeyPress) :
    typedText upper (xs ++ ys) = typedText upper xs ++ typedText (capsRun upper xs) ys := by
  induction xs generalizing upper with
  | nil => rfl
  | cons k xs ih =>
      rw [List.cons_append, typedText, ih, typedText, List.append_assoc]
      rfl

/-- `capslock` の値。 -/
def capslockOf (upper : Bool) : Int := if upper then KEYBOARD_CAPSLOCK_ON else KEYBOARD_CAPSLOCK_OFF

theorem ps2Toggle_eq (upper : Bool) (sc : Byte) : ps2Toggle (capslockOf upper) sc = capslockOf (capsAfter upper sc) := by
  simp only [ps2Toggle, capsAfter]
  by_cases h : sc = PS2_CAPSLOCK
  · rw [if_pos h, h]
    cases upper <;> rfl
  · have hbeq : (sc == PS2_CAPSLOCK) = false := by simpa using h
    rw [if_neg h, hbeq]
    cases upper <;> rfl

/-- 離したキーのコードは、表の外にある。 -/
theorem released_code {sc : Byte} (h : sc &&& PS2_KEY_RELEASED ≠ 0) : sc ≠ PS2_CAPSLOCK ∧ scanSet1.length ≤ sc.toNat := by
  revert sc
  decide

theorem keyChar_outside {upper : Bool} {sc : Byte} (h : scanSet1.length ≤ sc.toNat) : keyChar upper sc = none := by
  rw [keyChar, List.getElem?_eq_none h]

/-- 表の文字は、どれも符号なしの 7 ビットに収まる。 -/
theorem letter_iff {c : Byte} : (65 ≤ c.toInt ∧ c.toInt ≤ 90) ↔ 0x41 ≤ c ∧ c ≤ 0x5A := by
  revert c
  decide

theorem keyChar_eq {upper : Bool} {sc c : Byte} (h : ps2ScanToChar (capslockOf upper) sc = .ok c) :
    keyChar upper sc = if c = 0 then none else some c := by
  have hoff : capslockOf upper = KEYBOARD_CAPSLOCK_OFF ↔ upper = false := by cases upper <;> decide
  simp only [ps2ScanToChar] at h
  split at h
  · rename_i houtside
    cases h
    exact keyChar_outside (by omega)
  · cases hget : scanSet1[sc.toNat]? with
    | none =>
        rw [hget] at h
        cases h
    | some c₀ =>
        rw [hget] at h
        simp only [keyChar, hget]
        by_cases hlower : capslockOf upper = KEYBOARD_CAPSLOCK_OFF ∧ 65 ≤ c₀.toInt ∧ c₀.toInt ≤ 90
        · have hletter := letter_iff.1 hlower.2
          have hne : c₀ ≠ 0 ∧ c₀ + 32 ≠ 0 := by
            obtain ⟨hlow, hhigh⟩ := hletter
            constructor <;> bv_omega
          simp only [if_pos hlower] at h
          cases h
          rw [if_neg hne.1, if_pos ⟨hoff.1 hlower.1, hletter⟩, if_neg hne.2]
        · have hkeep : ¬(upper = false ∧ 0x41 ≤ c₀ ∧ c₀ ≤ 0x5A) := fun hu => hlower ⟨hoff.2 hu.1, letter_iff.2 hu.2⟩
          simp only [if_neg hlower] at h
          cases h
          rw [if_neg hkeep]

theorem keyChar_ne_zero {upper : Bool} {sc c : Byte} (h : keyChar upper sc = some c) : c ≠ 0 := by
  simp only [keyChar] at h
  split at h
  · cases h
  · split at h
    · cases h
    · rename_i hne
      split at h
      · rename_i hletter
        obtain ⟨-, hlow, hhigh⟩ := hletter
        cases h
        bv_omega
      · cases h
        exact hne

/-- 最後に押したキー。 -/
theorem typedText_snoc (presses : List KeyPress) (k : KeyPress) :
    typedText false (presses ++ [k]) =
      typedText false presses ++ if k.mine then (keyChar (capsAfter (capsRun false presses) k.sc) k.sc).toList else [] := by
  rw [typedText_append, typedText, typedText, List.append_nil]

/-! ## 割り込みの後のバッファ -/

variable {proc : Word} {m m' : System} {queue : List Byte}

/-- ほかのプロセスのバッファに積んでも、このプロセスのバッファは変わらない。 -/
theorem keyboardPush_other {s : Kernel} (hother : s.processCurrent ≠ proc) (c : Byte) :
    ((keyboardPush s c).procs proc).keyboard = (s.procs proc).keyboard := by
  simp only [keyboardPush, keyboardPushWith]
  split
  · rfl
  · simp [Kernel.setKeyboard, Kernel.setProc, Ne.symm hother]

/-- 割り込みの手続きが戻ったときの状態。 -/
theorem ps2HandleInterrupt_ok {upper : Bool} {capslock : Int} {s s' : Kernel} {sc : Byte}
    (h : ps2HandleInterrupt (capslockOf upper) s sc = .ok (capslock, s')) :
    capslock = capslockOf (capsAfter upper sc) ∧
      s' = match keyChar (capsAfter upper sc) sc with
        | none => s
        | some c => keyboardPush s c := by
  simp only [ps2HandleInterrupt] at h
  split at h
  · rename_i hreleased
    obtain ⟨hcaps, houtside⟩ := released_code hreleased
    have hsame : capsAfter upper sc = upper := by
      rw [capsAfter, show (sc == PS2_CAPSLOCK) = false by simpa using hcaps, Bool.bne_false]
    cases h
    rw [hsame, keyChar_outside houtside]
    exact ⟨rfl, rfl⟩
  · obtain ⟨c, hc, hrest⟩ := bind_ok.1 h
    rw [ps2Toggle_eq] at hc hrest
    rw [keyChar_eq hc]
    by_cases hz : c = 0
    · rw [if_neg (not_not.2 hz)] at hrest
      rw [if_pos hz]
      split at hrest
      · cases hrest
      · cases hrest
        exact ⟨rfl, rfl⟩
    · rw [if_pos hz] at hrest
      rw [if_neg hz]
      split at hrest
      · cases hrest
      · cases hrest
        exact ⟨rfl, rfl⟩

/-! ## 割り込みと `getkey` の列 -/

/-- 装置とカーネルの状態と、これまでに押したキー、`getkey` が返した文字。 -/
structure KeyTyping where
  system : System
  presses : List KeyPress
  popped : List Byte

/-- プロセス `proc` のための列。`other` は、切り替えなど、このバッファを変えない動作である。届いて読まれていない文字は、
`ENKI_KEYBOARD_BUFFER_SIZE` 個を超えない。 -/
inductive TypingRun (env : CallEnv) (proc : Word) (start : System) : KeyTyping → Prop
  | start : TypingRun env proc start ⟨start, [], []⟩
  | press {m presses popped sc exit} (hr : TypingRun env proc start ⟨m, presses, popped⟩)
      (h : intCallbackRun env sc m .ps2HandleInterrupt = .ok (.back 0 exit))
      (hroom : (typedText false presses).length < popped.length + ENKI_KEYBOARD_BUFFER_SIZE) :
      TypingRun env proc start ⟨exit, presses ++ [⟨sc, m.kernel.processCurrent = proc⟩], popped⟩
  | getkey {m presses popped result exit} (hr : TypingRun env proc start ⟨m, presses, popped⟩)
      (htask : m.kernel.taskCurrent ≠ 0) (hproc : (m.kernel.tasks m.kernel.taskCurrent).process = proc)
      (h : syscall2Getkey m = .ok (.back result exit)) :
      TypingRun env proc start ⟨exit, presses, if result = 0 then popped else popped ++ [result.setWidth 8]⟩
  | other {m m' presses popped} (hr : TypingRun env proc start ⟨m, presses, popped⟩) (hcaps : m'.capslock = m.capslock)
      (hkeyboard : (m'.kernel.procs proc).keyboard = (m.kernel.procs proc).keyboard) :
      TypingRun env proc start ⟨m', presses, popped⟩

/-- 割り込みと `getkey` の間に成り立つこと。 -/
structure Delivered (proc : Word) (t : KeyTyping) (queue : List Byte) : Prop where
  capslock : t.system.capslock = capslockOf (capsRun false t.presses)
  unread : Unread (t.system.kernel.procs proc).keyboard queue
  order : typedText false t.presses = t.popped ++ queue

theorem signExtend_byte (c : Byte) : (c.signExtend 32 : Word).setWidth 8 = c ∧ ((c.signExtend 32 : Word) = 0 ↔ c = 0) := by
  revert c
  decide

theorem Delivered.press {env : CallEnv} {sc : Byte} {t : KeyTyping} {exit : System} (hne : proc ≠ 0) (h : Delivered proc t queue)
    (hrun : intCallbackRun env sc t.system .ps2HandleInterrupt = .ok (.back 0 exit))
    (hroom : (typedText false t.presses).length < t.popped.length + ENKI_KEYBOARD_BUFFER_SIZE) :
    ∃ queue', Delivered proc ⟨exit, t.presses ++ [⟨sc, t.system.kernel.processCurrent = proc⟩], t.popped⟩ queue' := by
  obtain ⟨⟨capslock, kernel⟩, hhandle, hexit⟩ := bind_ok.1 hrun
  cases hexit
  rw [h.capslock] at hhandle
  obtain ⟨hcaps, hkernel⟩ := ps2HandleInterrupt_ok hhandle
  have hcaps' : capslock = capslockOf (capsRun false (t.presses ++ [⟨sc, t.system.kernel.processCurrent = proc⟩])) := by
    rw [hcaps, capsRun, capsRun, List.foldl_append]
    rfl
  have hlen : queue.length < ENKI_KEYBOARD_BUFFER_SIZE := by
    rw [h.order, List.length_append] at hroom
    omega
  cases hchar : keyChar (capsAfter (capsRun false t.presses) sc) sc with
  | none =>
      rw [hchar] at hkernel
      subst hkernel
      refine ⟨queue, hcaps', h.unread, ?_⟩
      rw [typedText_snoc, hchar, h.order]
      simp
  | some c =>
      rw [hchar] at hkernel
      subst hkernel
      by_cases hmine : t.system.kernel.processCurrent = proc
      · refine ⟨queue ++ [c], hcaps', h.unread.push keepsSlots_i32 hne hmine (keyChar_ne_zero hchar) hlen, ?_⟩
        rw [typedText_snoc, hchar, h.order]
        simp [hmine]
      · refine ⟨queue, hcaps', ?_, ?_⟩
        · show Unread ((keyboardPush t.system.kernel c).procs proc).keyboard queue
          rw [keyboardPush_other hmine]
          exact h.unread
        · rw [typedText_snoc, h.order]
          simp [hmine]

theorem Delivered.getkey {t : KeyTyping} {result : Word} {exit : System} (h : Delivered proc t queue)
    (htask : t.system.kernel.taskCurrent ≠ 0) (hproc : (t.system.kernel.tasks t.system.kernel.taskCurrent).process = proc)
    (hrun : syscall2Getkey t.system = .ok (.back result exit)) :
    ∃ queue', Delivered proc ⟨exit, t.presses, if result = 0 then t.popped else t.popped ++ [result.setWidth 8]⟩ queue' := by
  simp only [syscall2Getkey] at hrun
  cases hrun
  obtain ⟨hbyte, hzero⟩ := signExtend_byte (keyboardPop t.system.kernel).1
  cases queue with
  | nil =>
      have h0 : (keyboardPop t.system.kernel).1 = 0 := (h.unread.pop_zero_iff htask hproc).2 rfl
      refine ⟨[], h.capslock, ?_, ?_⟩
      · show Unread ((keyboardPop t.system.kernel).2.procs proc).keyboard []
        rw [keyboardPop, keyboardPop_zero h0]
        exact h.unread
      · rw [if_pos (hzero.2 h0)]
        exact h.order
  | cons c queue =>
      have hc : (keyboardPop t.system.kernel).1 = c := h.unread.pop_head htask hproc
      have hne : (keyboardPop t.system.kernel).1 ≠ 0 := by
        rw [hc]
        exact h.unread.holds.solid c List.mem_cons_self
      refine ⟨queue, h.capslock, h.unread.pop keepsSlots_i32 htask hproc, ?_⟩
      rw [if_neg (mt hzero.1 hne), hbyte, hc, h.order, List.append_assoc]
      rfl

theorem TypingRun.delivered {env : CallEnv} {start : System} {t : KeyTyping} (hne : proc ≠ 0)
    (hcaps : start.capslock = KEYBOARD_CAPSLOCK_OFF) (hblank : (start.kernel.procs proc).keyboard = {})
    (hr : TypingRun env proc start t) : ∃ queue, Delivered proc t queue := by
  induction hr with
  | start =>
      refine ⟨[], hcaps, ?_, rfl⟩
      show Unread (start.kernel.procs proc).keyboard []
      rw [hblank]
      exact Unread.blank
  | press _ h hroom ih =>
      obtain ⟨queue, hq⟩ := ih
      exact hq.press hne h hroom
  | getkey _ htask hproc h ih =>
      obtain ⟨queue, hq⟩ := ih
      exact hq.getkey htask hproc h
  | other _ hcaps' hkeyboard ih =>
      obtain ⟨queue, hq⟩ := ih
      refine ⟨queue, hcaps'.trans hq.capslock, ?_, hq.order⟩
      simp only
      rw [hkeyboard]
      exact hq.unread

/-- 起動の後に押したキーの文字は、どのプロセスに切り替わっていても、打った順に、一度ずつ、打ったときのプロセスの `getkey` に届く。大文字か
小文字かは、それまでに `PS2_CAPSLOCK` を押した回数で決まる。読み残しが無ければ、`getkey` は 0 を返す。 -/
theorem typingRun_delivers {env : CallEnv} {start : System} {t : KeyTyping} (hne : proc ≠ 0)
    (hcaps : start.capslock = KEYBOARD_CAPSLOCK_OFF) (hblank : (start.kernel.procs proc).keyboard = {})
    (hr : TypingRun env proc start t) :
    ∃ unread, typedText false t.presses = t.popped ++ unread ∧
      (t.system.kernel.taskCurrent ≠ 0 → (t.system.kernel.tasks t.system.kernel.taskCurrent).process = proc →
        ∃ m', syscall2Getkey t.system = .ok (.back ((unread.headD 0).signExtend 32) m')) := by
  obtain ⟨queue, hq⟩ := hr.delivered hne hcaps hblank
  refine ⟨queue, hq.order, ?_⟩
  intro htask hproc
  have hhead : (keyboardPop t.system.kernel).1 = queue.headD 0 := by
    cases queue with
    | nil => exact (hq.unread.pop_zero_iff htask hproc).2 rfl
    | cons c queue => exact hq.unread.pop_head htask hproc
  rw [← hhead]
  exact ⟨_, rfl⟩

/-- `PS2_CAPSLOCK` と `A` を押して、読む。 -/
theorem typingRun_delivers_upper :
    ∃ t : KeyTyping, t.presses = [⟨PS2_CAPSLOCK, true⟩, ⟨0x1E, true⟩] ∧ t.popped = [0x41] ∧
      ∃ unread, typedText false t.presses = t.popped ++ unread := by
  have hcaps : intCallbackRun ⟨0, 0, 0, 0⟩ PS2_CAPSLOCK keySystem .ps2HandleInterrupt =
      .ok (.back 0 { keySystem with capslock := KEYBOARD_CAPSLOCK_ON }) := rfl
  have hletter : intCallbackRun ⟨0, 0, 0, 0⟩ 0x1E { keySystem with capslock := KEYBOARD_CAPSLOCK_ON } .ps2HandleInterrupt =
      .ok (.back 0 { keySystem with capslock := KEYBOARD_CAPSLOCK_ON, kernel := keyboardPush keyKernel 0x41 }) := rfl
  have hgetkey : syscall2Getkey { keySystem with capslock := KEYBOARD_CAPSLOCK_ON, kernel := keyboardPush keyKernel 0x41 } =
      .ok (.back 0x41
        { keySystem with capslock := KEYBOARD_CAPSLOCK_ON, kernel := (keyboardPop (keyboardPush keyKernel 0x41)).2 }) :=
    rfl
  have htyped₀ : (typedText false []).length < ([] : List Byte).length + ENKI_KEYBOARD_BUFFER_SIZE := by decide
  have htyped₁ : (typedText false ([] ++ [⟨PS2_CAPSLOCK, keySystem.kernel.processCurrent = 1⟩])).length <
      ([] : List Byte).length + ENKI_KEYBOARD_BUFFER_SIZE := by decide
  have hpressed : TypingRun ⟨0, 0, 0, 0⟩ 1 keySystem _ := (TypingRun.start.press hcaps htyped₀).press hletter htyped₁
  have hrun := hpressed.getkey (show (1 : Word) ≠ 0 by decide) rfl hgetkey
  obtain ⟨unread, horder, -⟩ := typingRun_delivers (show (1 : Word) ≠ 0 by decide) rfl rfl hrun
  exact ⟨_, rfl, rfl, unread, horder⟩

end EnkiOs
