import EnkiOs.Keyboard.Basic
import EnkiOs.Lib.Ring
import EnkiOs.Task.Theorems

/-!
# キーボードのバッファの正しさ

読まれていない文字の並びを、番号を折り返す C の計算と、折り返さない計算の、両方の下で追う。
-/

namespace EnkiOs
open Machine

variable {wrap : Int → Int} {proc : Word} {s s' : Kernel} {c : Byte} {keyboard : KeyboardBuffer} {queue : List Byte}

theorem keyboardIdx_slot (counter : Int) : keyboardIdx counter = ringSlot ENKI_KEYBOARD_BUFFER_SIZE counter :=
  keyboardIdx_eq counter

theorem ringSlot_congr {n : Nat} {pos pos' : Int} (h : pos % n = pos' % n) : ringSlot n pos = ringSlot n pos' := by
  rw [ringSlot, ringSlot, h]

/-- バッファに、読まれていない文字の並び `queue` が入っている。 -/
structure Unread (keyboard : KeyboardBuffer) (queue : List Byte) : Prop where
  holds : RingHolds ENKI_KEYBOARD_BUFFER_SIZE 0 keyboard.buffer keyboard.head queue
  tail_mod : keyboard.tail % ENKI_KEYBOARD_BUFFER_SIZE = (keyboard.head + queue.length) % ENKI_KEYBOARD_BUFFER_SIZE

/-- 折り返しても、バッファの中の場所は変わらない。 -/
def KeepsSlots (wrap : Int → Int) : Prop := ∀ x, wrap x % ENKI_KEYBOARD_BUFFER_SIZE = x % ENKI_KEYBOARD_BUFFER_SIZE

theorem keepsSlots_i32 : KeepsSlots i32 := by
  intro x
  simp only [i32, Int.bmod_def, ENKI_KEYBOARD_BUFFER_SIZE]
  split <;> omega

theorem keepsSlots_id : KeepsSlots id := fun _ => rfl

namespace Unread

theorem blank : Unread {} [] := ⟨.blank _ _ _, rfl⟩

theorem tail_slot (h : Unread keyboard queue) :
    keyboardIdx keyboard.tail = ringSlot ENKI_KEYBOARD_BUFFER_SIZE (keyboard.head + queue.length) := by
  rw [keyboardIdx_slot]
  exact ringSlot_congr h.tail_mod

theorem pop_zero_iff (h : Unread (s.procs proc).keyboard queue) (htask : s.taskCurrent ≠ 0)
    (hproc : (s.tasks s.taskCurrent).process = proc) : (keyboardPopWith wrap s).1 = 0 ↔ queue = [] := by
  rw [keyboardPop_char htask hproc, keyboardIdx_slot]
  exact h.holds.front_empty_iff (by decide)

theorem pop_head (h : Unread (s.procs proc).keyboard (c :: queue)) (htask : s.taskCurrent ≠ 0)
    (hproc : (s.tasks s.taskCurrent).process = proc) : (keyboardPopWith wrap s).1 = c := by
  rw [keyboardPop_char htask hproc, keyboardIdx_slot]
  exact h.holds.front

theorem push (hwrap : KeepsSlots wrap) (h : Unread (s.procs proc).keyboard queue) (hne : proc ≠ 0)
    (hcurrent : s.processCurrent = proc) (hc : c ≠ 0) (hroom : queue.length < ENKI_KEYBOARD_BUFFER_SIZE) :
    Unread ((keyboardPushWith wrap s c).procs proc).keyboard (queue ++ [c]) := by
  rw [keyboardPush_keyboard hne hcurrent hc, h.tail_slot]
  refine ⟨h.holds.push hroom hc, ?_⟩
  have htail := h.tail_mod
  rw [hwrap, List.length_append, List.length_singleton]
  simp only [ENKI_KEYBOARD_BUFFER_SIZE] at htail ⊢
  omega

theorem pop (hwrap : KeepsSlots wrap) (h : Unread (s.procs proc).keyboard (c :: queue)) (htask : s.taskCurrent ≠ 0)
    (hproc : (s.tasks s.taskCurrent).process = proc) :
    Unread ((keyboardPopWith wrap s).2.procs proc).keyboard queue := by
  have hc : (keyboardPopWith wrap s).1 ≠ 0 := by
    rw [h.pop_head htask hproc]
    exact h.holds.solid c List.mem_cons_self
  rw [keyboardPop_keyboard htask hproc hc, keyboardIdx_slot]
  refine ⟨h.holds.pop.congr (hwrap _), ?_⟩
  have htail := h.tail_mod
  have hhead := hwrap ((s.procs proc).keyboard.head + 1)
  simp only [List.length_cons, ENKI_KEYBOARD_BUFFER_SIZE] at htail hhead ⊢
  omega

theorem backspace (hwrap : KeepsSlots wrap) (h : Unread (s.procs proc).keyboard (queue ++ [c])) :
    Unread ((keyboardBackspaceWith wrap s proc).procs proc).keyboard queue := by
  have htail := h.tail_mod
  rw [List.length_append, List.length_singleton] at htail
  have hslot : wrap ((s.procs proc).keyboard.tail - 1) % ENKI_KEYBOARD_BUFFER_SIZE =
      ((s.procs proc).keyboard.head + queue.length) % ENKI_KEYBOARD_BUFFER_SIZE := by
    rw [hwrap]
    simp only [ENKI_KEYBOARD_BUFFER_SIZE] at htail ⊢
    omega
  rw [keyboardBackspace_keyboard, keyboardIdx_slot, ringSlot_congr hslot]
  exact ⟨h.holds.drop, hslot⟩

end Unread

/-! ## 先入れ先出し -/

/-- カーネルと、これまでに積んだ文字の並び、取り出した文字の並び。 -/
structure KeyState where
  kernel : Kernel
  pushed : List Byte
  popped : List Byte

/-- `keyboard_push` と `keyboard_pop` の列。読まれていない文字は `ENKI_KEYBOARD_BUFFER_SIZE` 個を超えない。 -/
inductive KeyRun (proc : Word) (start : Kernel) : KeyState → Prop
  | start : KeyRun proc start ⟨start, [], []⟩
  | push {s s' pushed popped c} (hr : KeyRun proc start ⟨s, pushed, popped⟩) (h : KeyCall i32 proc s (.push c) s')
      (hroom : pushed.length < popped.length + ENKI_KEYBOARD_BUFFER_SIZE) : KeyRun proc start ⟨s', pushed ++ [c], popped⟩
  | pop {s s' pushed popped} (hr : KeyRun proc start ⟨s, pushed, popped⟩) (h : KeyCall i32 proc s .pop s') :
      KeyRun proc start ⟨s', pushed, if (keyboardPop s).1 = 0 then popped else popped ++ [(keyboardPop s).1]⟩
  | other {s s' pushed popped} (hr : KeyRun proc start ⟨s, pushed, popped⟩) (h : KeyCall i32 proc s .other s') :
      KeyRun proc start ⟨s', pushed, popped⟩

theorem KeyRun.unread {t : KeyState} (hr : KeyRun proc s t) (hblank : (s.procs proc).keyboard = {}) :
    ∃ queue, Unread (t.kernel.procs proc).keyboard queue ∧ t.pushed = t.popped ++ queue := by
  induction hr with
  | start => exact ⟨[], hblank ▸ Unread.blank, rfl⟩
  | @push s s' pushed popped c _ h hroom ih =>
      obtain ⟨queue, hq, hlist⟩ := ih
      cases h with
      | push hne hcurrent hc =>
          simp only at hlist
          rw [hlist, List.length_append] at hroom
          refine ⟨queue ++ [c], hq.push keepsSlots_i32 hne hcurrent hc (by omega), ?_⟩
          rw [hlist, List.append_assoc]
  | @pop s s' pushed popped _ h ih =>
      obtain ⟨queue, hq, hlist⟩ := ih
      cases h with
      | pop htask hproc =>
          cases queue with
          | nil =>
              have h0 : (keyboardPop s).1 = 0 := (hq.pop_zero_iff htask hproc).2 rfl
              simp only [h0, if_true]
              rw [keyboardPop_zero h0]
              exact ⟨[], hq, hlist⟩
          | cons c queue =>
              have hc : (keyboardPop s).1 = c := hq.pop_head htask hproc
              rw [hc, if_neg (hq.holds.solid c List.mem_cons_self)]
              refine ⟨queue, hq.pop keepsSlots_i32 htask hproc, ?_⟩
              simp only
              rw [List.append_assoc]
              exact hlist
  | other _ h ih =>
      obtain ⟨queue, hq, hlist⟩ := ih
      cases h with
      | other h =>
          refine ⟨queue, ?_, hlist⟩
          simp only
          rw [h]
          exact hq

/-- 取り出した文字は、積んだ文字と順も中身も同じで、残りが `unread` である。次の `keyboard_pop` は、残りが無いときに 0 を、
あるときにその先頭を返す。 -/
def Fifo (proc : Word) (t : KeyState) (unread : List Byte) : Prop :=
  t.pushed = t.popped ++ unread ∧
    (t.kernel.taskCurrent ≠ 0 → (t.kernel.tasks t.kernel.taskCurrent).process = proc →
      ((keyboardPop t.kernel).1 = 0 ↔ unread = []) ∧ ∀ c rest, unread = c :: rest → (keyboardPop t.kernel).1 = c)

/-- 空のバッファから始めた、どの長さの列でも、バッファは先入れ先出しである。番号が 32 ビットで折り返した後も、そうである。 -/
theorem keyRun_fifo {t : KeyState} (hblank : (s.procs proc).keyboard = {}) (hr : KeyRun proc s t) :
    ∃ unread, Fifo proc t unread := by
  obtain ⟨queue, hq, hlist⟩ := hr.unread hblank
  refine ⟨queue, hlist, ?_⟩
  intro htask hproc
  refine ⟨hq.pop_zero_iff htask hproc, ?_⟩
  rintro c rest rfl
  exact hq.pop_head htask hproc

/-- プロセス 1 が現在のプロセスで、そのタスクが動いている状態。 -/
def keyKernel : Kernel :=
  { Kernel.boot bareState with processCurrent := 1, taskCurrent := 1, tasks := fun _ => { process := 1 } }

/-- プロセス 2 に切り替えて一文字を積み、プロセス 1 に戻したところ。 -/
def keyVisited (s : Kernel) : Kernel :=
  { keyboardPush { s with processCurrent := 2 } 0x62 with processCurrent := 1 }

/-- プロセス 1 の二文字の間に、プロセス 2 の一文字を打ち、プロセス 1 で一文字を取り出す。 -/
theorem keyRun_fifo_two : ∃ t₁ t₂ : KeyState, t₁.kernel = t₂.kernel ∧ t₁.pushed = [0x61, 0x63] ∧ t₁.popped = [0x61] ∧
    t₂.pushed = [0x62] ∧ t₂.popped = [] ∧ (∃ unread, Fifo 1 t₁ unread) ∧ ∃ unread, Fifo 2 t₂ unread := by
  have hfirst : KeyRun 1 keyKernel _ := .push .start (.push (c := 0x61) (by decide) rfl (by decide)) (by decide)
  have hvisited : KeyRun 1 keyKernel ⟨keyVisited (keyboardPush keyKernel 0x61), _, _⟩ := .other hfirst (.other rfl)
  have hsecond := hvisited.push (.push (c := 0x63) (by decide) rfl (by decide)) (by decide)
  have hlast := hsecond.pop (.pop (show (1 : Word) ≠ 0 by decide) rfl)
  -- 同じ列を、プロセス 2 の側から見る
  have habsent : KeyRun 2 keyKernel ⟨{ keyboardPush keyKernel 0x61 with processCurrent := 2 }, [], []⟩ :=
    .other .start (.other rfl)
  have htyped := habsent.push (.push (c := 0x62) (by decide) rfl (by decide)) (by decide)
  have hback : KeyRun 2 keyKernel ⟨(keyboardPop (keyboardPush (keyVisited (keyboardPush keyKernel 0x61)) 0x63)).2, _, _⟩ :=
    .other htyped (.other rfl)
  exact ⟨⟨_, [0x61, 0x63], [0x61]⟩, ⟨_, [0x62], []⟩, rfl, rfl, rfl, rfl, rfl, keyRun_fifo rfl hlast, keyRun_fifo rfl hback⟩

/-! ## 番号と場所 -/

/-- 番号の差は 0 から `ENKI_KEYBOARD_BUFFER_SIZE` までで、`head` から `tail` の手前までの場所だけが埋まっている。 -/
structure SlotsMatch (keyboard : KeyboardBuffer) : Prop where
  low : 0 ≤ keyboard.tail - keyboard.head
  high : keyboard.tail - keyboard.head ≤ ENKI_KEYBOARD_BUFFER_SIZE
  used : ∀ pos, keyboard.head ≤ pos → pos < keyboard.tail → keyboard.buffer (ringSlot ENKI_KEYBOARD_BUFFER_SIZE pos) ≠ 0
  unused : ∀ j < ENKI_KEYBOARD_BUFFER_SIZE,
    (∀ pos, keyboard.head ≤ pos → pos < keyboard.tail → ringSlot ENKI_KEYBOARD_BUFFER_SIZE pos ≠ j) → keyboard.buffer j = 0

/-- 読み尽くした後に積んだ文字は、次に取り出される。 -/
def PopsNext (wrap : Int → Int) (proc : Word) (s : Kernel) : Prop :=
  s.taskCurrent ≠ 0 → (s.tasks s.taskCurrent).process = proc → (keyboardPopWith wrap s).1 = 0 →
    ∀ c s', KeyCall wrap proc s (.push c) s' → (keyboardPopWith wrap s').1 = c

def KeyInv (wrap : Int → Int) (proc : Word) (s : Kernel) : Prop :=
  SlotsMatch (s.procs proc).keyboard ∧ PopsNext wrap proc s

/-- 一杯のバッファには積まず、空のバッファからは消さない。 -/
def KeyOp.Fits (keyboard : KeyboardBuffer) : KeyOp → Prop
  | .push _ => keyboard.tail - keyboard.head < ENKI_KEYBOARD_BUFFER_SIZE
  | .backspace => 0 < keyboard.tail - keyboard.head
  | .pop => True
  | .other => True

def FitRun (proc : Word) : Kernel → Kernel → Prop :=
  Relation.ReflTransGen fun s s' => ∃ op, KeyCall id proc s op s' ∧ op.Fits (s.procs proc).keyboard

/-- 番号を折り返さなければ、番号の差は、読まれていない文字の個数である。 -/
structure Counted (keyboard : KeyboardBuffer) (queue : List Byte) : Prop extends Unread keyboard queue where
  tail_eq : keyboard.tail = keyboard.head + queue.length

namespace Counted

theorem slotsMatch (h : Counted keyboard queue) : SlotsMatch keyboard := by
  have hfits := h.holds.fits
  have htail := h.tail_eq
  constructor
  · omega
  · omega
  · intro pos hlow hhigh
    obtain ⟨k, rfl⟩ : ∃ k : Nat, pos = keyboard.head + k := ⟨(pos - keyboard.head).toNat, by omega⟩
    have hk : k < queue.length := by omega
    rw [h.holds.used k hk]
    exact h.holds.solid _ (List.getElem_mem hk)
  · intro j hj hno
    -- `head` から `j` までの隔たりは、並びの長さより短くない。
    obtain ⟨k, hk, hslot⟩ : ∃ k < ENKI_KEYBOARD_BUFFER_SIZE,
        ringSlot ENKI_KEYBOARD_BUFFER_SIZE (keyboard.head + (k : Nat)) = j := by
      refine ⟨(((j : Int) - keyboard.head) % ENKI_KEYBOARD_BUFFER_SIZE).toNat, ?_, ?_⟩
      · simp only [ENKI_KEYBOARD_BUFFER_SIZE]
        omega
      · simp only [ringSlot, ENKI_KEYBOARD_BUFFER_SIZE] at hj ⊢
        omega
    rw [← hslot]
    refine h.holds.unused k ?_ hk
    by_contra hlt
    exact hno (keyboard.head + k) (by omega) (by omega) hslot

theorem popsNext (h : Counted (s.procs proc).keyboard queue) : PopsNext id proc s := by
  intro htask hproc h0 c s' hcall
  obtain rfl := (h.pop_zero_iff htask hproc).1 h0
  cases hcall with
  | push hne hcurrent hc =>
      have hpush := h.toUnread.push keepsSlots_id hne hcurrent hc (by decide)
      have hframe : (keyboardPushWith id s c).taskCurrent = s.taskCurrent ∧ (keyboardPushWith id s c).tasks = s.tasks := by
        rw [keyboardPushWith]
        split
        · exact ⟨rfl, rfl⟩
        · exact ⟨rfl, rfl⟩
      refine hpush.pop_head ?_ ?_
      · rw [hframe.1]
        exact htask
      · rw [hframe.1, hframe.2]
        exact hproc

theorem keyInv (h : Counted (s.procs proc).keyboard queue) : KeyInv id proc s := ⟨h.slotsMatch, h.popsNext⟩

theorem step {op : KeyOp} (h : Counted (s.procs proc).keyboard queue) (hcall : KeyCall id proc s op s')
    (hfit : op.Fits (s.procs proc).keyboard) : ∃ queue', Counted (s'.procs proc).keyboard queue' := by
  have htail := h.tail_eq
  cases hcall with
  | @push c hne hcurrent hc =>
      have hroom : queue.length < ENKI_KEYBOARD_BUFFER_SIZE := by
        simp only [KeyOp.Fits] at hfit
        omega
      refine ⟨queue ++ [c], h.toUnread.push keepsSlots_id hne hcurrent hc hroom, ?_⟩
      rw [keyboardPush_keyboard hne hcurrent hc, List.length_append, List.length_singleton]
      simp only [id]
      omega
  | pop htask hproc =>
      cases queue with
      | nil =>
          rw [keyboardPop_zero ((h.pop_zero_iff htask hproc).2 rfl)]
          exact ⟨[], h⟩
      | cons c queue =>
          refine ⟨queue, h.toUnread.pop keepsSlots_id htask hproc, ?_⟩
          have hc : (keyboardPopWith id s).1 ≠ 0 := fun h0 => by
            cases (h.pop_zero_iff htask hproc).1 h0
          rw [keyboardPop_keyboard htask hproc hc]
          simp only [id, List.length_cons] at htail ⊢
          omega
  | backspace =>
      rcases List.eq_nil_or_concat' queue with rfl | ⟨queue, c, rfl⟩
      · simp only [KeyOp.Fits, List.length_nil] at hfit htail
        omega
      · refine ⟨queue, h.toUnread.backspace keepsSlots_id, ?_⟩
        rw [keyboardBackspace_keyboard]
        simp only [id, List.length_append, List.length_singleton] at htail ⊢
        omega
  | other hsame =>
      rw [hsame]
      exact ⟨queue, h⟩

end Counted

theorem FitRun.counted (hr : FitRun proc s s') (hblank : (s.procs proc).keyboard = {}) :
    ∃ queue, Counted (s'.procs proc).keyboard queue := by
  induction hr with
  | refl => exact ⟨[], hblank ▸ ⟨Unread.blank, rfl⟩⟩
  | tail _ hstep ih =>
      obtain ⟨queue, hq⟩ := ih
      obtain ⟨op, hcall, hfit⟩ := hstep
      exact hq.step hcall hfit

/-- 空のバッファから始め、一杯のときに積まず、空のときに消さなければ、到達するどの状態でも、番号と場所が合っている。そのような状態からの
呼び出しがこれを保つのは、一杯のときに積むのでも、空のときに消すのでもないとき、そのときに限る。 -/
theorem keyInv_of_fitRun (hblank : (s.procs proc).keyboard = {}) :
    (∀ s', FitRun proc s s' → KeyInv id proc s') ∧
    ∀ s₁ s₂ op, FitRun proc s s₁ → KeyCall id proc s₁ op s₂ →
      (KeyInv id proc s₂ ↔ op.Fits (s₁.procs proc).keyboard) := by
  constructor
  · intro s' hr
    obtain ⟨queue, hq⟩ := hr.counted hblank
    exact hq.keyInv
  · intro s₁ s₂ op hr hcall
    obtain ⟨queue, hq⟩ := hr.counted hblank
    constructor
    · rintro ⟨hmatch, -⟩
      have hlow := hmatch.low
      have hhigh := hmatch.high
      cases hcall with
      | push hne hcurrent hc =>
          rw [keyboardPush_keyboard hne hcurrent hc] at hhigh
          simp only [KeyOp.Fits, id] at hhigh ⊢
          omega
      | pop => trivial
      | backspace =>
          rw [keyboardBackspace_keyboard] at hlow
          simp only [KeyOp.Fits, id] at hlow ⊢
          omega
      | other => trivial
    · intro hfit
      obtain ⟨queue', hq'⟩ := hq.step hcall hfit
      exact hq'.keyInv

/-- 二文字を積み、一文字を消し、一文字を取り出した後。 -/
theorem keyInv_of_fitRun_edited : ∃ s, FitRun 1 keyKernel s ∧ (s.procs 1).keyboard.head = 1 ∧ (s.procs 1).keyboard.tail = 1 ∧
    KeyInv id 1 s := by
  have hfirst : FitRun 1 keyKernel _ :=
    .single ⟨_, .push (c := 0x61) (by decide) rfl (by decide), show (0 : Int) < 1024 by decide⟩
  have hsecond := hfirst.tail ⟨_, .push (c := 0x62) (by decide) rfl (by decide), show (1 : Int) < 1024 by decide⟩
  have herased := hsecond.tail ⟨_, .backspace, show (0 : Int) < 2 by decide⟩
  have hpopped := herased.tail ⟨_, .pop (show (1 : Word) ≠ 0 by decide) rfl, trivial⟩
  exact ⟨_, hpopped, rfl, rfl, (keyInv_of_fitRun rfl).1 _ hpopped⟩

theorem keyKernel_fill {n : Nat} (hn : n ≤ ENKI_KEYBOARD_BUFFER_SIZE) : ∃ s', FitRun 1 keyKernel s' ∧
    s'.processCurrent = 1 ∧ Counted (s'.procs 1).keyboard (List.replicate n 0x61) := by
  induction n with
  | zero => exact ⟨keyKernel, .refl, rfl, Unread.blank, rfl⟩
  | succ n ih =>
      obtain ⟨s₁, hr, hcurrent, hq⟩ := ih (by omega)
      have hcall : KeyCall id 1 s₁ (.push 0x61) (keyboardPushWith id s₁ 0x61) := .push (by decide) hcurrent (by decide)
      have htail := hq.tail_eq
      rw [List.length_replicate] at htail
      refine ⟨_, hr.tail ⟨_, hcall, ?_⟩, ?_, ?_⟩
      · simp only [KeyOp.Fits]
        omega
      · rw [keyboardPushWith]
        split
        · exact hcurrent
        · exact hcurrent
      · have hroom : (List.replicate n (0x61 : Byte)).length < ENKI_KEYBOARD_BUFFER_SIZE := by
          rw [List.length_replicate]
          exact hn
        have hpush := hq.toUnread.push keepsSlots_id (by decide) hcurrent (show (0x61 : Byte) ≠ 0 by decide) hroom
        rw [← List.replicate_succ'] at hpush
        refine ⟨hpush, ?_⟩
        rw [keyboardPush_keyboard (by decide) hcurrent (by decide), List.length_replicate]
        simp only [id]
        omega

/-- 読まれないまま 1025 文字を積むと、番号の差がバッファの大きさを超え、先頭の文字が上書きされる。 -/
theorem keyInv_fails_full : ∃ s₁ s₂ : Kernel, FitRun 1 keyKernel s₁ ∧
    (s₁.procs 1).keyboard.tail - (s₁.procs 1).keyboard.head = 1024 ∧ KeyCall id 1 s₁ (.push 0x62) s₂ ∧
    (s₂.procs 1).keyboard.tail - (s₂.procs 1).keyboard.head = 1025 ∧
    (s₂.procs 1).keyboard.buffer (keyboardIdx (s₂.procs 1).keyboard.head) = 0x62 ∧ ¬KeyInv id 1 s₂ := by
  obtain ⟨s₁, hr, hcurrent, hq⟩ := keyKernel_fill (Nat.le_refl ENKI_KEYBOARD_BUFFER_SIZE)
  have hcall : KeyCall id 1 s₁ (.push 0x62) (keyboardPushWith id s₁ 0x62) := .push (by decide) hcurrent (by decide)
  have htail := hq.tail_eq
  rw [List.length_replicate] at htail
  have hpush : ((keyboardPushWith id s₁ 0x62).procs 1).keyboard = _ :=
    keyboardPush_keyboard (show (1 : Word) ≠ 0 by decide) hcurrent (show (0x62 : Byte) ≠ 0 by decide)
  have hslot : keyboardIdx (s₁.procs 1).keyboard.head = keyboardIdx (s₁.procs 1).keyboard.tail := by
    rw [keyboardIdx_eq, keyboardIdx_eq, htail]
    simp
  have hover : ((keyboardPushWith id s₁ 0x62).procs 1).keyboard.tail -
      ((keyboardPushWith id s₁ 0x62).procs 1).keyboard.head = 1025 := by
    rw [hpush]
    simp only [id, htail, ENKI_KEYBOARD_BUFFER_SIZE]
    omega
  refine ⟨s₁, _, hr, ?_, hcall, hover, ?_, ?_⟩
  · rw [htail]
    simp only [ENKI_KEYBOARD_BUFFER_SIZE]
    omega
  · rw [hpush]
    simp only [hslot, Function.update_self]
  · rintro ⟨hmatch, -⟩
    have hhigh := hmatch.high
    rw [hover] at hhigh
    exact absurd hhigh (by decide)

end EnkiOs
