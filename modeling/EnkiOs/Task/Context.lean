import EnkiOs.Task.Basic
import EnkiOs.Lib.Cpu

/-!
# 文脈の保存と復帰

`kernel/idt.asm` の割り込みの入口、`kernel/task/task.c` の `task_save_state`、`kernel/task/task.asm` の `task_return`
と `restore_gpr`。構造体の配置は、語の並びで表す。

CPU の見るメモリは、カーネルの領域については、どのページディレクトリでも同じものとする。
-/

namespace EnkiOs
open Machine

abbrev KERNEL_CODE_SEG : BitVec 16 := 0x08
abbrev KERNEL_DATA_SEG : BitVec 16 := 0x10

/-- `tss.esp0` -/
abbrev KERNEL_STACK : Word := 0x600000

/-! ## 構造体 -/

structure InterruptFrame where
  edi : Word
  esi : Word
  ebp : Word
  reserved : Word
  ebx : Word
  edx : Word
  ecx : Word
  eax : Word
  ip : Word
  cs : Word
  flags : Word
  esp : Word
  ss : Word

/-- 割り込みの処理に渡すポインタの先の構造体。 -/
def InterruptFrame.at (m : Memory) (a : Word) : InterruptFrame where
  edi := m.word a
  esi := m.word (a + 4)
  ebp := m.word (a + 8)
  reserved := m.word (a + 12)
  ebx := m.word (a + 16)
  edx := m.word (a + 20)
  ecx := m.word (a + 24)
  eax := m.word (a + 28)
  ip := m.word (a + 32)
  cs := m.word (a + 36)
  flags := m.word (a + 40)
  esp := m.word (a + 44)
  ss := m.word (a + 48)

/-- `struct interrupt_frame` の配置。 -/
def InterruptFrame.words (f : InterruptFrame) : List Word :=
  [f.edi, f.esi, f.ebp, f.reserved, f.ebx, f.edx, f.ecx, f.eax, f.ip, f.cs, f.flags, f.esp, f.ss]

/-- `struct registers` の配置。 -/
def Registers.words (r : Registers) : List Word :=
  [r.edi, r.esi, r.ebp, r.ebx, r.edx, r.ecx, r.eax, r.ip, r.cs, r.flags, r.esp, r.ss]

/-- `&task->registers`。`page_dir` の次にある。 -/
def taskRegisters (task : Word) : Word := task + 4

/-! ## 保存 -/

/-- `int%1` の、`interrupt_handler` を呼ぶまで。フレームは `esp` の指すところにある。 -/
def interruptEntry (user : Cpu) (entry : Word) : Cpu :=
  (user.interrupt KERNEL_STACK entry KERNEL_DATA_SEG KERNEL_CODE_SEG).pushad

def taskSaveState (s : Kernel) (task : Word) (frame : InterruptFrame) : Kernel :=
  s.setTask task { s.tasks task with registers :=
    { ip := frame.ip
      cs := frame.cs
      flags := frame.flags
      esp := frame.esp
      ss := frame.ss
      eax := frame.eax
      ebp := frame.ebp
      ebx := frame.ebx
      ecx := frame.ecx
      edi := frame.edi
      edx := frame.edx
      esi := frame.esi } }

def taskCurrentSaveState (s : Kernel) (frame : InterruptFrame) : Except Fault Kernel := do
  if s.taskCurrent = 0 then throw .panic
  return taskSaveState s s.taskCurrent frame

/-! ## 復帰 -/

def restoreGpr (alu : Alu) (c : Cpu) : Cpu :=
  let c := c.push c.ebp
  let c := { c with ebp := c.esp }
  let c := { c with ebx := c.mem.word (c.ebp + 8) }
  let c := { c with edi := c.mem.word c.ebx }
  let c := { c with esi := c.mem.word (c.ebx + 4) }
  let c := { c with ebp := c.mem.word (c.ebx + 8) }
  let c := { c with edx := c.mem.word (c.ebx + 16) }
  let c := { c with ecx := c.mem.word (c.ebx + 20) }
  let c := { c with eax := c.mem.word (c.ebx + 24) }
  let c := { c with ebx := c.mem.word (c.ebx + 12) }
  let c := Cpu.addEsp alu c 4
  c.ret

/-- `task_return` の、`restore_gpr` を呼ぶまで。保存した `flags` は読まずに、今のフラグを積む。 -/
def taskReturnPush (alu : Alu) (c : Cpu) : Cpu :=
  let c := { c with ebp := c.esp }
  let c := { c with ebx := c.mem.word (c.ebp + 4) }
  let c := c.push (c.mem.word (c.ebx + 44))
  let c := c.push (c.mem.word (c.ebx + 40))
  let c := c.pushf
  let c := c.popEax
  let c := Cpu.orEax alu c 0x200
  let c := c.push c.eax
  let c := c.push (c.mem.word (c.ebx + 32))
  let c := c.push (c.mem.word (c.ebx + 28))
  let c := c.setAx (c.mem.half (c.ebx + 44))
  let ax := c.eax.setWidth 16
  let c := { c with ds := ax, es := ax, fs := ax, gs := ax }
  c.push (c.mem.word (c.ebp + 4))

/-- `next` は `call restore_gpr` の次の命令の位置である。 -/
def taskReturn (alu : Alu) (next : Word) (c : Cpu) : Option Cpu := do
  let c := taskReturnPush alu c
  let c ← c.call next (restoreGpr alu)
  let c := Cpu.addEsp alu c 4
  return c.iretd

/-! ## 割り込みのフレーム -/

/-- 割り込まれた側の文脈。 -/
def userFrame (user : Cpu) : InterruptFrame where
  edi := user.edi
  esi := user.esi
  ebp := user.ebp
  reserved := KERNEL_STACK - 20
  ebx := user.ebx
  edx := user.edx
  ecx := user.ecx
  eax := user.eax
  ip := user.eip
  cs := user.cs.setWidth 32
  flags := user.eflags
  esp := user.esp
  ss := user.ss.setWidth 32

/-- CPU の積む語。 -/
theorem interrupt_stack (user : Cpu) (entry : Word) :
    (user.interrupt KERNEL_STACK entry KERNEL_DATA_SEG KERNEL_CODE_SEG).Stack
      [user.eip, user.cs.setWidth 32, user.eflags, user.esp, user.ss.setWidth 32] := by
  have hempty : Cpu.Stack { user with esp := KERNEL_STACK, ss := KERNEL_DATA_SEG } [] := trivial
  exact hempty.pushAll [user.ss.setWidth 32, user.esp, user.eflags, user.cs.setWidth 32, user.eip] (by simp)

theorem interrupt_gpr {user k : Cpu} {entry : Word}
    (hk : user.interrupt KERNEL_STACK entry KERNEL_DATA_SEG KERNEL_CODE_SEG = k) :
    [k.eax, k.ecx, k.edx, k.ebx, k.esp, k.ebp, k.esi, k.edi] =
      [user.eax, user.ecx, user.edx, user.ebx, KERNEL_STACK - 20, user.ebp, user.esi, user.edi] := by
  rw [Cpu.interrupt] at hk
  obtain ⟨mem, heq⟩ := Cpu.pushAll_eq { user with esp := KERNEL_STACK, ss := KERNEL_DATA_SEG }
    [user.ss.setWidth 32, user.esp, user.eflags, user.cs.setWidth 32, user.eip]
  rw [heq] at hk
  cases hk
  rfl

/-- CPU と `pushad` の積む語は、`struct interrupt_frame` の配置のとおりである。 -/
theorem interruptEntry_stack (user : Cpu) (entry : Word) :
    (interruptEntry user entry).Stack (userFrame user).words := by
  have hcpu := interrupt_stack user entry
  rw [interruptEntry]
  generalize hk : user.interrupt KERNEL_STACK entry KERNEL_DATA_SEG KERNEL_CODE_SEG = k at hcpu ⊢
  rw [Cpu.pushad, interrupt_gpr hk]
  exact hcpu.pushAll _ (by simp)

theorem InterruptFrame.at_of_holds {m : Memory} {a : Word} {f : InterruptFrame} (h : m.Holds a f.words) :
    InterruptFrame.at m a = f := by
  have hget : ∀ {i : Nat} {w : Word}, f.words[i]? = some w → m.word (a + BitVec.ofNat 32 (4 * i)) = w := fun hi => h.get hi
  obtain ⟨edi, esi, ebp, reserved, ebx, edx, ecx, eax, ip, cs, flags, esp, ss⟩ := f
  simp only [InterruptFrame.at, InterruptFrame.mk.injEq]
  exact ⟨h.1, hget (i := 1) rfl, hget (i := 2) rfl, hget (i := 3) rfl, hget (i := 4) rfl, hget (i := 5) rfl,
    hget (i := 6) rfl, hget (i := 7) rfl, hget (i := 8) rfl, hget (i := 9) rfl, hget (i := 10) rfl, hget (i := 11) rfl,
    hget (i := 12) rfl⟩

/-- `interrupt_handler` に渡るフレーム。 -/
def capturedFrame (user : Cpu) (entry : Word) : InterruptFrame :=
  InterruptFrame.at (interruptEntry user entry).mem (interruptEntry user entry).esp

theorem capturedFrame_eq (user : Cpu) (entry : Word) : capturedFrame user entry = userFrame user :=
  InterruptFrame.at_of_holds (interruptEntry_stack user entry)

theorem taskCurrentSaveState_ok {s s' : Kernel} {frame : InterruptFrame} (h : taskCurrentSaveState s frame = .ok s') :
    s.taskCurrent ≠ 0 ∧ s' = taskSaveState s s.taskCurrent frame := by
  simp only [taskCurrentSaveState] at h
  split at h
  · cases h
  · rename_i hne
    cases h
    exact ⟨hne, rfl⟩

theorem taskCurrentSaveState_eq {s : Kernel} (frame : InterruptFrame) (hne : s.taskCurrent ≠ 0) :
    taskCurrentSaveState s frame = .ok (taskSaveState s s.taskCurrent frame) := by
  simp only [taskCurrentSaveState]
  rw [if_neg hne]
  rfl

/-! ## 復帰の命令の並び -/

section

variable {alu : Alu} {c : Cpu} {next regs : Word} {r : Registers} {ws : List Word}

/-- 戻した汎用レジスタ。 -/
structure GprRestored (r : Registers) (c : Cpu) : Prop where
  edi : c.edi = r.edi
  esi : c.esi = r.esi
  ebp : c.ebp = r.ebp
  ebx : c.ebx = r.ebx
  edx : c.edx = r.edx
  ecx : c.ecx = r.ecx
  eax : c.eax = r.eax

/-- スタックは、構造体より下にある。 -/
structure Below (sp regs : Word) (room : Nat) : Prop where
  room : 4 * room ≤ sp.toNat
  above : sp.toNat ≤ regs.toNat
  inside : regs.toNat + 48 ≤ 2 ^ 32

theorem Below.push {sp : Word} {room : Nat} (h : Below sp regs (room + 1)) : Below (sp - 4) regs room := by
  have h1 := h.room
  have h2 := h.above
  have hsp : (sp - 4).toNat = sp.toNat - 4 := by bv_omega
  exact ⟨by omega, by omega, h.inside⟩

theorem Below.holds {room : Nat} (h : Below c.esp regs (room + 1)) (hr : c.mem.Holds regs r.words) (v : Word) :
    (c.push v).mem.Holds regs r.words := by
  have h1 := h.room
  exact Cpu.holds_push hr v (by omega) h.above h.inside

/-- 積んでいる途中の状態。構造体はそのまま残る。 -/
structure Returning (regs : Word) (r : Registers) (c : Cpu) (ws : List Word) (room : Nat) : Prop where
  stack : c.Stack ws
  length_lt : ws.length < 2 ^ 20 - room
  held : c.mem.Holds regs r.words
  below : Below c.esp regs room

theorem Returning.push {room : Nat} (h : Returning regs r c ws (room + 1)) (v : Word) :
    Returning regs r (c.push v) (v :: ws) room := by
  have hlen := h.length_lt
  refine ⟨h.stack.push (by omega) v, ?_, h.below.holds h.held v, h.below.push⟩
  simp only [List.length_cons]
  omega

theorem Returning.congr {c' : Cpu} {room : Nat} (h : Returning regs r c ws room) (hesp : c'.esp = c.esp)
    (hmem : c'.mem = c.mem) : Returning regs r c' ws room := by
  obtain ⟨h1, h2, h3, h4⟩ := h
  refine ⟨?_, h2, hmem ▸ h3, hesp ▸ h4⟩
  rw [Cpu.Stack, hesp, hmem]
  exact h1

/-- 構造体の `i` 番目の語を積む。 -/
theorem Returning.pushField {room i : Nat} {w : Word} (h : Returning regs r c ws (room + 1)) (hbx : c.ebx = regs)
    (hi : r.words[i]? = some w) :
    Returning regs r (c.push (c.mem.word (c.ebx + BitVec.ofNat 32 (4 * i)))) (w :: ws) room := by
  rw [hbx, h.held.get hi]
  exact h.push w

/-- `pushf` と `pop eax` の後も、積んであるものは同じである。 -/
theorem Returning.popEax {room : Nat} (h : Returning regs r c ws (room + 1)) :
    Returning regs r c.pushf.popEax ws (room + 1) ∧ c.pushf.popEax.eax = c.eflags &&& 0x00FCFFFF := by
  have hpush := h.push (c.eflags &&& 0x00FCFFFF)
  obtain ⟨heax, hstack⟩ := hpush.stack.pop
  have hesp : c.pushf.popEax.esp = c.esp := BitVec.sub_add_cancel c.esp 4
  exact ⟨⟨hstack, h.length_lt, hpush.held, hesp ▸ h.below⟩, heax⟩

theorem restoreGpr_spec (alu : Alu) (h : Returning regs r c (next :: regs :: ws) 1) :
    GprRestored r (restoreGpr alu c) ∧ (restoreGpr alu c).eip = next ∧ (restoreGpr alu c).esp = c.esp + 4 ∧
      (restoreGpr alu c).mem = (c.push c.ebp).mem ∧ (restoreGpr alu c).cs = c.cs := by
  have hpushed := (h.push c.ebp).stack
  have hheld := (h.push c.ebp).held
  have hword : ∀ {i : Nat} {w : Word}, r.words[i]? = some w →
      (c.push c.ebp).mem.word (regs + BitVec.ofNat 32 (4 * i)) = w := fun hi => hheld.get hi
  have harg : (c.push c.ebp).mem.word ((c.push c.ebp).esp + 8) = regs := hpushed.get (i := 2) rfl
  have hret : (c.push c.ebp).mem.word ((c.push c.ebp).esp + 4) = next := hpushed.get (i := 1) rfl
  have h0 : (c.push c.ebp).mem.word regs = r.edi := hheld.1
  have hback : (c.push c.ebp).esp + 4 = c.esp := BitVec.sub_add_cancel c.esp 4
  simp only [restoreGpr, Cpu.ret, Cpu.pop, Cpu.addEsp, harg]
  refine ⟨⟨h0, hword (i := 1) rfl, hword (i := 2) rfl, hword (i := 3) rfl, hword (i := 4) rfl, hword (i := 5) rfl,
    hword (i := 6) rfl⟩, hret, ?_, trivial, rfl⟩
  rw [hback]

theorem taskReturnPush_spec {ret : Word} (alu : Alu) (h : Returning regs r c (ret :: regs :: ws) 8) :
    Returning regs r (taskReturnPush alu c)
        (regs :: r.ip :: r.cs :: (c.eflags &&& 0x00FCFFFF ||| 0x200) :: r.esp :: r.ss :: ret :: regs :: ws) 2 ∧
      (taskReturnPush alu c).cs = c.cs := by
  have harg : c.mem.word (c.esp + 4) = regs := h.stack.get (i := 1) rfl
  obtain ⟨c', hc'⟩ : ∃ c', taskReturnPush alu c = c' := ⟨_, rfl⟩
  rw [hc']
  unfold taskReturnPush at hc'
  extract_lets c₁ c₂ c₃ c₄ c₅ c₆ c₇ c₈ c₉ c₁₀ c₁₁ ax c₁₂ at hc'
  have hbx : c₂.ebx = regs := harg
  have h₂ : Returning regs r c₂ (ret :: regs :: ws) 8 := h.congr rfl rfl
  have h₃ : Returning regs r c₃ (r.ss :: ret :: regs :: ws) 7 := h₂.pushField (i := 11) hbx rfl
  have h₄ : Returning regs r c₄ (r.esp :: r.ss :: ret :: regs :: ws) 6 := h₃.pushField (i := 10) hbx rfl
  obtain ⟨h₆, hax⟩ : Returning regs r c₆ (r.esp :: r.ss :: ret :: regs :: ws) 6 ∧ c₆.eax = c.eflags &&& 0x00FCFFFF :=
    h₄.popEax
  have h₇ : Returning regs r c₇ (r.esp :: r.ss :: ret :: regs :: ws) 6 := h₆.congr rfl rfl
  have hax₇ : c₇.eax = c.eflags &&& 0x00FCFFFF ||| 0x200 := congrArg (· ||| 0x200) hax
  have h₈ : Returning regs r c₈ ((c.eflags &&& 0x00FCFFFF ||| 0x200) :: r.esp :: r.ss :: ret :: regs :: ws) 5 := by
    rw [← hax₇]
    exact h₇.push c₇.eax
  have h₉ := h₈.pushField (i := 8) (w := r.cs) hbx rfl
  have h₁₀ : Returning regs r c₁₀ _ 3 := h₉.pushField (i := 7) (w := r.ip) hbx rfl
  have h₁₂ : Returning regs r c₁₂ _ 3 := h₁₀.congr rfl rfl
  have harg₁₂ : c₁₂.mem.word (c₁₂.ebp + 4) = regs := by
    have hget : c₁₂.mem.word (c₁₂.esp + 24) = regs := h₁₂.stack.get (i := 6) rfl
    have hesp : c₁₂.esp = c.esp - 4 - 4 - 4 + 4 - 4 - 4 - 4 := rfl
    have hebp : c₁₂.ebp = c.esp := rfl
    rw [hebp, show c.esp + 4 = c₁₂.esp + 24 by rw [hesp]; bv_omega]
    exact hget
  rw [← hc', harg₁₂]
  exact ⟨h₁₂.push regs, rfl⟩

/-- `task_return` が CPU に読み込む文脈。`flags` だけは、保存したものではなく、呼ばれたときのフラグから決まる。 -/
theorem taskReturn_spec {ret : Word} (alu : Alu) (next : Word) (h : Returning regs r c (ret :: regs :: ws) 8)
    (hp : privilege c.cs < privilege (r.cs.setWidth 16)) :
    ∃ c', taskReturn alu next c = some c' ∧ GprRestored r c' ∧ c'.eip = r.ip ∧ c'.cs = r.cs.setWidth 16 ∧
      c'.eflags = (c.eflags &&& 0x00FCFFFF ||| 0x200) ∧ c'.esp = r.esp ∧ c'.ss = r.ss.setWidth 16 := by
  obtain ⟨h₁, hcs₁⟩ := taskReturnPush_spec alu h
  rw [taskReturn]
  generalize taskReturnPush alu c = c₁ at h₁ hcs₁ ⊢
  have h₂ := h₁.push next
  obtain ⟨hgpr, hip, hesp, hmem, hcs⟩ := restoreGpr_spec alu h₂
  generalize hc₃ : restoreGpr alu (c₁.push next) = c₃ at hgpr hip hesp hmem hcs
  have hcall : c₁.call next (restoreGpr alu) = some c₃ := by
    simp only [Cpu.call, hc₃]
    rw [if_pos hip]
  have hstack : (Cpu.addEsp alu c₃ 4).Stack
      (r.ip :: r.cs :: (c.eflags &&& 0x00FCFFFF ||| 0x200) :: r.esp :: r.ss :: ret :: regs :: ws) := by
    obtain ⟨-, -, -, hrest⟩ := (h₂.push (c₁.push next).ebp).stack
    have hbase : (Cpu.addEsp alu c₃ 4).esp = (c₁.push next).esp + 4 + 4 := congrArg (· + 4) hesp
    have hback : ((c₁.push next).push (c₁.push next).ebp).esp + 4 = (c₁.push next).esp := BitVec.sub_add_cancel _ _
    rw [hback, ← hbase, ← hmem] at hrest
    exact hrest
  have hp₃ : privilege (Cpu.addEsp alu c₃ 4).cs < privilege (r.cs.setWidth 16) := by
    rw [show (Cpu.addEsp alu c₃ 4).cs = c₃.cs from rfl, hcs]
    rw [show (c₁.push next).cs = c₁.cs from rfl, hcs₁]
    exact hp
  refine ⟨(Cpu.addEsp alu c₃ 4).iretd, ?_, ?_⟩
  · simp only [hcall]
    rfl
  · rw [Cpu.iretd_outer hstack hp₃]
    exact ⟨⟨hgpr.1, hgpr.2, hgpr.3, hgpr.4, hgpr.5, hgpr.6, hgpr.7⟩, rfl, rfl, rfl, rfl, rfl⟩

end

end EnkiOs
