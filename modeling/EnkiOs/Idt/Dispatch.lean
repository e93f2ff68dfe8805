import EnkiOs.Idt.Handler
import EnkiOs.Keyboard.Theorems

/-!
# 振り分けの表

カーネルへの出入りの並びと、表を引いた後の手続きの呼び出し。二つの表はカーネルのメモリにあるので、書かれなければ残る。
-/

namespace EnkiOs
open Machine

/-! ## カーネルに入ること -/

/-- `syscall_wrapper` を通るものと、`int%1` を通るもの。`sc` は、そのときキーボードのポートから読めるコードである。 -/
inductive Entry
  | syscall (idx : Word)
  | interrupt (number : Nat) (sc : Byte)

def kernelEntry (image : KernelImage) (env : CallEnv) (m : System) (frame : InterruptFrame) : Entry → Except Fault Exit
  | .syscall idx => syscallHandler image env m idx frame
  | .interrupt number sc => interruptHandler image env sc m number frame

/-- C の手続きの残した状態。 -/
def Exit.system : Exit → System
  | .back _ m => m
  | .resume m => m

/-- 二つの表のバイトが同じである。 -/
structure SameDispatch (image : KernelImage) (mem mem' : Memory) : Prop where
  syscalls : mem'.AgreeOn mem image.syscalls (4 * ENKI_MAX_SYSCALLS)
  intCallbacks : mem'.AgreeOn mem image.intCallbacks (4 * ENKI_TOTAL_INTERRUPTS)

/-- 利用者のプログラムも、カーネルも、二つの表には書かない。`process_get_args` は、渡されたアドレスを調べずに 8 バイト書くので、それも表の外に
なければならない。 -/
inductive SystemStep (image : KernelImage) (env : CallEnv) : System → System → Prop
  | user (m : System) {mem : Memory} (hkept : SameDispatch image m.kernel.mem mem) :
      SystemStep image env m { m with kernel := { m.kernel with mem := mem } }
  | enter {m : System} {frame : InterruptFrame} {entry : Entry} {exit : Exit}
      (h : kernelEntry image env m frame entry = .ok exit)
      (hkept : SameDispatch image m.kernel.mem exit.system.kernel.mem) : SystemStep image env m exit.system

abbrev SystemRun (image : KernelImage) (env : CallEnv) : System → System → Prop :=
  Relation.ReflTransGen (SystemStep image env)

variable {image : KernelImage} {env : CallEnv} {m m' : System} {exit : Exit} {frame : InterruptFrame}

theorem SameDispatch.trans {mem mem₁ mem' : Memory} (h : SameDispatch image mem mem₁) (h' : SameDispatch image mem₁ mem') :
    SameDispatch image mem mem' where
  syscalls l hl := (h'.syscalls l hl).trans (h.syscalls l hl)
  intCallbacks l hl := (h'.intCallbacks l hl).trans (h.intCallbacks l hl)

theorem SystemStep.tables (h : SystemStep image env m m') : SameDispatch image m.kernel.mem m'.kernel.mem := by
  cases h with
  | user hkept => exact hkept
  | enter _ hkept => exact hkept

theorem SystemRun.tables (h : SystemRun image env m m') : SameDispatch image m.kernel.mem m'.kernel.mem := by
  induction h with
  | refl => exact ⟨fun _ _ => rfl, fun _ _ => rfl⟩
  | tail _ hstep ih => exact ih.trans hstep.tables

/-! ## 手続きの呼び出し -/

/-- `task_page` は、今のタスクを選び直すだけで、状態を変えない。 -/
theorem Exit.page_ok {exit' : Exit} (h : exit.page = .ok exit') : exit' = exit := by
  cases exit with
  | back result m =>
      obtain ⟨m', hpage, hexit⟩ := bind_ok.1 h
      simp only [taskPage] at hpage
      split at hpage
      · cases hpage
      · cases hpage
        cases hexit
        rfl
  | resume m =>
      cases h
      rfl

theorem Exit.page_back {result : Word} (hcur : m.kernel.taskCurrent ≠ 0) : (Exit.back result m).page = .ok (.back result m) := by
  simp only [Exit.page, taskPage]
  rw [if_neg hcur]
  rfl

/-- 今のタスクのレジスタを保存した状態。 -/
def System.saved (m : System) (frame : InterruptFrame) : System :=
  { m with kernel := taskSaveState m.kernel m.kernel.taskCurrent frame }

@[simp] theorem System.saved_mem (m : System) (frame : InterruptFrame) : (m.saved frame).kernel.mem = m.kernel.mem := rfl

theorem syscallHandler_eq (idx : Word) (frame : InterruptFrame) (hcur : m.kernel.taskCurrent ≠ 0) :
    syscallHandler image env m idx frame = syscallInvoke image env (m.saved frame) idx.toInt >>= Exit.page := by
  rw [syscallHandler, taskCurrentSaveState_eq frame hcur]
  rfl

theorem KernelImage.syscallAt_syscallFn (image : KernelImage) (fn : Syscall) :
    image.syscallAt (image.syscallFn fn) = some fn := by
  rw [syscallAt]
  simp only [image.syscallFn_inj.eq_iff]
  cases fn <;> decide

theorem KernelImage.callbackAt_callbackFn (image : KernelImage) (callback : IntCallback) :
    image.callbackAt (image.callbackFn callback) = some callback := by
  rw [callbackAt]
  simp only [image.callbackFn_inj.eq_iff]
  cases callback <;> decide

/-- 表から引いた手続きが呼ばれる。 -/
theorem syscallInvoke_some {idx : Int} {fn : Syscall} (hrange : ¬(idx < 0 ∨ (ENKI_MAX_SYSCALLS : Int) ≤ idx))
    (h : m.kernel.mem.entry image.syscalls idx.toNat = image.syscallFn fn) :
    syscallInvoke image env m idx = syscallRun env m fn := by
  simp only [syscallInvoke]
  rw [if_neg hrange, h, if_neg (image.syscallFn_ne fn), image.syscallAt_syscallFn]

theorem interruptHandler_none (sc : Byte) {number : Nat} (frame : InterruptFrame) (hcur : m.kernel.taskCurrent ≠ 0)
    (h : m.kernel.mem.entry image.intCallbacks number = 0) :
    interruptHandler image env sc m number frame = .ok (.back 0 m) := by
  simp only [interruptHandler]
  rw [if_pos h]
  exact Exit.page_back hcur

theorem interruptHandler_some (sc : Byte) {number : Nat} {callback : IntCallback} (frame : InterruptFrame)
    (hcur : m.kernel.taskCurrent ≠ 0) (h : m.kernel.mem.entry image.intCallbacks number = image.callbackFn callback) :
    interruptHandler image env sc m number frame = intCallbackRun env sc (m.saved frame) callback >>= Exit.page := by
  simp only [interruptHandler]
  rw [h, if_neg (image.callbackFn_ne callback), taskCurrentSaveState_eq frame hcur, image.callbackAt_callbackFn]
  rfl

/-! ## 一つのカーネル -/

/-- プロセス 1 のタスクが動いているところ。 -/
def keySystem : System where
  kernel := keyKernel
  tty := ⟨0, 0, fun _ => 0, []⟩
  capslock := KEYBOARD_CAPSLOCK_OFF

/-- 16 バイトおきに置いた手続きと、その後ろの表。 -/
def sampleImage : KernelImage where
  syscalls := 0x180000
  intCallbacks := 0x180400
  syscallFn
    | .print => 0x110010
    | .getkey => 0x110020
    | .putchar => 0x110030
    | .malloc => 0x110040
    | .free => 0x110050
    | .procStart => 0x110060
    | .system => 0x110070
    | .pgmArgs => 0x110080
    | .exit => 0x110090
  callbackFn
    | .idtHandleException => 0x1100A0
    | .idtClock => 0x1100B0
    | .ps2HandleInterrupt => 0x1100C0
  syscallFn_ne fn := by cases fn <;> decide
  syscallFn_inj := by
    intro a b
    cases a <;> cases b <;> decide
  callbackFn_ne callback := by cases callback <;> decide
  callbackFn_inj := by
    intro a b
    cases a <;> cases b <;> decide

/-- 登録の前の表は、0 で埋まっている。 -/
theorem keySystem_entry (base : Word) (i : Nat) : keySystem.kernel.mem.entry base i = 0 :=
  show (((0 : Byte) ++ (0 : Byte) : BitVec 16) ++ ((0 : Byte) ++ (0 : Byte) : BitVec 16) : Word) = 0 by decide

end EnkiOs
