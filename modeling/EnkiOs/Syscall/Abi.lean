import EnkiOs.Idt.DispatchTheorems
import EnkiOs.Task.Interrupt

/-!
# 利用者の側からのシステムコール

`libc/enki/enki.asm` の手続きと、`int 0x80` から C の手続きを経て戻るまで。`sys` は、`int 0x80` を実行して、次の命令に戻るまでの
状態の変化である。
-/

namespace EnkiOs
open Machine

/-! ## `enki.asm` -/

section

variable (alu : Alu) (sys : Cpu → Option Cpu)

/-- 引数を一つ渡す手続き。番号を入れてから、引数を積む。 -/
def enkiArgCall (number : Word) (c : Cpu) : Option Cpu := do
  let c := c.push c.ebp
  let c := { c with ebp := c.esp }
  let c := { c with eax := number }
  let c := c.push (c.mem.word (c.ebp + 8))
  let c ← sys c
  let c := Cpu.addEsp alu c 4
  let c := c.popEbp
  return c.ret

/-- 引数を渡さない手続き。 -/
def enkiPlainCall (number : Word) (c : Cpu) : Option Cpu := do
  let c := c.push c.ebp
  let c := { c with ebp := c.esp }
  let c := { c with eax := number }
  let c ← sys c
  let c := c.popEbp
  return c.ret

/-- `enki_print` だけは、引数を積んでから番号を入れる。 -/
def enkiPrintAsm (c : Cpu) : Option Cpu := do
  let c := c.push c.ebp
  let c := { c with ebp := c.esp }
  let c := c.push (c.mem.word (c.ebp + 8))
  let c := { c with eax := 1 }
  let c ← sys c
  let c := Cpu.addEsp alu c 4
  let c := c.popEbp
  return c.ret

def enkiGetkeyAsm : Cpu → Option Cpu := enkiPlainCall sys 2

def enkiPutcharAsm : Cpu → Option Cpu := enkiArgCall alu sys 3

def enkiMallocAsm : Cpu → Option Cpu := enkiArgCall alu sys 4

def enkiFreeAsm : Cpu → Option Cpu := enkiArgCall alu sys 5

def enkiProcessStartAsm : Cpu → Option Cpu := enkiArgCall alu sys 6

def enkiSystemAsm : Cpu → Option Cpu := enkiArgCall alu sys 7

def enkiProcessArgsAsm : Cpu → Option Cpu := enkiArgCall alu sys 8

def enkiExitAsm : Cpu → Option Cpu := enkiPlainCall sys 9

/-- `fn` を呼ぶための手続き。 -/
def Syscall.stub : Syscall → Cpu → Option Cpu
  | .print => enkiPrintAsm alu sys
  | .getkey => enkiGetkeyAsm sys
  | .putchar => enkiPutcharAsm alu sys
  | .malloc => enkiMallocAsm alu sys
  | .free => enkiFreeAsm alu sys
  | .procStart => enkiProcessStartAsm alu sys
  | .system => enkiSystemAsm alu sys
  | .pgmArgs => enkiProcessArgsAsm alu sys
  | .exit => enkiExitAsm sys

end

/-- 手続きが `eax` に入れる番号。 -/
def Syscall.number : Syscall → Word
  | .print => 1
  | .getkey => 2
  | .putchar => 3
  | .malloc => 4
  | .free => 5
  | .procStart => 6
  | .system => 7
  | .pgmArgs => 8
  | .exit => 9

def Syscall.takesArg : Syscall → Bool
  | .getkey | .exit => false
  | _ => true

/-- 手続きは、引数を渡すか渡さないかの二通りしかない。書き出しの手続きも、`int 0x80` までには、ほかと同じ状態になる。 -/
theorem Syscall.stub_eq (alu : Alu) (sys : Cpu → Option Cpu) (fn : Syscall) :
    fn.stub alu sys = if fn.takesArg then enkiArgCall alu sys fn.number else enkiPlainCall sys fn.number := by
  cases fn <;> rfl

/-- 手続きの番号は、その手続きの登録された番号である。 -/
theorem registeredSyscalls_number (fn : Syscall) : registeredSyscalls.lookup fn.number.toInt = some fn := by
  cases fn <;> decide

/-- `int 0x80`。`next` は次の命令の位置で、そこに戻らなければ、続きは実行されない。 -/
def enkiInt (t : Traps) (wrapper : Cpu → Option Cpu) (next : Word) (c : Cpu) : Option Cpu := do
  let c ← Cpu.trap t .software 0x80 { c with eip := next }
  let c ← wrapper c
  if c.eip = next then return c else none

/-! ## C の手続き -/

/-- 翻訳された `syscall_handler`。スタックの引数を読み、値を返すなら、呼び出しの約束を守って、その値を `eax` に返す。書き込むのは、
`keep` の外だけである。 -/
def Implements (handler : Cpu → Cpu) (image : KernelImage) (env : CallEnv) (m : System) (keep : Word → Prop) : Prop :=
  ∀ k result m', k.esp = KERNEL_STACK - 64 →
    syscallHandler image env m (k.mem.word (k.esp + 4)) (InterruptFrame.at k.mem (k.mem.word (k.esp + 8))) =
      .ok (.back result m') →
    Serves handler keep k ∧ (handler k).eax = result

/-- 入り口と、`call` の次の命令と、結果を置く変数のアドレス。変数は、カーネルのイメージの中にある。 -/
structure WrapperCode where
  entry : Word
  next : Word
  kernelResult : Word
  inImage : kernelResult.toNat + 4 ≤ 0x200000

section

variable {user : Cpu} {handler : Cpu → Cpu} {image : KernelImage} {env : CallEnv} {m m' : System} {keep : Word → Prop}
  {result : Word}

/-- C の手続きが読む引数。 -/
theorem handlerEntry_args (user : Cpu) (entry number next : Word) :
    (handlerEntry user entry number next).mem.word ((handlerEntry user entry number next).esp + 4) = number ∧
      InterruptFrame.at (handlerEntry user entry number next).mem
        ((handlerEntry user entry number next).mem.word ((handlerEntry user entry number next).esp + 8)) = userFrame user := by
  have hstack := handlerEntry_stack user entry number next
  have hnumber : (handlerEntry user entry number next).mem.word ((handlerEntry user entry number next).esp + 4) = number :=
    hstack.get (i := 1) rfl
  have hframe : (handlerEntry user entry number next).mem.word ((handlerEntry user entry number next).esp + 8) =
      KERNEL_STACK - 52 := hstack.get (i := 2) rfl
  refine ⟨hnumber, ?_⟩
  rw [hframe]
  refine InterruptFrame.at_of_holds ?_
  obtain ⟨-, -, -, hwords⟩ := hstack
  have hbase : (handlerEntry user entry number next).esp + 4 + 4 + 4 = KERNEL_STACK - 52 := by
    rw [handlerEntry_esp]
    decide
  rw [← hbase]
  exact hwords

/-- 利用者の `int 0x80` は、`syscall_handler` の返す値を `eax` に入れて、次の命令に戻る。ほかのレジスタは変わらず、`keep` のメモリも
変わらない。 -/
theorem enkiInt_returns {c : Cpu} {t : Traps} {code : WrapperCode} {next : Word} (alu : Alu) (hp : privilege c.cs = 3)
    (hsegs : UserSegments c)
    (htrap : Cpu.trap t .software 0x80 { c with eip := next } =
      some (Cpu.interrupt { c with eip := next } KERNEL_STACK code.entry KERNEL_DATA_SEG KERNEL_CODE_SEG))
    (himpl : Implements handler image env m keep)
    (hexit : syscallHandler image env m c.eax (userFrame { c with eip := next }) = .ok (.back result m')) :
    ∃ c', enkiInt t (syscallWrapper alu handler code.next code.kernelResult) next c = some c' ∧
      SameContext { c with eip := next, eax := result } c' ∧
      ∀ x, keep x → 64 ≤ (x - (KERNEL_STACK - 64)).toNat → 4 ≤ (x - code.kernelResult).toNat → c'.mem x = c.mem x := by
  have hk : KERNEL_STACK.toNat = 0x600000 := rfl
  have hinside := code.inImage
  obtain ⟨hnumber, hframe⟩ := handlerEntry_args { c with eip := next } code.entry c.eax code.next
  have hreturned := himpl (handlerEntry { c with eip := next } code.entry c.eax code.next) result m' (handlerEntry_esp _ _ _ _)
  rw [hnumber, hframe] at hreturned
  obtain ⟨hserves, heax⟩ := hreturned hexit
  obtain ⟨c', hc', hsame, hkept⟩ := @syscallWrapper_returns { c with eip := next } code.entry code.next handler keep
    code.kernelResult alu hp ⟨hsegs.ds, hsegs.es, hsegs.fs, hsegs.gs⟩ (by omega) hserves
  rw [heax] at hsame
  refine ⟨c', ?_, hsame, hkept⟩
  refine Option.bind_eq_some_iff.2 ⟨_, htrap, Option.bind_eq_some_iff.2 ⟨c', hc', ?_⟩⟩
  exact if_pos hsame.eip

/-- 呼び出しの約束のとおりに、呼んだところに戻る。値の返らないレジスタは、どれも変わらない。 -/
structure StubReturned (c : Cpu) (ret result : Word) (c' : Cpu) : Prop where
  eax : c'.eax = result
  eip : c'.eip = ret
  esp : c'.esp = c.esp + 4
  ebp : c'.ebp = c.ebp
  ebx : c'.ebx = c.ebx
  ecx : c'.ecx = c.ecx
  edx : c'.edx = c.edx
  esi : c'.esi = c.esi
  edi : c'.edi = c.edi
  cs : c'.cs = c.cs
  ss : c'.ss = c.ss
  ds : c'.ds = c.ds
  es : c'.es = c.es
  fs : c'.fs = c.fs
  gs : c'.gs = c.gs

/-- 利用者のスタックの中にいる。 -/
structure OnUserStack (c : Cpu) : Prop where
  low : ENKI_PGM_VIRT_STACK_ADDR_END.toNat + 8 ≤ c.esp.toNat
  high : c.esp.toNat + 4 ≤ ENKI_PGM_VIRT_STACK_ADDR_START.toNat

/-! ## 手続きの初めと終わり -/

/-- 番号を入れたところ。 -/
def Syscall.numbered (fn : Syscall) (c : Cpu) : Cpu := { c.push c.ebp with ebp := (c.push c.ebp).esp, eax := fn.number }

/-- `int 0x80` での状態。 -/
def Syscall.entry (fn : Syscall) (c : Cpu) : Cpu :=
  if fn.takesArg then (fn.numbered c).push ((fn.numbered c).mem.word ((fn.numbered c).ebp + 8)) else fn.numbered c

/-- 呼んだ側の積む引数。 -/
def Syscall.args (fn : Syscall) (arg : Word) : List Word := if fn.takesArg then [arg] else []

variable {fn : Syscall} {c : Cpu} {ret arg next : Word}

theorem Syscall.numbered_stack (h : c.Stack (ret :: fn.args arg)) :
    (fn.numbered c).Stack (c.ebp :: ret :: fn.args arg) := by
  refine Cpu.Stack.push h ?_ c.ebp
  rw [args]
  split <;> simp

/-- 引数を積んでも、その上は変わらない。 -/
theorem Syscall.entry_saved (h : c.Stack (ret :: fn.args arg)) :
    (fn.entry c).mem.Holds (c.esp - 4) (c.ebp :: ret :: fn.args arg) := by
  have hpushed : (fn.numbered c).mem.Holds (c.esp - 4) (c.ebp :: ret :: fn.args arg) := Syscall.numbered_stack h
  have hdist : (c.esp - 4 - (c.esp - 4 - 4)).toNat = 4 := by bv_omega
  rw [entry]
  split
  · refine hpushed.setWord _ ?_ ?_
    · rw [show (fn.numbered c).esp = c.esp - 4 from rfl]
      omega
    · rw [show (fn.numbered c).esp = c.esp - 4 from rfl, args]
      split <;> simp only [List.length_cons, List.length_nil] <;> omega
  · exact hpushed

theorem Syscall.entry_arg (h : c.Stack (ret :: fn.args arg)) (harg : fn.takesArg = true) :
    (fn.entry c).mem.word (fn.entry c).esp = arg := by
  have hpushed := Syscall.numbered_stack h
  rw [args, harg] at hpushed
  have hword : (fn.numbered c).mem.word ((fn.numbered c).ebp + 8) = arg := hpushed.get (i := 2) rfl
  rw [entry, if_pos harg, hword]
  exact Memory.setWord_word _ _ _

/-- 番号と引数を渡しても、残りのレジスタは変わらない。 -/
theorem Syscall.entry_regs (fn : Syscall) (c : Cpu) :
    ∃ mem, fn.entry c = { c with
      esp := if fn.takesArg then c.esp - 4 - 4 else c.esp - 4, ebp := c.esp - 4, eax := fn.number, mem := mem } := by
  rw [entry]
  cases fn.takesArg with
  | false => exact ⟨_, rfl⟩
  | true => exact ⟨_, rfl⟩

/-- 引数を積むまでに書くのは、`esp` の下の 8 バイトだけである。 -/
theorem Syscall.entry_byte {x : Word} (hx : 8 ≤ (x - (c.esp - 8)).toNat) : (fn.entry c).mem x = c.mem x := by
  have hebp : (fn.numbered c).mem x = c.mem x := Memory.setWord_byte _ _ (by bv_omega)
  rw [entry]
  split
  · refine (Memory.setWord_byte _ _ ?_).trans hebp
    rw [show (fn.numbered c).esp = c.esp - 4 from rfl]
    bv_omega
  · exact hebp

/-- 引数を積んだ後も、門は読める。 -/
theorem Syscall.entry_trap (fn : Syscall) {idt entry : Word} (next : Word) (hp : privilege c.cs = 3) (huser : OnUserStack c)
    (hinside : idt.toNat + 4096 ≤ 0x200000) (hgate : GateLaid c.mem (idtEntry idt 0x80) entry 0x08 0xEE) :
    Cpu.trap ⟨0xFFF, idt, KERNEL_STACK, KERNEL_DATA_SEG⟩ .software 0x80 { fn.entry c with eip := next } =
      some (Cpu.interrupt { fn.entry c with eip := next } KERNEL_STACK entry KERNEL_DATA_SEG KERNEL_CODE_SEG) := by
  obtain ⟨hlow, hhigh⟩ := huser
  rw [show ENKI_PGM_VIRT_STACK_ADDR_END.toNat = 0x3FB000 from rfl] at hlow
  rw [show ENKI_PGM_VIRT_STACK_ADDR_START.toNat = 0x3FF000 from rfl] at hhigh
  have hagree : (fn.entry c).mem.AgreeOn c.mem (idtEntry idt 0x80) 8 := by
    intro k hk
    refine Syscall.entry_byte ?_
    simp only [idtEntry, IDT_ENTRY_SIZE]
    bv_omega
  have hlaid : GateLaid ({ fn.entry c with eip := next } : Cpu).mem (idtEntry idt (0x80 : Byte).toNat) entry 0x08 0xEE :=
    hgate.congr hagree
  have huser' : 0 < privilege ({ fn.entry c with eip := next } : Cpu).cs := by
    obtain ⟨mem, hregs⟩ := fn.entry_regs c
    rw [hregs, hp]
    decide
  have hcpu := trap_of_laid KERNEL_STACK KERNEL_DATA_SEG .software hlaid
  rw [if_pos huser'] at hcpu
  exact hcpu

/-- `pop ebp` と `ret`。 -/
theorem stub_epilogue (fn : Syscall) (next flags : Word) {d : Cpu}
    (hsame : SameContext { fn.entry c with eip := next, eax := result, esp := c.esp - 4, eflags := flags } d)
    (hebp : d.mem.word (c.esp - 4) = c.ebp) (hret : d.mem.word c.esp = ret) :
    StubReturned c ret result d.popEbp.ret := by
  obtain ⟨mem, hregs⟩ := fn.entry_regs c
  rw [hregs] at hsame
  have hesp : d.esp = c.esp - 4 := hsame.esp
  have hnext : d.esp + 4 = c.esp := by rw [hesp, BitVec.sub_add_cancel]
  constructor
  · exact hsame.eax
  · show d.mem.word (d.esp + 4) = ret
    rw [hnext, hret]
  · show d.esp + 4 + 4 = c.esp + 4
    rw [hnext]
  · show d.mem.word d.esp = c.ebp
    rw [hesp, hebp]
  · exact hsame.ebx
  · exact hsame.ecx
  · exact hsame.edx
  · exact hsame.esi
  · exact hsame.edi
  · exact hsame.cs
  · exact hsame.ss
  · exact hsame.ds
  · exact hsame.es
  · exact hsame.fs
  · exact hsame.gs

/-- `int 0x80` から戻れば、引数を下ろし、呼んだところに戻る。 -/
theorem Syscall.stub_returned {sys : Cpu → Option Cpu} {d : Cpu} (alu : Alu) (hsys : sys (fn.entry c) = some d)
    (hsame : SameContext { fn.entry c with eip := next, eax := result } d)
    (hebp : d.mem.word (c.esp - 4) = c.ebp) (hret : d.mem.word c.esp = ret) :
    ∃ c', fn.stub alu sys c = some c' ∧ StubReturned c ret result c' ∧ c'.mem = d.mem := by
  obtain ⟨mem, hregs⟩ := fn.entry_regs c
  have hesp : d.esp = if fn.takesArg then c.esp - 4 - 4 else c.esp - 4 := by
    rw [hsame.esp, hregs]
  rw [stub_eq]
  cases harg : fn.takesArg with
  | false =>
      rw [harg, if_neg Bool.false_ne_true] at hesp
      have hcall : enkiPlainCall sys fn.number c = some d.popEbp.ret := by
        rw [entry, harg] at hsys
        exact Option.bind_eq_some_iff.2 ⟨d, hsys, rfl⟩
      have hdone : StubReturned c ret result d.popEbp.ret := by
        refine stub_epilogue fn next d.eflags ?_ hebp hret
        exact { hsame with esp := hesp, eflags := rfl }
      exact ⟨_, hcall, hdone, rfl⟩
  | true =>
      rw [harg, if_pos rfl] at hesp
      have hcall : enkiArgCall alu sys fn.number c = some (Cpu.addEsp alu d 4).popEbp.ret := by
        rw [entry, harg] at hsys
        exact Option.bind_eq_some_iff.2 ⟨d, hsys, rfl⟩
      have hdone : StubReturned c ret result (Cpu.addEsp alu d 4).popEbp.ret := by
        refine stub_epilogue fn next (Cpu.addEsp alu d 4).eflags ?_ hebp hret
        refine { hsame with esp := ?_, eflags := rfl }
        show d.esp + 4 = c.esp - 4
        rw [hesp, BitVec.sub_add_cancel]
      exact ⟨_, hcall, hdone, rfl⟩

/-! ## 呼び出しの全体 -/

/-- `idt_init` の後で、`enki.asm` の手続きを呼ぶと、番号と引数がカーネルに渡る。`syscall_handler` が値を返すなら、その値とともに、呼んだ
ところに戻る。手続きの書かないメモリで変わるのは、`esp` の下の 8 バイトと、カーネルのスタックの 64 バイトと、結果を置く変数だけである。 -/
theorem enkiStub_returns {table : List Word} {idt idtZero base : Word} {limit : BitVec 16} {mem₀ mem₁ : Memory} (alu : Alu)
    (code : WrapperCode) (fn : Syscall) (next : Word) (hlen : table.length = ENKI_TOTAL_INTERRUPTS)
    (hinside : idt.toNat + 4096 ≤ 0x200000) (hinit : idtInit idt table idtZero code.entry mem₀ = .ok (limit, base, mem₁))
    (hidt : c.mem.AgreeOn mem₁ idt 4096) (hp : privilege c.cs = 3) (hsegs : UserSegments c) (huser : OnUserStack c)
    (hstack : c.Stack (ret :: fn.args arg)) (himpl : Implements handler image env m keep)
    (hkeep : ∀ k < 8, keep (c.esp - 4 + BitVec.ofNat 32 k))
    (hexit : syscallHandler image env m fn.number (userFrame { fn.entry c with eip := next }) = .ok (.back result m')) :
    (fn.takesArg = true → (fn.entry c).mem.word (fn.entry c).esp = arg) ∧
    ∃ c', fn.stub alu (enkiInt ⟨limit, base, KERNEL_STACK, KERNEL_DATA_SEG⟩
        (syscallWrapper alu handler code.next code.kernelResult) next) c = some c' ∧
      StubReturned c ret result c' ∧
      ∀ x, keep x → 8 ≤ (x - (c.esp - 8)).toNat → 64 ≤ (x - (KERNEL_STACK - 64)).toNat →
        4 ≤ (x - code.kernelResult).toNat → c'.mem x = c.mem x := by
  obtain ⟨mem₂, hinit₂, hvectors, -⟩ := idtInit_laid idt idtZero code.entry mem₀ hlen
  cases hinit.symm.trans hinit₂
  obtain ⟨entry, hentry, hgate⟩ := hvectors 0x80
  cases (show vectorEntry table idtZero code.entry 0x80 = some code.entry from rfl).symm.trans hentry
  have hlaid := hgate.congr (hidt.sub (k := IDT_ENTRY_SIZE * 0x80) (by decide))
  have htrap := fn.entry_trap next hp huser hinside hlaid
  obtain ⟨mem, hregs⟩ := fn.entry_regs c
  have hexit' : syscallHandler image env m (fn.entry c).eax (userFrame { fn.entry c with eip := next }) =
      .ok (.back result m') := by
    rw [show (fn.entry c).eax = fn.number by rw [hregs]]
    exact hexit
  obtain ⟨d, hd, hsame, hkept⟩ := enkiInt_returns (c := fn.entry c) alu (by rw [hregs]; exact hp)
    (by rw [hregs]; exact ⟨hsegs.ds, hsegs.es, hsegs.fs, hsegs.gs⟩) htrap himpl hexit'
  obtain ⟨hlow, hhigh⟩ := huser
  rw [show ENKI_PGM_VIRT_STACK_ADDR_END.toNat = 0x3FB000 from rfl] at hlow
  rw [show ENKI_PGM_VIRT_STACK_ADDR_START.toNat = 0x3FF000 from rfl] at hhigh
  have hkernel := code.inImage
  have hk : KERNEL_STACK = 0x600000 := rfl
  -- 積んだ `ebp` と戻り先は、カーネルの書くところから離れている
  have hagree : d.mem.AgreeOn (fn.entry c).mem (c.esp - 4) 8 := by
    intro k hk'
    refine hkept _ (hkeep k hk') ?_ ?_
    · rw [hk]
      bv_omega
    · bv_omega
  obtain ⟨hebp, hret, -⟩ := Syscall.entry_saved hstack
  rw [BitVec.sub_add_cancel] at hret
  have hword₁ : d.mem.word (c.esp - 4) = c.ebp := (Memory.AgreeOn.word fun k hk' => hagree k (by omega)).trans hebp
  have hword₂ : d.mem.word c.esp = ret := by
    have hsub := hagree.sub (k := 4) (l := 4) (by decide)
    rw [show c.esp - 4 + BitVec.ofNat 32 4 = c.esp from BitVec.sub_add_cancel c.esp 4] at hsub
    exact hsub.word.trans hret
  obtain ⟨c', hc', hdone, hmem⟩ := Syscall.stub_returned alu hd hsame hword₁ hword₂
  refine ⟨Syscall.entry_arg hstack, c', hc', hdone, ?_⟩
  intro x hx hstub hstack' hresult
  rw [hmem, hkept x hx hstack' hresult, Syscall.entry_byte hstub]

end

/-! ## 登録の済んだカーネル -/

/-- 値を返すときはその値を、`pagedHandler` のとおりに戻って返す手続き。 -/
def answering (image : KernelImage) (env : CallEnv) (m : System) (k : Cpu) : Cpu :=
  { pagedHandler 0x105005 0x10500A k with
    eax := match syscallHandler image env m (k.mem.word (k.esp + 4)) (InterruptFrame.at k.mem (k.mem.word (k.esp + 8))) with
      | .ok (.back result _) => result
      | _ => 0 }

theorem answering_implements (image : KernelImage) (env : CallEnv) (m : System) :
    Implements (answering image env m) image env m fun x => 4 ≤ (x - (KERNEL_STACK - 68)).toNat := by
  intro k result m' hk hback
  obtain ⟨hcdecl, hsegs, hkept⟩ := pagedHandler_serves 0x105005 0x10500A hk
  refine ⟨⟨⟨hcdecl.eip, hcdecl.esp, hcdecl.ebx, hcdecl.ebp, hcdecl.esi, hcdecl.edi, hcdecl.cs, hcdecl.ss, hcdecl.kept⟩,
    ⟨hsegs.ds, hsegs.es, hsegs.fs, hsegs.gs⟩, hkept⟩, ?_⟩
  simp only [answering, hback]

/-- 登録の済んだカーネルでは、打った文字が返る。 -/
theorem typed_getkey {mem : Memory} (hentries : ∀ i < ENKI_MAX_SYSCALLS, mem.entry sampleImage.syscalls i =
      (registeredSyscalls.lookup (i : Int)).elim 0 sampleImage.syscallFn) (frame : InterruptFrame) :
    ∃ m', syscallHandler sampleImage ⟨0, 0, 0, 0⟩
      { keySystem with kernel := { keyboardPush keyKernel 0x61 with mem := mem } } 2 frame = .ok (.back 0x61 m') := by
  generalize hm : ({ keySystem with kernel := { keyboardPush keyKernel 0x61 with mem := mem } } : System) = m
  have hmem : m.kernel.mem = mem := by rw [← hm]
  have hcur : m.kernel.taskCurrent ≠ 0 := by
    rw [← hm]
    exact show (1 : Word) ≠ 0 by decide
  have hkey : (keyboardPop (m.saved frame).kernel).1 = 0x61 := by
    rw [← hm]
    rfl
  have hafter : (keyboardPop (m.saved frame).kernel).2.taskCurrent ≠ 0 := by
    rw [← hm]
    exact show (1 : Word) ≠ 0 by decide
  rw [syscallHandler_eq _ _ hcur, syscallInvoke_registered (m := m.saved frame) (by rw [System.saved_mem, hmem]; exact hentries),
    show registeredSyscalls.lookup (2 : Word).toInt = some .getkey by decide]
  refine ⟨{ m.saved frame with kernel := (keyboardPop (m.saved frame).kernel).2 }, ?_⟩
  rw [show (0x61 : Word) = (keyboardPop (m.saved frame).kernel).1.signExtend 32 by rw [hkey]; decide]
  exact Exit.page_back hafter

/-- 文字 `a` を打った後の `enki_getkey()`。 -/
theorem enkiStub_returns_getkey :
    ∃ (m : System) (c c' : Cpu) (t : Traps),
      syscallRegisterAll sampleImage { keySystem with kernel := keyboardPush keyKernel 0x61 } = .ok m ∧ c.Stack [0x400010] ∧
      enkiGetkeyAsm (enkiInt t (syscallWrapper ⟨fun f _ _ => f, fun f _ _ => f⟩ (answering sampleImage ⟨0, 0, 0, 0⟩ m)
        0x103020 0x104000) 0x400100) c = some c' ∧
      StubReturned c 0x400010 0x61 c' ∧ c'.mem 0x400000 = c.mem 0x400000 := by
  let mem₀ := Memory.setWord (fun _ => 0) 0x3FEFF0 0x400010
  obtain ⟨mem₁, hinit, -, houtside⟩ := @idtInit_laid (List.replicate 512 0x101000) 0x108000 0x102000 0x103000 mem₀
    List.length_replicate
  have hempty : ∀ i < ENKI_MAX_SYSCALLS, ({ keySystem with kernel := keyboardPush keyKernel 0x61 } : System).kernel.mem.entry
      sampleImage.syscalls i = 0 := fun i _ => keySystem_entry 0x180000 i
  obtain ⟨mem, hreg, hentries, -⟩ := syscallRegisterAll_ok hempty
  have hsame : mem₁.AgreeOn mem₀ 0x3FEFF0 4 := fun k hk => houtside _ (by bv_omega)
  have hword : mem₀.Holds 0x3FEFF0 [0x400010] := ⟨Memory.setWord_word _ _ _, trivial⟩
  let c : Cpu := { carryUser with esp := 0x3FEFF0, mem := mem₁ }
  have hstack : c.Stack (0x400010 :: Syscall.getkey.args 0) := hword.congr hsame
  have huser : privilege carryUser.cs = 3 := by decide
  have hlow : ENKI_PGM_VIRT_STACK_ADDR_END.toNat + 8 ≤ (0x3FEFF0 : Word).toNat := by decide
  have hhigh : (0x3FEFF0 : Word).toNat + 4 ≤ ENKI_PGM_VIRT_STACK_ADDR_START.toNat := by decide
  have hkernel : (KERNEL_STACK - 68).toNat = 0x5FFFBC := by decide
  have hstub : 8 ≤ ((0x400000 : Word) - (c.esp - 8)).toNat := show 8 ≤ ((0x400000 : Word) - (0x3FEFF0 - 8)).toNat by decide
  obtain ⟨m', hexit⟩ := typed_getkey hentries (userFrame { Syscall.getkey.entry c with eip := 0x400100 })
  obtain ⟨-, c', hrun, hback, hmem⟩ := enkiStub_returns (c := c) ⟨fun f _ _ => f, fun f _ _ => f⟩
    ⟨0x103000, 0x103020, 0x104000, by decide⟩ .getkey 0x400100 List.length_replicate (by decide) hinit (fun _ _ => rfl) huser
    ⟨rfl, rfl, rfl, rfl⟩ ⟨hlow, hhigh⟩ hstack (answering_implements _ _ _)
    (fun k hk => show 4 ≤ ((0x3FEFF0 : Word) - 4 + BitVec.ofNat 32 k - (KERNEL_STACK - 68)).toNat by bv_omega) hexit
  exact ⟨_, c, c', _, hreg, hstack, hrun, hback, hmem 0x400000 (by decide) hstub (by decide) (by decide)⟩

end EnkiOs
