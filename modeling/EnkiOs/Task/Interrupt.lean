import EnkiOs.Lib.Gate
import EnkiOs.Task.ContextTheorems

/-!
# 割り込みからの復帰

`kernel/kernel/idt.asm` の `int%1` と `kernel/kernel/syscall.asm` の `syscall_wrapper`。どちらも C の手続きを呼び、手続きが
戻れば、割り込まれたところに戻る。C の手続きは、`kernel_page` でカーネルのデータセグメントを入れ、戻る前の `task_page` で利用者のものを入れ直す。
-/

namespace EnkiOs
open Machine

/-- `int%1`。`next` は `call interrupt_handler` の次の命令の位置である。 -/
def interruptStub (alu : Alu) (handler : Cpu → Cpu) (next number : Word) (c : Cpu) : Option Cpu := do
  let c := c.pushad
  let c := c.push c.esp
  let c := c.push number
  let c ← c.call next handler
  let c := Cpu.addEsp alu c 8
  let c := c.popad
  return c.iretd

/-- `kernelResult` は、結果を一時に置く変数のアドレスである。 -/
def syscallWrapper (alu : Alu) (handler : Cpu → Cpu) (next kernelResult : Word) (c : Cpu) : Option Cpu := do
  let c := c.pushad
  let c := c.push c.esp
  let c := c.push c.eax
  let c ← c.call next handler
  let c := { c with mem := c.mem.setWord kernelResult c.eax }
  let c := Cpu.addEsp alu c 8
  let c := c.popad
  let c := { c with eax := c.mem.word kernelResult }
  return c.iretd

/-- `mov ax, v` と、データセグメントへの代入。`ss` は変わらない。 -/
def loadData (v : BitVec 16) (c : Cpu) : Cpu := { c.setAx v with ds := v, es := v, fs := v, gs := v }

/-- `kernel/kernel/kernel.asm` の `kernel_registers`。 -/
def kernelRegisters (c : Cpu) : Cpu := (loadData KERNEL_DATA_SEG c).ret

/-- `kernel/task/task.asm` の `user_registers`。 -/
def userRegisters (c : Cpu) : Cpu := (loadData (USER_DATA_SEG.setWidth 16) c).ret

/-- 利用者のデータセグメントが入っている。 -/
structure UserSegments (c : Cpu) : Prop where
  ds : c.ds = USER_DATA_SEG.setWidth 16
  es : c.es = USER_DATA_SEG.setWidth 16
  fs : c.fs = USER_DATA_SEG.setWidth 16
  gs : c.gs = USER_DATA_SEG.setWidth 16

/-- 利用者のプログラムから見える文脈が同じである。 -/
structure SameContext (user c : Cpu) : Prop where
  ds : c.ds = user.ds
  es : c.es = user.es
  fs : c.fs = user.fs
  gs : c.gs = user.gs
  edi : c.edi = user.edi
  esi : c.esi = user.esi
  ebp : c.ebp = user.ebp
  ebx : c.ebx = user.ebx
  edx : c.edx = user.edx
  ecx : c.ecx = user.ecx
  eax : c.eax = user.eax
  eip : c.eip = user.eip
  cs : c.cs = user.cs
  eflags : c.eflags = user.eflags
  esp : c.esp = user.esp
  ss : c.ss = user.ss

/-! ## 手続きに入るまで -/

/-- C の手続きの最初の命令での状態。引数は `number` と、フレームのアドレスである。 -/
def handlerEntry (user : Cpu) (entry number next : Word) : Cpu :=
  (((interruptEntry user entry).push (interruptEntry user entry).esp).push number).push next

section

variable {user : Cpu} {entry number next : Word} {handler : Cpu → Cpu}

theorem interruptEntry_regs (user : Cpu) (entry : Word) :
    ∃ mem, interruptEntry user entry = { user with
      esp := KERNEL_STACK - 52, ss := KERNEL_DATA_SEG, cs := KERNEL_CODE_SEG, eip := entry,
      eflags := user.eflags &&& 0xFFFCBCFF, mem := mem } := by
  have hesp : KERNEL_STACK - BitVec.ofNat 32 (4 * 5) - BitVec.ofNat 32 (4 * 8) = KERNEL_STACK - 52 := by decide
  obtain ⟨m₁, h₁⟩ := Cpu.pushAll_eq { user with esp := KERNEL_STACK, ss := KERNEL_DATA_SEG }
    [user.ss.setWidth 32, user.esp, user.eflags, user.cs.setWidth 32, user.eip]
  obtain ⟨m₂, h₂⟩ := Cpu.pushAll_eq (user.interrupt KERNEL_STACK entry KERNEL_DATA_SEG KERNEL_CODE_SEG)
    [user.eax, user.ecx, user.edx, user.ebx, KERNEL_STACK - 20, user.ebp, user.esi, user.edi]
  refine ⟨m₂, ?_⟩
  rw [interruptEntry, Cpu.pushad, interrupt_gpr rfl, h₂, Cpu.interrupt, h₁]
  simp only [List.length_cons, List.length_nil, Nat.zero_add, Nat.reduceAdd, hesp]

theorem handlerEntry_esp (user : Cpu) (entry number next : Word) :
    (handlerEntry user entry number next).esp = KERNEL_STACK - 64 := by
  obtain ⟨mem, h⟩ := interruptEntry_regs user entry
  rw [handlerEntry, h]
  show KERNEL_STACK - 52 - 4 - 4 - 4 = KERNEL_STACK - 64
  decide

theorem handlerEntry_cs (user : Cpu) (entry number next : Word) :
    (handlerEntry user entry number next).cs = KERNEL_CODE_SEG := by
  obtain ⟨mem, h⟩ := interruptEntry_regs user entry
  rw [handlerEntry, h]
  rfl

/-- 戻り先、番号、フレームのアドレスの上に、割り込まれた文脈がある。 -/
theorem handlerEntry_stack (user : Cpu) (entry number next : Word) :
    (handlerEntry user entry number next).Stack
      (next :: number :: (KERNEL_STACK - 52) :: (userFrame user).words) := by
  obtain ⟨mem, h⟩ := interruptEntry_regs user entry
  have hesp : (interruptEntry user entry).esp = KERNEL_STACK - 52 := by rw [h]
  have hlen : (userFrame user).words.length = 13 := rfl
  have hframe := (interruptEntry_stack user entry).push (by omega) (interruptEntry user entry).esp
  have hnumber := hframe.push (by rw [List.length_cons]; omega) number
  have hall := hnumber.push (by rw [List.length_cons, List.length_cons]; omega) next
  rw [hesp] at hall
  rw [handlerEntry, hesp]
  exact hall

/-- 割り込みで書かれるのは、カーネルのスタックの上の 64 バイトだけである。 -/
theorem handlerEntry_byte {x : Word} (hx : 64 ≤ (x - (KERNEL_STACK - 64)).toNat) :
    (handlerEntry user entry number next).mem x = user.mem x := by
  have hk : KERNEL_STACK.toNat = 0x600000 := rfl
  obtain ⟨mem, h⟩ := interruptEntry_regs user entry
  have hesp : (interruptEntry user entry).esp = KERNEL_STACK - 52 := by rw [h]
  have h₃ : (handlerEntry user entry number next).mem x = (interruptEntry user entry).mem x := by
    refine Cpu.pushAll_byte (interruptEntry user entry) [(interruptEntry user entry).esp, number, next] (by simp) ?_
    rw [hesp]
    simp only [List.length_cons, List.length_nil]
    bv_omega
  have h₂ : (interruptEntry user entry).mem x =
      (user.interrupt KERNEL_STACK entry KERNEL_DATA_SEG KERNEL_CODE_SEG).mem x := by
    refine Cpu.pushAll_byte _ _ (by simp) ?_
    have hgpr := @interrupt_gpr user _ entry rfl
    simp only [List.cons.injEq] at hgpr
    rw [hgpr.2.2.2.2.1]
    simp only [List.length_cons, List.length_nil]
    bv_omega
  have h₁ : (user.interrupt KERNEL_STACK entry KERNEL_DATA_SEG KERNEL_CODE_SEG).mem x = user.mem x := by
    refine Cpu.pushAll_byte { user with esp := KERNEL_STACK, ss := KERNEL_DATA_SEG }
      [user.ss.setWidth 32, user.esp, user.eflags, user.cs.setWidth 32, user.eip] (by simp) ?_
    simp only [List.length_cons, List.length_nil]
    bv_omega
  exact h₃.trans (h₂.trans h₁)

/-! ## 手続きから戻って -/

/-- C の手続きが、`k` で呼ばれて戻る。`task_page` の後なので、利用者のデータセグメントが入っている。`keep` のメモリには書かない。 -/
structure Serves (handler : Cpu → Cpu) (keep : Word → Prop) (k : Cpu) : Prop where
  cdecl : Cpu.Cdecl handler k 2 52
  segments : UserSegments (handler k)
  kept : ∀ x, keep x → (handler k).mem x = k.mem x

/-- 手続きが約束を守って戻ると、割り込まれた文脈がスタックに残っている。 -/
theorem handler_frame (h : Cpu.Cdecl handler (handlerEntry user entry number next) 2 52) :
    (handler (handlerEntry user entry number next)).mem.Holds (KERNEL_STACK - 52) (userFrame user).words ∧
      (handler (handlerEntry user entry number next)).esp + 8 = KERNEL_STACK - 52 ∧
      (handler (handlerEntry user entry number next)).cs = KERNEL_CODE_SEG := by
  have hesp := handlerEntry_esp user entry number next
  have hback : (KERNEL_STACK - 64 + 4 + BitVec.ofNat 32 (4 * 2) : Word) = KERNEL_STACK - 52 := by decide
  obtain ⟨-, -, -, hwords⟩ := handlerEntry_stack user entry number next
  have hbase : (handlerEntry user entry number next).esp + 4 + 4 + 4 = KERNEL_STACK - 52 := by
    rw [hesp]
    decide
  rw [hbase] at hwords
  have hkept := h.kept
  rw [hesp, hback] at hkept
  refine ⟨hwords.congr hkept, ?_, h.cs.trans (handlerEntry_cs user entry number next)⟩
  rw [h.esp, hesp]
  decide

theorem iretd_user {c : Cpu} (hp : privilege user.cs = 3) (hcs : c.cs = KERNEL_CODE_SEG)
    (h : c.Stack [user.eip, user.cs.setWidth 32, user.eflags, user.esp, user.ss.setWidth 32]) :
    c.iretd = { c with eip := user.eip, cs := user.cs, eflags := user.eflags, esp := user.esp, ss := user.ss } := by
  have hlow : privilege c.cs < privilege ((user.cs.setWidth 32).setWidth 16) := by
    rw [hcs, BitVec.setWidth_setWidth_of_le _ (by decide), BitVec.setWidth_eq, hp]
    decide
  rw [Cpu.iretd_outer h hlow]
  simp

/-- `popad` は、フレームのうち汎用レジスタの部分を戻し、CPU の積んだ五語を残す。 -/
theorem popad_user {c : Cpu} (hesp : c.esp = KERNEL_STACK - 52) (h : c.mem.Holds (KERNEL_STACK - 52) (userFrame user).words) :
    c.popad = { c with
      edi := user.edi, esi := user.esi, ebp := user.ebp, ebx := user.ebx, edx := user.edx, ecx := user.ecx, eax := user.eax,
      esp := KERNEL_STACK - 20 } ∧
    c.popad.Stack [user.eip, user.cs.setWidth 32, user.eflags, user.esp, user.ss.setWidth 32] := by
  rw [← hesp] at h
  obtain ⟨hpop, hstack⟩ := Cpu.Stack.popad h
  have hbase : c.esp + 32 = KERNEL_STACK - 20 := by
    rw [hesp]
    decide
  rw [hbase] at hpop
  exact ⟨hpop, hstack⟩

/-- データセグメントと、`popad` と `iretd` の読み戻したものとから、文脈が揃う。 -/
theorem sameContext_of_iretd {c : Cpu} (hp : privilege user.cs = 3) (hsegs : UserSegments user) (hnow : UserSegments c)
    (hcs : c.cs = KERNEL_CODE_SEG)
    (h : c.Stack [user.eip, user.cs.setWidth 32, user.eflags, user.esp, user.ss.setWidth 32])
    (hgpr : [c.edi, c.esi, c.ebp, c.ebx, c.edx, c.ecx] = [user.edi, user.esi, user.ebp, user.ebx, user.edx, user.ecx]) :
    SameContext { user with eax := c.eax } c.iretd ∧ c.iretd.mem = c.mem := by
  simp only [List.cons.injEq, and_true] at hgpr
  obtain ⟨hedi, hesi, hebp, hebx, hedx, hecx⟩ := hgpr
  rw [iretd_user hp hcs h]
  exact ⟨⟨hnow.ds.trans hsegs.ds.symm, hnow.es.trans hsegs.es.symm, hnow.fs.trans hsegs.fs.symm, hnow.gs.trans hsegs.gs.symm,
    hedi, hesi, hebp, hebx, hedx, hecx, rfl, rfl, rfl, rfl, rfl, rfl⟩, rfl⟩

/-- エラーコードを積まない割り込みでは、手続きが戻るなら、割り込まれたプログラムの文脈は、セグメントとフラグも含めて、元のとおりになる。手続きの書かない
メモリは、カーネルのスタックの 64 バイトのほかは、変わらない。 -/
theorem interruptStub_returns {keep : Word → Prop} {vector : Byte} (alu : Alu) (cause : Cause) (hcode : vector ∉ codedVectors)
    (hp : privilege user.cs = 3) (hsegs : UserSegments user)
    (h : Serves handler keep (handlerEntry user entry (vector.setWidth 32) next)) :
    ∃ c', interruptStub alu handler next (vector.setWidth 32)
        (cause.pushCode vector (user.interrupt KERNEL_STACK entry KERNEL_DATA_SEG KERNEL_CODE_SEG)) = some c' ∧
      SameContext user c' ∧ ∀ x, keep x → 64 ≤ (x - (KERNEL_STACK - 64)).toNat → c'.mem x = user.mem x := by
  obtain ⟨hframe, hesp, hcs⟩ := handler_frame h.cdecl
  have hcall : (((interruptEntry user entry).push (interruptEntry user entry).esp).push (vector.setWidth 32)).call next handler =
      some (handler (handlerEntry user entry (vector.setWidth 32) next)) := h.cdecl.call
  have hsegments := h.segments
  have hkept := h.kept
  rw [cause.pushCode_of_not_mem hcode]
  generalize handler (handlerEntry user entry (vector.setWidth 32) next) = d at hframe hesp hcs hcall hsegments hkept
  obtain ⟨hpop, hstack⟩ := popad_user (c := Cpu.addEsp alu d 8) hesp hframe
  have heax : (Cpu.addEsp alu d 8).popad.eax = user.eax := by rw [hpop]
  obtain ⟨hsame, hmem⟩ := sameContext_of_iretd (c := (Cpu.addEsp alu d 8).popad) hp hsegs
    ⟨hsegments.ds, hsegments.es, hsegments.fs, hsegments.gs⟩ hcs hstack (by rw [hpop])
  rw [heax] at hsame
  refine ⟨(Cpu.addEsp alu d 8).popad.iretd, Option.bind_eq_some_iff.2 ⟨d, hcall, rfl⟩, hsame, ?_⟩
  intro x hx hstack
  rw [hmem]
  exact (hkept x hx).trans (handlerEntry_byte hstack)

/-- `kernel_registers` と `user_registers` を呼ぶだけの手続き。 -/
def pagedHandler (first second : Word) (k : Cpu) : Cpu :=
  (userRegisters ((kernelRegisters (k.push first)).push second)).ret

theorem pagedHandler_eq (first second : Word) (k : Cpu) :
    ∃ mem, (∀ x, 4 ≤ (x - (k.esp - 4)).toNat → mem x = k.mem x) ∧
      pagedHandler first second k = { (loadData (USER_DATA_SEG.setWidth 16) (loadData KERNEL_DATA_SEG k)) with
        eip := k.mem.word k.esp, esp := k.esp + 4, mem := mem } := by
  have hback : k.esp - 4 + 4 = k.esp := BitVec.sub_add_cancel k.esp 4
  have hbyte : ∀ x, 4 ≤ (x - (k.esp - 4)).toNat →
      ((k.mem.setWord (k.esp - 4) first).setWord (k.esp - 4) second) x = k.mem x := fun x hx =>
    (Memory.setWord_byte _ _ hx).trans (Memory.setWord_byte _ _ hx)
  refine ⟨(k.mem.setWord (k.esp - 4) first).setWord (k.esp - 4) second, hbyte, ?_⟩
  have hret : ((k.mem.setWord (k.esp - 4) first).setWord (k.esp - 4) second).word k.esp = k.mem.word k.esp :=
    Memory.AgreeOn.word fun l hl => hbyte _ (by bv_omega)
  rw [← hret]
  simp only [pagedHandler, userRegisters, kernelRegisters, loadData, Cpu.ret, Cpu.pop, Cpu.push, Cpu.setAx, hback]

theorem pagedHandler_serves (first second : Word) {k : Cpu} (hk : k.esp = KERNEL_STACK - 64) :
    Serves (pagedHandler first second) (fun x => 4 ≤ (x - (KERNEL_STACK - 68)).toNat) k := by
  obtain ⟨mem, hmem, heq⟩ := pagedHandler_eq first second k
  have hbelow : k.esp - 4 = KERNEL_STACK - 68 := by
    rw [hk]
    decide
  have habove : ∀ l < 52, 4 ≤ (k.esp + 4 + BitVec.ofNat 32 (4 * 2) + BitVec.ofNat 32 l - (k.esp - 4)).toNat := by
    intro l hl
    bv_omega
  rw [hbelow] at hmem
  refine ⟨?_, ?_, ?_⟩
  · constructor <;> rw [heq]
    · rfl
    · rfl
    · rfl
    · rfl
    · rfl
    · rfl
    intro l hl
    exact hmem _ (hbelow ▸ habove l hl)
  · rw [heq]
    exact ⟨rfl, rfl, rfl, rfl⟩
  · intro x hx
    rw [heq]
    exact hmem x hx

/-- キーボードの割り込み。 -/
theorem interruptStub_returns_carry :
    ∃ c', interruptStub ⟨fun f _ _ => f, fun f _ _ => f⟩ (pagedHandler 0x105005 0x10500A) 0x101030 0x21
        (Cause.external.pushCode 0x21 (carryUser.interrupt KERNEL_STACK 0x101000 KERNEL_DATA_SEG KERNEL_CODE_SEG)) = some c' ∧
      SameContext carryUser c' ∧
      ∀ x, 4 ≤ (x - (KERNEL_STACK - 68)).toNat → 64 ≤ (x - (KERNEL_STACK - 64)).toNat → c'.mem x = carryUser.mem x := by
  have hp : privilege carryUser.cs = 3 := by decide
  have hserves : Serves (pagedHandler 0x105005 0x10500A) (fun x => 4 ≤ (x - (KERNEL_STACK - 68)).toNat)
      (handlerEntry carryUser 0x101000 ((0x21 : Byte).setWidth 32) 0x101030) :=
    pagedHandler_serves 0x105005 0x10500A (handlerEntry_esp carryUser 0x101000 _ 0x101030)
  have hreturns := interruptStub_returns ⟨fun f _ _ => f, fun f _ _ => f⟩ .external (by decide) hp ⟨rfl, rfl, rfl, rfl⟩ hserves
  exact hreturns

/-- システムコールの手続きが戻るなら、`eax` は手続きの結果になり、文脈のほかの部分は元のとおりになる。手続きの書かないメモリで変わるのは、カーネルの
スタックの 64 バイトと、結果を置く変数だけである。 -/
theorem syscallWrapper_returns {keep : Word → Prop} {kernelResult : Word} (alu : Alu) (hp : privilege user.cs = 3)
    (hsegs : UserSegments user) (hresult : kernelResult.toNat + 4 ≤ KERNEL_STACK.toNat - 64)
    (h : Serves handler keep (handlerEntry user entry user.eax next)) :
    ∃ c', syscallWrapper alu handler next kernelResult
        (user.interrupt KERNEL_STACK entry KERNEL_DATA_SEG KERNEL_CODE_SEG) = some c' ∧
      SameContext { user with eax := (handler (handlerEntry user entry user.eax next)).eax } c' ∧
      ∀ x, keep x → 64 ≤ (x - (KERNEL_STACK - 64)).toNat → 4 ≤ (x - kernelResult).toNat → c'.mem x = user.mem x := by
  obtain ⟨hframe, hesp, hcs⟩ := handler_frame h.cdecl
  have heax : (interruptEntry user entry).eax = user.eax := by
    obtain ⟨mem, hregs⟩ := interruptEntry_regs user entry
    rw [hregs]
  have hcall : (((interruptEntry user entry).push (interruptEntry user entry).esp).push
      ((interruptEntry user entry).push (interruptEntry user entry).esp).eax).call next handler =
        some (handler (handlerEntry user entry user.eax next)) := by
    rw [Cpu.push_eax, heax]
    exact h.cdecl.call
  have hsegments := h.segments
  have hkept := h.kept
  generalize handler (handlerEntry user entry user.eax next) = d at hframe hesp hcs hcall hsegments hkept ⊢
  have hk : KERNEL_STACK.toNat = 0x600000 := rfl
  have hfar : (KERNEL_STACK - 52 - kernelResult).toNat = KERNEL_STACK.toNat - 52 - kernelResult.toNat := by bv_omega
  have hstored : (d.mem.setWord kernelResult d.eax).Holds (KERNEL_STACK - 52) (userFrame user).words := by
    refine hframe.setWord d.eax (by omega) ?_
    rw [show (userFrame user).words.length = 13 from rfl]
    omega
  obtain ⟨hpop, hstack⟩ := popad_user
    (c := Cpu.addEsp alu { d with mem := d.mem.setWord kernelResult d.eax } 8) hesp hstored
  generalize hc : (Cpu.addEsp alu { d with mem := d.mem.setWord kernelResult d.eax } 8).popad = c at hpop hstack
  have hmem : c.mem = d.mem.setWord kernelResult d.eax := by
    rw [hpop]
    rfl
  have hword : c.mem.word kernelResult = d.eax := by
    rw [hmem]
    exact Memory.setWord_word _ _ _
  have hnow : UserSegments { c with eax := c.mem.word kernelResult } := by
    rw [hpop]
    exact ⟨hsegments.ds, hsegments.es, hsegments.fs, hsegments.gs⟩
  have hcs' : ({ c with eax := c.mem.word kernelResult } : Cpu).cs = KERNEL_CODE_SEG := by
    rw [hpop]
    exact hcs
  obtain ⟨hsame, hmem'⟩ := sameContext_of_iretd (c := { c with eax := c.mem.word kernelResult }) hp hsegs hnow hcs' hstack
    (by rw [hpop])
  refine ⟨({ c with eax := c.mem.word kernelResult } : Cpu).iretd, ?_, ?_, ?_⟩
  · rw [interruptEntry] at hcall
    rw [syscallWrapper]
    refine Option.bind_eq_some_iff.2 ⟨d, hcall, ?_⟩
    simp only [hc]
    rfl
  · rw [← hword]
    exact hsame
  · intro x hx hstack hresult
    rw [hmem', show ({ c with eax := c.mem.word kernelResult } : Cpu).mem = c.mem from rfl, hmem,
      Memory.setWord_byte _ _ hresult, hkept x hx, handlerEntry_byte hstack]

end

end EnkiOs
