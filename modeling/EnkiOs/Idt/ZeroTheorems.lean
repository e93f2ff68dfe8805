import EnkiOs.Idt.Theorems

/-!
# 0 で割るプログラム

門 0 は、`iret` で終わる入口ではなく、C の手続き `idt_zero` そのものを示す。
-/

namespace EnkiOs
open Machine

/-- `divide` にある命令が 0 で割り、門の示すところに入り、そこから戻るまでを、`n` 回くり返す。`code` は、アドレスごとの、最初の命令から戻るまでの実行である。
入ったアドレスの並びも返す。 -/
def divideAgain (t : Traps) (code : Word → Option (Cpu → Cpu)) (divide : Word) : Nat → Cpu → Option (List Word × Cpu)
  | 0, c => some ([], c)
  | n + 1, c =>
      if c.eip = divide then do
        let k ← Cpu.trap t (.exception 0) 0 c
        let routine ← code k.eip
        let (entered, c) ← divideAgain t code divide n (routine k)
        return (k.eip :: entered, c)
      else none

/-- 翻訳された `idt_zero`。スタックに余裕があれば、呼び出しの約束を守り、門の表に書かない。 -/
def PlainReturn (idtZero : Cpu → Cpu) (idt : Word) : Prop :=
  ∀ k : Cpu, 0x300000 ≤ k.esp.toNat → Cpu.Cdecl idtZero k 0 0 ∧ (idtZero k).mem.AgreeOn k.mem idt 4096

/-- カーネルの特権で、割った命令の前にいる。 -/
structure Elevated (eip esp : Word) (c : Cpu) : Prop where
  eip : c.eip = eip
  esp : c.esp = esp
  cs : c.cs = KERNEL_CODE_SEG

variable {idt entry divide : Word} {idtZero : Cpu → Cpu} {code : Word → Option (Cpu → Cpu)} {c k : Cpu}

/-- 一度の割り込み。 -/
theorem divideAgain_succ {t : Traps} {n : Nat} {entered : List Word} {c' : Cpu} (heip : c.eip = divide)
    (htrap : Cpu.trap t (.exception 0) 0 c = some k) (hentry : k.eip = entry) (hcode : code entry = some idtZero)
    (hrest : divideAgain t code divide n (idtZero k) = some (entered, c')) :
    divideAgain t code divide (n + 1) c = some (entry :: entered, c') := by
  rw [divideAgain, if_pos heip, htrap]
  simp only [Option.bind_eq_bind, Option.bind_some, hentry, hcode, hrest, pure]

/-- `ret` は、割った命令の位置だけを下ろす。 -/
theorem PlainReturn.elevated (h : PlainReturn idtZero idt) (hroom : 0x300000 ≤ k.esp.toNat) {eip : Word}
    (heip : k.mem.word k.esp = eip) (hcs : k.cs = KERNEL_CODE_SEG) : Elevated eip (k.esp + 4) (idtZero k) where
  eip := (h k hroom).1.eip.trans heip
  esp := (h k hroom).1.esp
  cs := (h k hroom).1.cs.trans hcs

theorem interruptSame_top (c : Cpu) (entry : Word) (cs : BitVec 16) :
    (c.interruptSame entry cs).mem.word (c.interruptSame entry cs).esp = c.eip ∧ (c.interruptSame entry cs).esp = c.esp - 12 := by
  have hempty : Cpu.Stack c [] := trivial
  have hstack := hempty.pushAll [c.eflags, c.cs.setWidth 32, c.eip] (by simp)
  obtain ⟨mem, heq⟩ := Cpu.pushAll_eq c [c.eflags, c.cs.setWidth 32, c.eip]
  refine ⟨hstack.1, ?_⟩
  rw [Cpu.interruptSame, heq]
  rfl

/-- 積む場所が表より上なら、門は変わらない。 -/
theorem pushAll_gate (c : Cpu) {vs : List Word} (hinside : idt.toNat + 4096 ≤ 0x200000) (hlen : vs.length ≤ 8)
    (hroom : 0x300000 + 32 ≤ c.esp.toNat) : (c.pushAll vs).mem.AgreeOn c.mem idt 4096 := by
  intro l hl
  refine Cpu.pushAll_byte c vs (by omega) ?_
  have hlist : (BitVec.ofNat 32 (4 * vs.length)).toNat = 4 * vs.length := by
    rw [BitVec.toNat_ofNat, Nat.mod_eq_of_lt (by omega)]
  bv_omega

/-- `idt_zero` から戻っても、門 0 は読める。 -/
theorem PlainReturn.gate (h : PlainReturn idtZero idt) (hroom : 0x300000 ≤ k.esp.toNat) (hagree : k.mem.AgreeOn c.mem idt 4096)
    (hgate : GateLaid c.mem (idtEntry idt 0) entry 0x08 0xEE) : GateLaid (idtZero k).mem (idtEntry idt 0) entry 0x08 0xEE :=
  (hgate.congr (hagree.sub (k := 0) (by decide))).congr ((h k hroom).2.sub (k := 0) (by decide))

/-- カーネルの特権のまま、もう一度割ると、また `idt_zero` に入り、スタックは 8 バイトずつ減る。 -/
theorem divideAgain_elevated (hcode : code entry = some idtZero) (hzero : PlainReturn idtZero idt)
    (hinside : idt.toNat + 4096 ≤ 0x200000) (n : Nat) (hc : Elevated divide c.esp c)
    (hroom : 0x300000 + 32 + 8 * n ≤ c.esp.toNat) (hgate : GateLaid c.mem (idtEntry idt 0) entry 0x08 0xEE) :
    ∃ c', divideAgain ⟨0xFFF, idt, KERNEL_STACK, KERNEL_DATA_SEG⟩ code divide n c = some (List.replicate n entry, c') ∧
      Elevated divide (c.esp - BitVec.ofNat 32 (8 * n)) c' := by
  induction n generalizing c with
  | zero => exact ⟨c, rfl, by simpa using hc⟩
  | succ n ih =>
      have htrap := @trap_of_laid idt c entry KERNEL_STACK KERNEL_DATA_SEG (.exception 0) 0 hgate
      rw [hc.cs, if_neg (by decide), Cause.pushCode_of_not_mem _ (by decide)] at htrap
      obtain ⟨htop, hesp⟩ := interruptSame_top c entry 0x08
      have hkernel : 0x300000 ≤ (c.interruptSame entry 0x08).esp.toNat := by
        rw [hesp]
        bv_omega
      have hback : (c.interruptSame entry 0x08).esp + 4 = c.esp - 8 := by
        rw [hesp]
        bv_omega
      have hnext := hzero.elevated hkernel (htop.trans hc.eip) rfl
      have hlaid := hzero.gate hkernel (pushAll_gate c hinside (by simp) (by omega)) hgate
      rw [hback] at hnext
      have hbelow : (c.esp - 8).toNat = c.esp.toNat - 8 := by bv_omega
      obtain ⟨c', hrun, hlast⟩ := @ih (idtZero (c.interruptSame entry 0x08)) ⟨hnext.eip, rfl, hnext.cs⟩
        (by rw [hnext.esp]; omega) hlaid
      refine ⟨c', divideAgain_succ hc.eip htrap rfl hcode hrun, ?_⟩
      have hsum : c.esp - 8 - BitVec.ofNat 32 (8 * n) = c.esp - BitVec.ofNat 32 (8 * (n + 1)) := by
        rw [Nat.mul_succ, Nat.add_comm, BitVec.ofNat_add]
        exact (sub_add_eq_sub_sub _ _ _).symm
      rw [← hsum, ← hnext.esp]
      exact hlast

/-- 0 で割った利用者のプログラムは、`idt_zero` から戻ると、割った命令に、カーネルの特権とカーネルのスタックのまま戻る。そこで割り直しても、入るのは
`idt_zero` だけで、登録された手続きを呼ぶ `int0` には入らない。割り直すたびに、カーネルのスタックが 8 バイトずつ減る。 -/
theorem divideAgain_escalates {user : Cpu} {table : List Word} {base syscallWrapper : Word} {limit : BitVec 16}
    {mem₀ mem₁ : Memory}
    (hlen : table.length = ENKI_TOTAL_INTERRUPTS) (hinside : idt.toNat + 4096 ≤ 0x200000)
    (hinit : idtInit idt table entry syscallWrapper mem₀ = .ok (limit, base, mem₁)) (hidt : user.mem.AgreeOn mem₁ idt 4096)
    (hp : privilege user.cs = 3) (hcode : code entry = some idtZero) (hzero : PlainReturn idtZero idt) (n : Nat)
    (hroom : 8 * n + 64 ≤ 0x300000) :
    ∃ entered c,
      divideAgain ⟨limit, base, KERNEL_STACK, KERNEL_DATA_SEG⟩ code user.eip (n + 1) user = some (entered, c) ∧
      entered = List.replicate (n + 1) entry ∧ (∀ stub ∈ table[0]?, stub ≠ entry → stub ∉ entered) ∧
      Elevated user.eip (KERNEL_STACK - 16 - BitVec.ofNat 32 (8 * n)) c := by
  obtain ⟨mem₂, hinit₂, hvectors, -⟩ := idtInit_laid idt entry syscallWrapper mem₀ hlen
  cases hinit.symm.trans hinit₂
  obtain ⟨zero, hentry, hgate⟩ := hvectors 0
  cases (show vectorEntry table entry syscallWrapper 0 = some entry from rfl).symm.trans hentry
  have hlaid : GateLaid user.mem (idtEntry idt 0) entry 0x08 0xEE := hgate.congr (hidt.sub (k := 0) (by decide))
  have htrap := @trap_of_laid idt user entry KERNEL_STACK KERNEL_DATA_SEG (.exception 0) 0 hlaid
  rw [hp, if_pos (by decide), Cause.pushCode_of_not_mem _ (by decide)] at htrap
  have hk : KERNEL_STACK.toNat = 0x600000 := rfl
  have hesp : (user.interrupt KERNEL_STACK entry KERNEL_DATA_SEG 0x08).esp = KERNEL_STACK - 20 := by
    have hgpr := @interrupt_gpr user _ entry rfl
    simp only [List.cons.injEq] at hgpr
    exact hgpr.2.2.2.2.1
  have hkernel : 0x300000 ≤ (user.interrupt KERNEL_STACK entry KERNEL_DATA_SEG 0x08).esp.toNat := by
    rw [hesp]
    decide
  have hnext := hzero.elevated hkernel (interrupt_stack user entry).1 rfl
  have hroom₀ : 0x300000 + 32 ≤ KERNEL_STACK.toNat := by decide
  have hlaid' := hzero.gate hkernel (c := user) (pushAll_gate { user with esp := KERNEL_STACK, ss := KERNEL_DATA_SEG } hinside
    (by simp) hroom₀) hlaid
  rw [hesp, show KERNEL_STACK - 20 + 4 = KERNEL_STACK - 16 by decide] at hnext
  obtain ⟨c, hrun, hlast⟩ := divideAgain_elevated hcode hzero hinside n ⟨hnext.eip, rfl, hnext.cs⟩
    (by rw [hnext.esp, show (KERNEL_STACK - 16).toNat = 0x5FFFF0 by decide]; omega) hlaid'
  rw [hnext.esp] at hlast
  refine ⟨_, c, divideAgain_succ rfl htrap rfl hcode hrun, rfl, ?_, hlast⟩
  intro stub _ hne hmem
  exact hne (List.eq_of_mem_replicate (n := n + 1) hmem)

/-- 最初の命令で 0 で割り、もう一度割る。`int0` は 0x101000 にある。 -/
theorem divideAgain_escalates_twice :
    ∃ mem₁, idtInit 0x108000 (List.replicate 512 0x101000) 0x102000 0x103000 (fun _ => 0) = .ok (0xFFF, 0x108000, mem₁) ∧
      ∃ c, divideAgain ⟨0xFFF, 0x108000, KERNEL_STACK, KERNEL_DATA_SEG⟩ (fun a => if a = 0x102000 then some Cpu.ret else none)
          ENKI_PGM_VIRT_ADDR 2 { carryUser with mem := mem₁ } = some ([0x102000, 0x102000], c) ∧
        Elevated ENKI_PGM_VIRT_ADDR (KERNEL_STACK - 24) c := by
  obtain ⟨mem₁, hinit, -, -⟩ := @idtInit_laid (List.replicate 512 0x101000) 0x108000 0x102000 0x103000 (fun _ => 0)
    List.length_replicate
  have hzero : PlainReturn Cpu.ret 0x108000 := fun k _ => ⟨Cpu.ret_cdecl k 0 0, fun _ _ => rfl⟩
  have hidt : ({ carryUser with mem := mem₁ } : Cpu).mem.AgreeOn mem₁ 0x108000 4096 := fun _ _ => rfl
  have huser : privilege carryUser.cs = 3 := by decide
  let code : Word → Option (Cpu → Cpu) := fun a => if a = 0x102000 then some Cpu.ret else none
  have hcode : code 0x102000 = some Cpu.ret := if_pos rfl
  obtain ⟨_, c, hrun, rfl, -, hlast⟩ := divideAgain_escalates List.length_replicate (by decide) hinit hidt huser hcode hzero 1
    (by decide)
  exact ⟨mem₁, hinit, c, hrun, hlast⟩

end EnkiOs
