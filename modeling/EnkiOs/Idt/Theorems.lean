import EnkiOs.Idt.Basic
import EnkiOs.Task.ContextTheorems

/-!
# 門の表の読み取り

`idt_init` の後の表を、CPU がどの番号についてどう読むか。
-/

namespace EnkiOs
open Machine

variable {idtEntries addr x : Word} {table : List Word} {mem mem' : Memory} {i j k : Nat}

/-- `i` 番目の項目の場所。 -/
def idtEntry (idtEntries : Word) (i : Nat) : Word := idtEntries + BitVec.ofNat 32 (IDT_ENTRY_SIZE * i)

theorem idtSet_laid (idtEntries addr : Word) (i : Nat) (mem : Memory) :
    GateLaid (idtSet idtEntries i addr mem) (idtEntry idtEntries i) addr 0x08 0xEE := by
  have hlow : (addr &&& 0x0000FFFF).setWidth 16 = addr.setWidth 16 := by
    rw [BitVec.setWidth_and, show (0x0000FFFF : Word).setWidth 16 = BitVec.allOnes 16 from rfl, BitVec.and_allOnes]
  simp only [idtSet, idtEntry]
  generalize idtEntries + BitVec.ofNat 32 (IDT_ENTRY_SIZE * i) = entry
  constructor
  · rw [Memory.setHalf_other (by bv_omega) (by bv_omega), Memory.write_half (by bv_omega) (by bv_omega),
      Memory.write_half (by bv_omega) (by bv_omega), Memory.setHalf_other (by bv_omega) (by bv_omega), Memory.setHalf_half, hlow]
  · rw [Memory.setHalf_other (by bv_omega) (by bv_omega), Memory.write_half (by bv_omega) (by bv_omega),
      Memory.write_half (by bv_omega) (by bv_omega), Memory.setHalf_half]
  · rw [Memory.setHalf_byte (by bv_omega)]
    simp [Memory.write]
  · exact Memory.setHalf_half

/-- 項目の 8 バイトのほかは変わらない。 -/
theorem idtSet_byte (hx : 8 ≤ (x - idtEntry idtEntries i).toNat) : idtSet idtEntries i addr mem x = mem x := by
  simp only [idtSet]
  rw [idtEntry] at hx
  generalize idtEntries + BitVec.ofNat 32 (IDT_ENTRY_SIZE * i) = entry at hx ⊢
  rw [Memory.setHalf_byte (by bv_omega), Memory.write_one_ne (by bv_omega), Memory.write_one_ne (by bv_omega),
    Memory.setHalf_byte (by bv_omega), Memory.setHalf_byte (by bv_omega)]

/-- 項目は互いに重ならない。 -/
theorem idtSet_other (addr : Word) (mem : Memory) (hi : i < ENKI_TOTAL_INTERRUPTS) (hj : j < ENKI_TOTAL_INTERRUPTS)
    (hne : j ≠ i) : (idtSet idtEntries i addr mem).AgreeOn mem (idtEntry idtEntries j) IDT_ENTRY_SIZE := by
  intro l hl
  refine idtSet_byte ?_
  simp only [idtEntry, ENKI_TOTAL_INTERRUPTS, IDT_ENTRY_SIZE] at *
  bv_omega

/-! ## 表の全体 -/

/-- `i` 番目から後ろを書くと、書いた項目だけが変わる。 -/
theorem idtSetLoop_laid (idtEntries : Word) (mem : Memory) (hlen : table.length = ENKI_TOTAL_INTERRUPTS)
    (hik : i + k = ENKI_TOTAL_INTERRUPTS) :
    ∃ mem', idtSetLoop idtEntries table k i mem = .ok mem' ∧
      (∀ j addr, i ≤ j → table[j]? = some addr → GateLaid mem' (idtEntry idtEntries j) addr 0x08 0xEE) ∧
      (∀ j < i, mem'.AgreeOn mem (idtEntry idtEntries j) IDT_ENTRY_SIZE) ∧
      ∀ x, IDT_ENTRY_SIZE * ENKI_TOTAL_INTERRUPTS ≤ (x - idtEntries).toNat → mem' x = mem x := by
  induction k generalizing i mem with
  | zero =>
      refine ⟨mem, rfl, ?_, fun _ _ _ _ => rfl, fun _ _ => rfl⟩
      intro j addr hij hj
      have hlt := (List.getElem?_eq_some_iff.1 hj).1
      omega
  | succ k ih =>
      have hi : i < table.length := by omega
      have hget := List.getElem?_eq_getElem hi
      obtain ⟨mem', hrun, hlater, hsame, houtside⟩ := ih (i := i + 1) (idtSet idtEntries i table[i] mem) (by omega)
      refine ⟨mem', ?_, ?_, ?_, ?_⟩
      · rw [idtSetLoop, hget]
        exact hrun
      · intro j addr hij hj
        rcases Nat.eq_or_lt_of_le hij with rfl | hlt
        · cases hget.symm.trans hj
          exact (idtSet_laid idtEntries table[i] i mem).congr (hsame i (Nat.lt_succ_self i))
        · exact hlater j addr hlt hj
      · intro j hj l hl
        rw [hsame j (by omega) l hl, idtSet_other _ _ (by omega) (by omega) (by omega) l hl]
      · intro x hx
        rw [houtside x hx]
        refine idtSet_byte ?_
        simp only [idtEntry, ENKI_TOTAL_INTERRUPTS, IDT_ENTRY_SIZE] at *
        bv_omega

/-- 番号 `vector` の割り込みで入る手続き。0 と 0x80 は、表の後から書き換えられる。 -/
def vectorEntry (table : List Word) (idtZero syscallWrapper : Word) (vector : Byte) : Option Word :=
  if vector = 0x80 then some syscallWrapper else if vector = 0 then some idtZero else table[vector.toNat]?

/-- 書き換えた後の項目。 -/
theorem idtSet_vectors {idtZero syscallWrapper : Word} {mem₁ : Memory} (hlen : table.length = ENKI_TOTAL_INTERRUPTS)
    (hlaid : ∀ j addr, 0 ≤ j → table[j]? = some addr → GateLaid mem₁ (idtEntry idtEntries j) addr 0x08 0xEE) (vector : Byte) :
    ∃ entry, vectorEntry table idtZero syscallWrapper vector = some entry ∧
      GateLaid (idtSet idtEntries 0x80 syscallWrapper (idtSet idtEntries 0x0 idtZero mem₁))
        (idtEntry idtEntries vector.toNat) entry 0x08 0xEE := by
  have hlt : vector.toNat < ENKI_TOTAL_INTERRUPTS := Nat.lt_trans vector.isLt (by decide)
  rw [vectorEntry]
  by_cases hsys : vector = 0x80
  · rw [if_pos hsys, hsys]
    exact ⟨_, rfl, idtSet_laid idtEntries syscallWrapper 0x80 _⟩
  · have hsys' : vector.toNat ≠ 0x80 := fun he => hsys (BitVec.eq_of_toNat_eq he)
    have hkept : (idtSet idtEntries 0x80 syscallWrapper (idtSet idtEntries 0x0 idtZero mem₁)).AgreeOn
        (idtSet idtEntries 0x0 idtZero mem₁) (idtEntry idtEntries vector.toNat) IDT_ENTRY_SIZE :=
      idtSet_other _ _ (by decide) hlt hsys'
    rw [if_neg hsys]
    by_cases hzero : vector = 0
    · rw [if_pos hzero]
      refine ⟨_, rfl, GateLaid.congr ?_ hkept⟩
      rw [hzero]
      exact idtSet_laid idtEntries idtZero 0 mem₁
    · have hzero' : vector.toNat ≠ 0 := fun he => hzero (BitVec.eq_of_toNat_eq he)
      have hget := List.getElem?_eq_getElem (l := table) (i := vector.toNat) (by omega)
      rw [if_neg hzero]
      refine ⟨_, hget, GateLaid.congr ?_ hkept⟩
      exact (hlaid _ _ (Nat.zero_le _) hget).congr (idtSet_other _ _ (by decide) hlt hzero')

/-- `idt_init` の後の表。 -/
theorem idtInit_laid (idtEntries idtZero syscallWrapper : Word) (mem : Memory) (hlen : table.length = ENKI_TOTAL_INTERRUPTS) :
    ∃ mem', idtInit idtEntries table idtZero syscallWrapper mem = .ok (0xFFF, idtEntries, mem') ∧
      (∀ vector, ∃ entry, vectorEntry table idtZero syscallWrapper vector = some entry ∧
        GateLaid mem' (idtEntry idtEntries vector.toNat) entry 0x08 0xEE) ∧
      ∀ x, 4096 ≤ (x - idtEntries).toNat → mem' x = mem x := by
  obtain ⟨mem₁, hrun, hlaid, -, houtside⟩ := idtSetLoop_laid (k := 512) (i := 0) idtEntries
    (mem.zero idtEntries (IDT_ENTRY_SIZE * ENKI_TOTAL_INTERRUPTS)) hlen (by decide)
  refine ⟨_, bind_ok.2 ⟨mem₁, hrun, rfl⟩, idtSet_vectors hlen hlaid, ?_⟩
  intro x hx
  rw [idtSet_byte (by simp only [idtEntry, IDT_ENTRY_SIZE]; bv_omega),
    idtSet_byte (by simp only [idtEntry, IDT_ENTRY_SIZE]; bv_omega), houtside x hx, Memory.zero]
  exact Memory.write_other _ _ (by rw [List.length_replicate]; exact hx)

/-- 門の特権の水準は 3 なので、命令による割り込みも断られない。 -/
theorem trap_of_laid {c : Cpu} {entry : Word} (esp0 : Word) (ss0 : BitVec 16) (cause : Cause) {vector : Byte}
    (h : GateLaid c.mem (idtEntry idtEntries vector.toNat) entry 0x08 0xEE) :
    c.trap ⟨0xFFF, idtEntries, esp0, ss0⟩ cause vector =
      some (cause.pushCode vector
        (if 0 < privilege c.cs then c.interrupt esp0 entry ss0 0x08 else c.interruptSame entry 0x08)) := by
  have hlt := vector.isLt
  have hlimit : 8 * vector.toNat + 7 ≤ (0xFFF : BitVec 16).toNat := by
    rw [show (0xFFF : BitVec 16).toNat = 0xFFF from rfl]
    omega
  have hfound : Traps.gate ⟨0xFFF, idtEntries, esp0, ss0⟩ c.mem vector = some ⟨entry, 0x08, 0xEE⟩ := by
    rw [Traps.gate, if_pos hlimit]
    exact congrArg some h.decode
  have hdpl : (⟨entry, 0x08, 0xEE⟩ : Gate).dpl = 3 := show ((0xEE : Byte) >>> 5).setWidth 2 = 3 by decide
  have hallowed : privilege c.cs ≤ (⟨entry, 0x08, 0xEE⟩ : Gate).dpl := by
    rw [hdpl]
    bv_omega
  rw [Cpu.trap, hfound]
  refine (if_pos ⟨show (0xEE : Byte).getLsbD 7 = true by decide, show (0xEE : Byte).setWidth 5 = 0x0E by decide,
    fun _ => hallowed⟩).trans ?_
  rw [show privilege (⟨entry, 0x08, 0xEE⟩ : Gate).selector = 0 from show privilege 0x08 = 0 by decide]
  split <;> rfl

/-- `idt_init` は、渡したメモリのうち、表のほかを変えない。表を読む CPU は、どの特権からの、どの番号の割り込みについても、命令によるもので
あっても、その番号の手続きに入る。エラーコードを積むのは、そう決まった番号の例外だけである。 -/
theorem idtInit_traps (idtEntries idtZero syscallWrapper : Word) (table : List Word) (mem : Memory)
    (hlen : table.length = ENKI_TOTAL_INTERRUPTS) :
    ∃ mem', idtInit idtEntries table idtZero syscallWrapper mem = .ok (0xFFF, idtEntries, mem') ∧
      (∀ x, 4096 ≤ (x - idtEntries).toNat → mem' x = mem x) ∧
      ∀ (c : Cpu) (esp0 : Word) (ss0 : BitVec 16) (cause : Cause) (vector : Byte), c.mem.AgreeOn mem' idtEntries 4096 →
        ∃ entry, vectorEntry table idtZero syscallWrapper vector = some entry ∧
          c.trap ⟨0xFFF, idtEntries, esp0, ss0⟩ cause vector =
            some (cause.pushCode vector
              (if 0 < privilege c.cs then c.interrupt esp0 entry ss0 0x08 else c.interruptSame entry 0x08)) := by
  obtain ⟨mem', hinit, hlaid, houtside⟩ := idtInit_laid idtEntries idtZero syscallWrapper mem hlen
  refine ⟨mem', hinit, houtside, ?_⟩
  intro c esp0 ss0 cause vector hc
  have hlt := vector.isLt
  obtain ⟨entry, hentry, hgate⟩ := hlaid vector
  have hsub : c.mem.AgreeOn mem' (idtEntry idtEntries vector.toNat) 8 :=
    hc.sub (k := IDT_ENTRY_SIZE * vector.toNat) (by simp only [IDT_ENTRY_SIZE]; omega)
  exact ⟨entry, hentry, trap_of_laid esp0 ss0 cause (hgate.congr hsub)⟩

/-- 利用者のプログラムの `int 0x80` は、`syscall_wrapper` に入る。 -/
theorem idtInit_traps_syscall :
    ∃ mem', idtInit 0x108000 (List.replicate 512 0x101000) 0x102000 0x103000 (fun _ => 0) = .ok (0xFFF, 0x108000, mem') ∧
      Cpu.trap ⟨0xFFF, 0x108000, KERNEL_STACK, KERNEL_DATA_SEG⟩ .software 0x80 { carryUser with mem := mem' } =
        some (Cpu.interrupt { carryUser with mem := mem' } KERNEL_STACK 0x103000 KERNEL_DATA_SEG KERNEL_CODE_SEG) := by
  obtain ⟨mem', hinit, -, htrap⟩ := idtInit_traps 0x108000 0x102000 0x103000 (List.replicate 512 0x101000)
    (fun _ => 0) List.length_replicate
  obtain ⟨entry, hentry, hcpu⟩ := htrap { carryUser with mem := mem' } KERNEL_STACK KERNEL_DATA_SEG .software 0x80 fun _ _ => rfl
  cases (show vectorEntry (List.replicate 512 0x101000) 0x102000 0x103000 0x80 = some 0x103000 from rfl).symm.trans hentry
  rw [if_pos (show 0 < privilege carryUser.cs by decide)] at hcpu
  exact ⟨mem', hinit, hcpu⟩

end EnkiOs
