import EnkiOs.Disk.Ata
import EnkiOs.Lib.Cpu

/-!
# カーネルを読む手続き

`kernel/boot/boot.asm` の `ata_lba_read`。方向フラグは 0 とし、セグメントはメモリの全体を指すとする。
-/

namespace EnkiOs
open Machine Fuel

section

variable {σ : Type} (p : Ports σ)

/-- `mov dx, v` は `edx` の下位だけを変える。 -/
def movDx (c : Cpu) (v : BitVec 16) : Cpu := { c with edx := c.edx.extractLsb' 16 16 ++ v }

def movAl (c : Cpu) (v : Byte) : Cpu := { c with eax := c.eax.extractLsb' 8 24 ++ v }

/-- `out dx, al` -/
def outDxAl (c : Cpu) (s : σ) : σ := p.outb (c.edx.setWidth 16) (c.eax.setWidth 8) s

/-- 命令を送るまで。 -/
def bootCommand (c : Cpu) (s : σ) : Cpu × σ :=
  let c := { c with ebx := c.eax }
  let c := { c with eax := c.eax >>> 24 }
  let c := { c with eax := c.eax ||| 0xE0 }
  let c := movDx c 0x1F6
  let s := outDxAl p c s
  let c := { c with eax := c.ecx }
  let c := movDx c 0x1F2
  let s := outDxAl p c s
  let c := { c with eax := c.ebx }
  let c := movDx c 0x1F3
  let s := outDxAl p c s
  let c := { c with eax := c.ebx }
  let c := movDx c 0x1F4
  let c := { c with eax := c.eax >>> 8 }
  let s := outDxAl p c s
  let c := { c with eax := c.ebx }
  let c := movDx c 0x1F5
  let c := { c with eax := c.eax >>> 16 }
  let s := outDxAl p c s
  let c := movDx c 0x1F7
  let c := movAl c 0x20
  (c, outDxAl p c s)

/-- `.try_read` の繰り返し。 -/
def bootTryRead : Nat → Cpu → σ → Except Fault (Cpu × σ)
  | 0, _, _ => .error .hang
  | k + 1, c, s =>
      let c := movDx c 0x1F7
      let (al, s) := p.inb (c.edx.setWidth 16) s
      let c := movAl c al
      if al &&& 8 = 0 then bootTryRead k c s else .ok (c, s)

/-- `rep insw`。`ecx` の語を写す。 -/
def repInsw : Nat → Cpu → σ → Cpu × σ
  | 0, c, s => (c, s)
  | k + 1, c, s =>
      let (w, s) := p.inw (c.edx.setWidth 16) s
      repInsw k { c with mem := c.mem.setHalf c.edi w, edi := c.edi + 2, ecx := c.ecx - 1 } s

/-- 用意ができた後。積んだ数を下ろして、一つ減らす。 -/
def bootCopy (c : Cpu) (s : σ) : Cpu × σ :=
  let c := { c with ecx := 256 }
  let c := movDx c 0x1F0
  let (c, s) := repInsw p c.ecx.toNat c s
  let (ecx, c) := c.pop
  let c := { c with ecx := ecx }
  ({ c with ecx := c.ecx - 1 }, s)

/-- 一つのセクタ。読む間、残りの数をスタックに積んでおく。 -/
def bootSector (fuel : Nat) (c : Cpu) (s : σ) : Except Fault (Cpu × σ) := do
  let c := c.push c.ecx
  let (c, s) ← bootTryRead p fuel c s
  return bootCopy p c s

/-- `.next_sector` の繰り返し。残りの回数と、待つ回数の上限を持つ。 -/
def bootNextSector (fuel : Nat) : Nat → Cpu → σ → Except Fault (Cpu × σ)
  | 0, _, _ => .error .hang
  | k + 1, c, s => do
      let (c, s) ← bootSector p fuel c s
      if c.ecx = 0 then return (c, s) else bootNextSector fuel k c s

def ataLbaRead (fuel : Nat) (c : Cpu) (s : σ) : Except Fault (Cpu × σ) := do
  let (c, s) := bootCommand p c s
  let (c, s) ← bootNextSector p fuel fuel c s
  return (c.ret, s)

end

section

variable {σ : Type} {p : Ports σ} (d : AtaDrive p) {s : σ} {c : Cpu} {lba k : Nat}

@[simp] theorem movDx_eax (c : Cpu) (v : BitVec 16) : (movDx c v).eax = c.eax := rfl

@[simp] theorem movDx_ecx (c : Cpu) (v : BitVec 16) : (movDx c v).ecx = c.ecx := rfl

@[simp] theorem movDx_ebx (c : Cpu) (v : BitVec 16) : (movDx c v).ebx = c.ebx := rfl

@[simp] theorem movAl_edx (c : Cpu) (v : Byte) : (movAl c v).edx = c.edx := rfl

@[simp] theorem movDx_dx (c : Cpu) (v : BitVec 16) : (movDx c v).edx.setWidth 16 = v := BitVec.setWidth_append_eq_right

@[simp] theorem movAl_al (c : Cpu) (v : Byte) : (movAl c v).eax.setWidth 8 = v := BitVec.setWidth_append_eq_right

@[simp] theorem movDx_movDx (c : Cpu) (v w : BitVec 16) : movDx (movDx c v) w = movDx c w := by
  simp only [movDx, BitVec.extractLsb'_append_eq_left]

@[simp] theorem movAl_movAl (c : Cpu) (v w : Byte) : movAl (movAl c v) w = movAl c w := by
  simp only [movAl, BitVec.extractLsb'_append_eq_left]

theorem movDx_movAl (c : Cpu) (v : Byte) (w : BitVec 16) : movDx (movAl c v) w = movAl (movDx c w) v := rfl

/-- C の手続きと同じところで待ち終わる。変わるのは `eax` と `edx` だけである。 -/
theorem bootTryRead_eq (p : Ports σ) (fuel : Nat) (c : Cpu) (s : σ) :
    bootTryRead p fuel c s =
      ataWait p fuel (p.inb 0x1F7 s).1 (p.inb 0x1F7 s).2 >>= fun r => .ok (movAl (movDx c 0x1F7) r.1, r.2) := by
  induction fuel generalizing c s with
  | zero => rfl
  | succ k ih =>
      simp only [bootTryRead, ataWait, movDx_dx]
      split
      · rw [ih, movDx_movAl]
        simp only [movDx_movDx, movAl_movAl]
      · rfl

/-- `rep insw` は、C の手続きと同じ順に写す。 -/
theorem repInsw_eq (p : Ports σ) {c : Cpu} (hdx : c.edx.setWidth 16 = (0x1F0 : BitVec 16)) (k : Nat) (s : σ) :
    repInsw p k c s =
      ({ c with mem := (ataCopy p k c.edi c.mem s).1, edi := c.edi + BitVec.ofNat 32 (2 * k), ecx := c.ecx - BitVec.ofNat 32 k },
        (ataCopy p k c.edi c.mem s).2) := by
  induction k generalizing c s with
  | zero => simp [repInsw, ataCopy]
  | succ k ih =>
      have hedi : c.edi + 2 + BitVec.ofNat 32 (2 * k) = c.edi + BitVec.ofNat 32 (2 * (k + 1)) := by
        rw [Nat.mul_succ, Nat.add_comm, BitVec.ofNat_add, BitVec.add_assoc]
        rfl
      have hecx : c.ecx - 1 - BitVec.ofNat 32 k = c.ecx - BitVec.ofNat 32 (k + 1) := by
        rw [Nat.add_comm, BitVec.ofNat_add]
        exact (sub_add_eq_sub_sub _ _ _).symm
      simp only [repInsw, hdx]
      rw [@ih { c with mem := c.mem.setHalf c.edi (p.inw 0x1F0 s).1, edi := c.edi + 2, ecx := c.ecx - 1 } hdx]
      simp only [hedi, hecx, ataCopy]

/-- `rep insw` の後に、積んだ数を下ろす。 -/
theorem repInsw_pop (p : Ports σ) {c : Cpu} (hdx : c.edx.setWidth 16 = (0x1F0 : BitVec 16)) (k : Nat) (s : σ) :
    (repInsw p k c s).1.pop = ((ataCopy p k c.edi c.mem s).1.word c.esp,
      { c with
        esp := c.esp + 4, mem := (ataCopy p k c.edi c.mem s).1, edi := c.edi + BitVec.ofNat 32 (2 * k)
        ecx := c.ecx - BitVec.ofNat 32 k }) := by
  rw [repInsw_eq p hdx]
  rfl

theorem bootCopy_eq (p : Ports σ) (c : Cpu) (s : σ) {k : Nat} (hk : (256 : Word).toNat = k) :
    bootCopy p c s =
      ({ c with
        edx := (movDx c 0x1F0).edx, ecx := (ataCopy p k c.edi c.mem s).1.word c.esp - 1, esp := c.esp + 4
        edi := c.edi + BitVec.ofNat 32 (2 * k), mem := (ataCopy p k c.edi c.mem s).1 }, (ataCopy p k c.edi c.mem s).2) := by
  have hdx : (movDx { c with ecx := 256 } 0x1F0).edx.setWidth 16 = (0x1F0 : BitVec 16) := movDx_dx _ _
  have hcount : (movDx { c with ecx := 256 } 0x1F0).ecx.toNat = k := hk
  simp only [bootCopy, hcount]
  rw [repInsw_pop p hdx, repInsw_eq p hdx]
  rfl

/-- 積んだ数の置き場所。 -/
def Stashed (esp x : Word) : Prop := (x - (esp - 4)).toNat < 4

/-- 一つのセクタを読んだ後の状態。 -/
structure SectorRead (c c' : Cpu) (bytes : List Byte) : Prop where
  ecx : c'.ecx = c.ecx - 1
  esp : c'.esp = c.esp
  edi : c'.edi = c.edi + 512
  mem : ∀ x, ¬Stashed c.esp x → c'.mem x = c.mem.write c.edi bytes x

/-- 積んだ数は、読んだセクタの書き込みでは変わらない。 -/
theorem stashed_word (c : Cpu) (bytes : List Byte) (hfar : ∀ j < bytes.length, ¬Stashed c.esp (c.edi + BitVec.ofNat 32 j)) :
    ((c.push c.ecx).mem.write c.edi bytes).word (c.esp - 4) = c.ecx := by
  have hagree : ((c.push c.ecx).mem.write c.edi bytes).AgreeOn (c.push c.ecx).mem (c.esp - 4) 4 := by
    intro i hi
    refine write_outside fun j hj he => hfar j hj ?_
    rw [← he, Stashed]
    bv_omega
  exact hagree.word.trans (Memory.setWord_word _ _ _)

theorem bootSector_settles (h : d.waiting lba (k + 1) s) (hfar : ∀ j < 512, ¬Stashed c.esp (c.edi + BitVec.ofNat 32 j)) :
    ∃ c' s', Settles (fun fuel => bootSector p fuel c s) (c', s') ∧ d.Pending (lba + 1) k s' ∧ SectorRead c c' (d.bytes lba) := by
  obtain ⟨al, s₁, hwait, hhold⟩ := ataWait_settles d h
  obtain ⟨hmem, hrest⟩ := ataCopy_holds d hhold c.edi (c.push c.ecx).mem (by rw [d.length_sector]; decide)
  rw [d.length_sector] at hmem hrest
  have htry : Settles (fun fuel => bootTryRead p fuel (c.push c.ecx) s) (movAl (movDx (c.push c.ecx) 0x1F7) al, s₁) := by
    simp only [bootTryRead_eq]
    exact hwait.bind (Settles.pure _)
  have hedi : (movAl (movDx (c.push c.ecx) 0x1F7) al).edi = c.edi := rfl
  have hmem₁ : (movAl (movDx (c.push c.ecx) 0x1F7) al).mem = (c.push c.ecx).mem := rfl
  have hesp : (movAl (movDx (c.push c.ecx) 0x1F7) al).esp = c.esp - 4 := rfl
  have hcopy := bootCopy_eq p (movAl (movDx (c.push c.ecx) 0x1F7) al) s₁ (show (256 : Word).toNat = 256 from rfl)
  have hword := stashed_word c (d.bytes lba) (by rw [d.length_bytes]; exact hfar)
  refine ⟨(bootCopy p (movAl (movDx (c.push c.ecx) 0x1F7) al) s₁).1, (bootCopy p (movAl (movDx (c.push c.ecx) 0x1F7) al) s₁).2,
    htry.bind (Settles.pure _), ?_, ?_⟩
  · rw [hcopy, hedi, hmem₁]
    exact AtaDrive.pending_of_holding hrest
  · rw [hcopy, hedi, hmem₁, hesp, hmem]
    refine ⟨congrArg (· - 1) hword, BitVec.sub_add_cancel c.esp 4, rfl, fun x hx => ?_⟩
    refine write_off_stack (fun y hy => ?_) _ _ hx
    exact Memory.write_other _ _ (Nat.le_of_not_lt hy)

/-- 残りのセクタをすべて読む。 -/
theorem bootNextSector_settles (h : d.Pending lba (k + 1) s) (hecx : c.ecx = BitVec.ofNat 32 (k + 1))
    (hlen : 512 * (k + 1) ≤ 2 ^ 32) (hfar : ∀ j < 512 * (k + 1), ¬Stashed c.esp (c.edi + BitVec.ofNat 32 j)) :
    ∃ c' s' bound, (∀ fuel n, bound ≤ fuel → k + 1 ≤ n → bootNextSector p fuel n c s = .ok (c', s')) ∧ d.Idle s' ∧
      c'.esp = c.esp ∧ c'.edi = c.edi + BitVec.ofNat 32 (512 * (k + 1)) ∧
      ∀ x, ¬Stashed c.esp x → c'.mem x = c.mem.write c.edi (d.run lba (k + 1)) x := by
  induction k generalizing c s lba with
  | zero =>
      obtain ⟨c₁, s₁, ⟨bound, hbound⟩, hpending, hread⟩ := bootSector_settles d h fun j hj => hfar j (by omega)
      refine ⟨c₁, s₁, bound, ?_, hpending, hread.esp, hread.edi, ?_⟩
      · intro fuel n hfuel hn
        obtain ⟨n, rfl⟩ : ∃ m, n = m + 1 := ⟨n - 1, by omega⟩
        have hlast : c₁.ecx = 0 := by
          rw [hread.ecx, hecx]
          rfl
        simp only [bootNextSector, hbound fuel hfuel]
        exact if_pos hlast
      · rw [d.run_one]
        exact hread.mem
  | succ k ih =>
      obtain ⟨c₁, s₁, ⟨bound, hbound⟩, hpending, hread⟩ := bootSector_settles d h fun j hj => hfar j (by omega)
      have hleft : c₁.ecx = BitVec.ofNat 32 (k + 1) := by
        rw [hread.ecx, hecx, BitVec.ofNat_add]
        exact BitVec.add_sub_cancel _ _
      have hmore : c₁.ecx ≠ 0 := by
        rw [hleft]
        intro he
        have hnat := congrArg BitVec.toNat he
        rw [BitVec.toNat_ofNat, Nat.mod_eq_of_lt (by omega)] at hnat
        exact Nat.succ_ne_zero k hnat
      have hfar₁ : ∀ j < 512 * (k + 1), ¬Stashed c₁.esp (c₁.edi + BitVec.ofNat 32 j) := by
        intro j hj
        rw [hread.esp, hread.edi, BitVec.add_assoc, show (512 : Word) = BitVec.ofNat 32 512 from rfl, ← BitVec.ofNat_add]
        exact hfar _ (by omega)
      obtain ⟨c', s', bound', hrun, hidle, hesp, hedi, hmem⟩ := ih hpending hleft (by omega) hfar₁
      have hend : c'.edi = c.edi + BitVec.ofNat 32 (512 * (k + 1 + 1)) := by
        rw [hedi, hread.edi, BitVec.add_assoc, show (512 : Word) = BitVec.ofNat 32 512 from rfl, ← BitVec.ofNat_add,
          show 512 + 512 * (k + 1) = 512 * (k + 1 + 1) by omega]
      refine ⟨c', s', max bound bound', ?_, hidle, hesp.trans hread.esp, hend, ?_⟩
      · intro fuel n hfuel hn
        obtain ⟨n, rfl⟩ : ∃ m, n = m + 1 := ⟨n - 1, by omega⟩
        simp only [bootNextSector, hbound fuel (by omega)]
        exact (if_neg hmore).trans (hrun fuel n (by omega) (by omega))
      · intro x hx
        have hfits : (d.bytes lba).length + (d.run (lba + 1) (k + 1)).length ≤ 2 ^ 32 := by
          have hbytes := d.length_bytes lba
          have hrun := d.length_run (lba + 1) (k + 1)
          omega
        have hjoin := Memory.write_append c.mem c.edi (d.bytes lba) (d.run (lba + 1) (k + 1)) hfits
        rw [d.length_bytes] at hjoin
        rw [hmem x (hread.esp ▸ hx), d.run_succ lba (k + 1), ← hjoin, hread.edi]
        exact write_off_stack hread.mem _ _ hx

/-- C の手続きと同じ命令を送る。 -/
theorem bootCommand_eq (p : Ports σ) {c : Cpu} (h : c.eax.toNat < 2 ^ 28) (s : σ) :
    (bootCommand p c s).2 = ataCommand p c.eax c.ecx.toNat s := by
  have hcount : (BitVec.ofInt 8 c.ecx.toNat : Byte) = c.ecx.setWidth 8 := by
    apply BitVec.eq_of_toNat_eq
    rw [BitVec.ofInt_natCast, BitVec.toNat_ofNat, BitVec.toNat_setWidth]
  have hlow : ((c.eax &&& 0xFF).setWidth 8 : Byte) = c.eax.setWidth 8 := by
    rw [BitVec.setWidth_and, show (0xFF : Word).setWidth 8 = BitVec.allOnes 8 from rfl, BitVec.and_allOnes]
  simp only [bootCommand, ataCommand, outDxAl, movDx_eax, movDx_ecx, movDx_ebx, movDx_dx, movAl_al, movAl_edx, hcount, hlow,
    sshiftRight_small h]

theorem bootCommand_regs (p : Ports σ) (c : Cpu) (s : σ) :
    (bootCommand p c s).1.ecx = c.ecx ∧ (bootCommand p c s).1.esp = c.esp ∧ (bootCommand p c s).1.edi = c.edi ∧
      (bootCommand p c s).1.mem = c.mem := ⟨rfl, rfl, rfl, rfl⟩

/-- 命令を待っているドライブから、`eax` からの `ecx` 個のセクタを `edi` に続けて置き、`edi` をその後ろに進めて、呼んだところに戻る。スタックに
積む 4 バイトのほかのメモリは変わらない。ドライブは、また命令を待つ。 -/
theorem ataLbaRead_loads (hidle : d.Idle s) (hlba : c.eax.toNat < 2 ^ 28) (h1 : 1 ≤ c.ecx.toNat) (h : c.ecx.toNat ≤ 256)
    (hfar : ∀ j < 512 * c.ecx.toNat, 8 ≤ (c.edi + BitVec.ofNat 32 j - (c.esp - 4)).toNat) :
    ∃ c' s', Settles (fun fuel => ataLbaRead p fuel c s) (c', s') ∧ d.Idle s' ∧
      c'.eip = c.mem.word c.esp ∧ c'.esp = c.esp + 4 ∧ c'.edi = c.edi + BitVec.ofNat 32 (512 * c.ecx.toNat) ∧
      ∀ x, 4 ≤ (x - (c.esp - 4)).toNat → c'.mem x = c.mem.write c.edi (d.run c.eax.toNat c.ecx.toNat) x := by
  obtain ⟨hecx, hesp, hedi, hmem⟩ := bootCommand_regs p c s
  have hpending := ataCommand_pending d hidle hlba h1 h
  rw [← bootCommand_eq p hlba s] at hpending
  have hapart : ∀ j < 512 * c.ecx.toNat, ¬Stashed c.esp (c.edi + BitVec.ofNat 32 j) := by
    intro j hj
    have hj' := hfar j hj
    rw [Stashed]
    omega
  obtain ⟨k, hk⟩ : ∃ k, c.ecx.toNat = k + 1 := ⟨c.ecx.toNat - 1, by omega⟩
  rw [hk] at hpending hapart ⊢
  have hcount : (bootCommand p c s).1.ecx = BitVec.ofNat 32 (k + 1) := by
    rw [hecx, ← hk, BitVec.ofNat_toNat, BitVec.setWidth_eq]
  obtain ⟨c', s', bound, hrun, hidle', hesp', hedi', hmem'⟩ := bootNextSector_settles d hpending hcount (by omega)
    (by rw [hesp, hedi]; exact hapart)
  rw [hesp] at hesp' hmem'
  rw [hmem, hedi] at hmem'
  rw [hedi] at hedi'
  have hret : c'.mem.word c.esp = c.mem.word c.esp := by
    refine Memory.AgreeOn.word fun i hi => ?_
    have hstash : ¬Stashed c.esp (c.esp + BitVec.ofNat 32 i) := by
      rw [Stashed]
      bv_omega
    rw [hmem' _ hstash]
    refine write_outside fun j hj he => ?_
    rw [d.length_run, ← hk] at hj
    have hj' := hfar j hj
    rw [← he] at hj'
    bv_omega
  refine ⟨c'.ret, s', ⟨max bound (k + 1), ?_⟩, hidle', ?_, ?_, hedi', ?_⟩
  · intro fuel hfuel
    exact bind_ok.2 ⟨_, hrun fuel fuel (by omega) (by omega), rfl⟩
  · show c'.mem.word c'.esp = c.mem.word c.esp
    rw [hesp', hret]
  · show c'.esp + 4 = c.esp + 4
    rw [hesp']
  · intro x hx
    exact hmem' x (by rw [Stashed]; omega)

/-- `load_32` が呼んだところ。 -/
def bootCpu : Cpu where
  eax := 1
  ecx := 100
  edx := 0
  ebx := 0
  esp := 0x7BFC
  ebp := 0
  esi := 0
  edi := 0x100000
  eip := 0x7CB0
  eflags := 0x2
  cs := 0x8
  ss := 0
  ds := 0
  es := 0
  fs := 0
  gs := 0
  mem := fun _ => 0

/-- 100 個のセクタが `0x100000` から並ぶ。 -/
theorem ataLbaRead_loads_kernel :
    ∃ c s', Settles (fun fuel => ataLbaRead (AtaSim.ports (fun lba i => BitVec.ofNat 16 (lba + i)) fun _ => 3) fuel bootCpu
        ⟨⟨0, 0, 0, 0, 0⟩, .idle⟩) (c, s') ∧
      c.edi = 0x10C800 ∧ ∀ k < 51200, c.mem (0x100000 + BitVec.ofNat 32 k) =
        byteAt ((AtaSim.drive (fun lba i => BitVec.ofNat 16 (lba + i)) fun _ => 3).run 1 100) k := by
  have hfar : ∀ j < 512 * bootCpu.ecx.toNat, 8 ≤ (bootCpu.edi + BitVec.ofNat 32 j - (bootCpu.esp - 4)).toNat := by
    intro j hj
    simp only [bootCpu] at hj ⊢
    bv_omega
  obtain ⟨c, s', hsettle, -, -, -, hedi, hmem⟩ := ataLbaRead_loads
    (AtaSim.drive (fun lba i => BitVec.ofNat 16 (lba + i)) fun _ => 3) (s := ⟨⟨0, 0, 0, 0, 0⟩, .idle⟩) (c := bootCpu)
    ⟨_, rfl, rfl⟩ (by decide) (by decide) (by decide) hfar
  refine ⟨c, s', hsettle, hedi, ?_⟩
  intro k hk
  have hlen := (AtaSim.drive (fun lba i => BitVec.ofNat 16 (lba + i)) fun _ => 3).length_run bootCpu.eax.toNat
    bootCpu.ecx.toNat
  rw [hmem _ (by simp only [bootCpu]; bv_omega)]
  have hcount : bootCpu.ecx.toNat = 100 := rfl
  exact Memory.write_at _ _ (by omega) (by omega)

end

end EnkiOs
