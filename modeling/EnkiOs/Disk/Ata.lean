import EnkiOs.Disk.Stream
import EnkiOs.Lib.Ata
import EnkiOs.Lib.Fuel

/-!
# ディスクの読み取り

`kernel/disk/disk.c` の `disk_read_sector`。ポートの先の装置は `Ports` で渡し、状態を待つ繰り返しの上限を `fuel` とする。
-/

namespace EnkiOs
open Machine Fuel

section

variable {σ : Type} (p : Ports σ)

/-- 用意ができるのを待つ。`c` は、最後に読んだ状態である。 -/
def ataWait : Nat → Byte → σ → Except Fault (Byte × σ)
  | 0, _, _ => .error .hang
  | k + 1, c, s =>
      if c &&& 0x08 = 0 then ataWait k (p.inb 0x1F7 s).1 (p.inb 0x1F7 s).2
      else .ok (c, s)

/-- 一つのセクタの残りの `k` 語を写す。 -/
def ataCopy : Nat → Word → Memory → σ → Memory × σ
  | 0, _, mem, s => (mem, s)
  | k + 1, ptr, mem, s => ataCopy k (ptr + 2) (mem.setHalf ptr (p.inw 0x1F0 s).1) (p.inw 0x1F0 s).2

/-- 残りの `k` 個のセクタ。`buf_ptr` は、一つごとに 512 バイト進む。 -/
def ataSectors (fuel : Nat) : Nat → Word → Memory → σ → Except Fault (Memory × σ)
  | 0, _, mem, s => .ok (mem, s)
  | k + 1, ptr, mem, s => do
      let (_, s) ← ataWait p fuel (p.inb 0x1F7 s).1 (p.inb 0x1F7 s).2
      let (mem, s) := ataCopy p 256 ptr mem s
      ataSectors fuel k (ptr + 512) mem s

/-- 命令を送るまで。 -/
def ataCommand (lba : Word) (total : Int) (s : σ) : σ :=
  let s := p.outb 0x1F6 ((lba.sshiftRight 24 ||| 0xE0).setWidth 8) s
  let s := p.outb 0x1F2 (BitVec.ofInt 8 total) s
  let s := p.outb 0x1F3 ((lba &&& 0xFF).setWidth 8) s
  let s := p.outb 0x1F4 ((lba.sshiftRight 8).setWidth 8) s
  let s := p.outb 0x1F5 ((lba.sshiftRight 16).setWidth 8) s
  p.outb 0x1F7 0x20 s

/-- `int lba` は、32 ビットのまま渡す。 -/
def diskReadSector (fuel : Nat) (lba : Word) (total : Int) (buf : Word) (mem : Memory) (s : σ) :
    Except Fault (Int × Memory × σ) := do
  let (mem, s) ← ataSectors p fuel total.toNat buf mem (ataCommand p lba total s)
  return (0, mem, s)

end

section

variable {σ : Type} {p : Ports σ} (d : AtaDrive p) {s : σ} {lba k : Nat}

/-- スタックの外の番地が同じなら、同じバイトを書いた後も同じである。 -/
theorem write_off_stack {stack : Word → Prop} {mem mem' : Memory} (h : ∀ x, ¬stack x → mem x = mem' x) (a : Word)
    (bytes : List Byte) {x : Word} (hx : ¬stack x) : mem.write a bytes x = mem'.write a bytes x := by
  simp only [Memory.write, h x hx]

/-- 待つ繰り返しは終わり、セクタを渡し始める。 -/
theorem ataWait_settles (h : d.waiting lba (k + 1) s) :
    ∃ c s', Settles (fun fuel => ataWait p fuel (p.inb 0x1F7 s).1 (p.inb 0x1F7 s).2) (c, s') ∧
      d.holding (d.sector lba) (lba + 1) k s' := by
  induction hn : d.polls s using Nat.strongRecOn generalizing s with
  | _ n ih =>
      rcases d.poll lba k s h with ⟨hclear, hwait, hless⟩ | ⟨hset, hhold⟩
      · obtain ⟨c, s', ⟨bound, hbound⟩, hhold⟩ := ih _ (hn ▸ hless) hwait rfl
        refine ⟨c, s', ⟨bound + 1, ?_⟩, hhold⟩
        intro fuel hfuel
        obtain ⟨fuel, rfl⟩ : ∃ k, fuel = k + 1 := ⟨fuel - 1, by omega⟩
        have hzero : (p.inb 0x1F7 s).1 &&& 0x08 = 0 := by
          generalize (p.inb 0x1F7 s).1 = c at hclear
          revert c
          decide
        simp only [ataWait, if_pos hzero]
        exact hbound fuel (by omega)
      · refine ⟨(p.inb 0x1F7 s).1, (p.inb 0x1F7 s).2, ⟨1, ?_⟩, hhold⟩
        intro fuel hfuel
        obtain ⟨fuel, rfl⟩ : ∃ k, fuel = k + 1 := ⟨fuel - 1, by omega⟩
        have hready : (p.inb 0x1F7 s).1 &&& 0x08 ≠ 0 := by
          generalize (p.inb 0x1F7 s).1 = c at hset
          revert c
          decide
        simp only [ataWait, if_neg hready]

/-- セクタの残りの語を写すと、`buf_ptr` から順に、そのバイトが並ぶ。 -/
theorem ataCopy_holds {ws : List (BitVec 16)} (h : d.holding ws lba k s) (ptr : Word) (mem : Memory)
    (hlen : 2 * ws.length ≤ 2 ^ 32) :
    (ataCopy p ws.length ptr mem s).1 = mem.write ptr (ws.flatMap halfBytes) ∧
      d.holding [] lba k (ataCopy p ws.length ptr mem s).2 := by
  induction ws generalizing ptr mem s with
  | nil => exact ⟨rfl, h⟩
  | cons w ws ih =>
      obtain ⟨hw, hrest⟩ := d.data w ws lba k s h
      simp only [List.length_cons] at hlen
      obtain ⟨hmem, hhold⟩ := ih hrest (ptr + 2) (mem.setHalf ptr (p.inw 0x1F0 s).1) (by omega)
      have hbytes : (ws.flatMap halfBytes).length = 2 * ws.length := by
        rw [List.length_flatMap]
        simp only [length_halfBytes, List.map_const', List.sum_replicate_nat, Nat.mul_comm]
      refine ⟨?_, hhold⟩
      simp only [List.length_cons, ataCopy]
      rw [hmem, hw, Memory.setHalf_write _ _ _ (by omega), List.flatMap_cons]

/-- `k` 個のセクタを読むと、バイトが続けて並び、ドライブは次の命令を待つ。 -/
theorem ataSectors_settles (h : d.Pending lba k s) (ptr : Word) (mem : Memory) (hlen : 512 * k ≤ 2 ^ 32) :
    ∃ s', Settles (fun fuel => ataSectors p fuel k ptr mem s) (mem.write ptr (d.run lba k), s') ∧ d.Idle s' := by
  induction k generalizing lba ptr mem s with
  | zero => exact ⟨s, Settles.pure _, h⟩
  | succ k ih =>
      obtain ⟨c, s₁, hwait, hhold⟩ := ataWait_settles d h
      obtain ⟨hmem, hrest⟩ := ataCopy_holds d hhold ptr mem (by rw [d.length_sector]; decide)
      rw [d.length_sector] at hmem hrest
      obtain ⟨s', hsettle, hidle⟩ := ih (AtaDrive.pending_of_holding hrest) (ptr + 512) (ataCopy p 256 ptr mem s₁).1 (by omega)
      refine ⟨s', ?_, hidle⟩
      have hjoin := Memory.write_append mem ptr (d.bytes lba) (d.run (lba + 1) k)
        (by rw [d.length_bytes, d.length_run]; omega)
      rw [d.length_bytes] at hjoin
      rw [d.run_succ, ← hjoin]
      rw [hmem] at hsettle
      refine hwait.bind ?_
      simp only [hmem]
      exact hsettle

/-- 命令のレジスタに書く値。 -/
def commandRegs (lba : Word) (total : Int) : AtaRegs where
  device := (lba.sshiftRight 24 ||| 0xE0).setWidth 8
  count := BitVec.ofInt 8 total
  low := (lba &&& 0xFF).setWidth 8
  mid := (lba.sshiftRight 8).setWidth 8
  high := (lba.sshiftRight 16).setWidth 8

/-- 装置を選ぶレジスタの値。 -/
theorem device_bits (i : Fin 16) :
    ((BitVec.ofNat 32 i ||| 0xE0).setWidth 8 : Byte).toNat % 16 = i ∧
      ((BitVec.ofNat 32 i ||| 0xE0).setWidth 8 : Byte).getLsbD 6 = true ∧
      ((BitVec.ofNat 32 i ||| 0xE0).setWidth 8 : Byte).getLsbD 4 = false := by
  revert i
  decide

/-- 28 ビットの番号は、算術シフトでも論理シフトでも同じである。 -/
theorem sshiftRight_small {lba : Word} (h : lba.toNat < 2 ^ 28) (n : Nat) : lba.sshiftRight n = lba >>> n :=
  BitVec.sshiftRight_eq_of_msb_false (BitVec.msb_eq_false_iff_two_mul_lt.2 (by omega))

theorem commandRegs_device {lba : Word} (total : Int) (h : lba.toNat < 2 ^ 28) :
    ∃ i : Fin 16, i.val = lba.toNat / 2 ^ 24 ∧ (commandRegs lba total).device = (BitVec.ofNat 32 i ||| 0xE0).setWidth 8 := by
  have hlt : lba.toNat / 2 ^ 24 < 16 := by omega
  refine ⟨⟨lba.toNat / 2 ^ 24, hlt⟩, rfl, ?_⟩
  have hshift : lba.sshiftRight 24 = BitVec.ofNat 32 (lba.toNat / 2 ^ 24) := by
    rw [sshiftRight_small h]
    apply BitVec.eq_of_toNat_eq
    rw [BitVec.toNat_ushiftRight, Nat.shiftRight_eq_div_pow, BitVec.toNat_ofNat]
    omega
  simp only [commandRegs, hshift]

theorem commandRegs_lba {lba : Word} (total : Int) (h : lba.toNat < 2 ^ 28) : (commandRegs lba total).lba = lba.toNat := by
  obtain ⟨i, hi, hdevice⟩ := commandRegs_device total h
  have hlow : (commandRegs lba total).low.toNat = lba.toNat % 2 ^ 8 := by
    simp only [commandRegs, BitVec.toNat_setWidth, BitVec.toNat_and]
    rw [show (0xFF : Word).toNat = 2 ^ 8 - 1 from rfl, Nat.and_two_pow_sub_one_eq_mod, Nat.mod_mod]
  have hmid : (commandRegs lba total).mid.toNat = lba.toNat / 2 ^ 8 % 2 ^ 8 := by
    simp only [commandRegs, sshiftRight_small h, BitVec.toNat_setWidth, BitVec.toNat_ushiftRight, Nat.shiftRight_eq_div_pow]
  have hhigh : (commandRegs lba total).high.toNat = lba.toNat / 2 ^ 16 % 2 ^ 8 := by
    simp only [commandRegs, sshiftRight_small h, BitVec.toNat_setWidth, BitVec.toNat_ushiftRight, Nat.shiftRight_eq_div_pow]
  rw [AtaRegs.lba, hlow, hmid, hhigh, hdevice, (device_bits i).1, hi]
  omega

theorem commandRegs_primary {lba : Word} (total : Int) (h : lba.toNat < 2 ^ 28) : (commandRegs lba total).Primary := by
  obtain ⟨i, -, hdevice⟩ := commandRegs_device total h
  rw [AtaRegs.Primary, hdevice]
  exact (device_bits i).2

theorem commandRegs_total (lba : Word) {total : Nat} (h1 : 1 ≤ total) (h : total ≤ 256) :
    (commandRegs lba total).total = total := by
  have hcount : (commandRegs lba total).count.toNat = total % 256 := by
    rw [show (commandRegs lba total).count = BitVec.ofInt 8 total from rfl, BitVec.ofInt_natCast, BitVec.toNat_ofNat]
  have hzero : (commandRegs lba total).count = 0 ↔ total % 256 = 0 := by
    rw [← hcount]
    exact BitVec.toNat_eq
  rw [AtaRegs.total]
  by_cases hz : (commandRegs lba total).count = 0
  · have hwhole := hzero.1 hz
    rw [if_pos hz]
    omega
  · have hpart := mt hzero.2 hz
    rw [if_neg hz, hcount]
    omega

theorem ataCommand_pending {lba : Word} {total : Nat} (hidle : d.Idle s) (hlba : lba.toNat < 2 ^ 28) (h1 : 1 ≤ total)
    (h : total ≤ 256) : d.Pending lba.toNat total (ataCommand p lba total s) := by
  obtain ⟨r, hr⟩ := hidle
  have hloaded := d.high _ _ ((lba.sshiftRight 16).setWidth 8) (d.mid _ _ ((lba.sshiftRight 8).setWidth 8)
    (d.low _ _ ((lba &&& 0xFF).setWidth 8) (d.count _ _ (BitVec.ofInt 8 total)
      (d.device _ _ ((lba.sshiftRight 24 ||| 0xE0).setWidth 8) hr))))
  have hstart := d.start (commandRegs lba total) _ hloaded (commandRegs_primary total hlba)
  rw [commandRegs_lba total hlba, commandRegs_total lba h1 h] at hstart
  obtain ⟨k, rfl⟩ : ∃ k, total = k + 1 := ⟨total - 1, by omega⟩
  exact hstart

/-- 命令を待っているドライブから、1 個以上 256 個以下のセクタを読むと、その内容が `buf` に続けて並び、ほかのメモリは変わらない。
ドライブは、また命令を待つ。 -/
theorem diskReadSector_settles {lba : Word} {total : Nat} (buf : Word) (mem : Memory) (hidle : d.Idle s)
    (hlba : lba.toNat < 2 ^ 28) (h1 : 1 ≤ total) (h : total ≤ 256) :
    ∃ s', Settles (fun fuel => diskReadSector p fuel lba total buf mem s) (0, mem.write buf (d.run lba.toNat total), s') ∧
      d.Idle s' := by
  obtain ⟨s', hsettle, hidle'⟩ := ataSectors_settles d (ataCommand_pending d hidle hlba h1 h) buf mem (by omega)
  exact ⟨s', hsettle.bind (Settles.pure _), hidle'⟩

end

end EnkiOs
