import EnkiOs.Lib.Half

/-!
# ATA のドライブ

ポートから読み書きする装置のうち、LBA で指定したセクタを、16 ビットずつ返すもの。装置の内側の状態は型 `σ` のままにし、読み取りの
手順だけを約束として持つ。
-/

namespace Machine

/-- ポートを持つ装置。 -/
structure Ports (σ : Type) where
  inb : BitVec 16 → σ → Byte × σ
  inw : BitVec 16 → σ → BitVec 16 × σ
  outb : BitVec 16 → Byte → σ → σ

/-- 命令の前に書くレジスタ。 -/
structure AtaRegs where
  device : Byte
  count : Byte
  low : Byte
  mid : Byte
  high : Byte

namespace AtaRegs

/-- LBA の 28 ビット。上の 4 ビットは、装置を選ぶレジスタにある。 -/
def lba (r : AtaRegs) : Nat := r.low.toNat + 2 ^ 8 * r.mid.toNat + 2 ^ 16 * r.high.toNat + 2 ^ 24 * (r.device.toNat % 16)

/-- 0 は 256 個を表す。 -/
def total (r : AtaRegs) : Nat := if r.count = 0 then 256 else r.count.toNat

/-- 一台目のドライブを、LBA で指定している。 -/
def Primary (r : AtaRegs) : Prop := r.device.getLsbD 6 = true ∧ r.device.getLsbD 4 = false

end AtaRegs

/-- 読み取りの手順。`waiting lba k` では、セクタ `lba` からの `k` 個がまだ用意されていない。`holding ws lba k` では、今のセクタの
残り `ws` を渡しているところで、その後に `lba` からの `k` 個がある。`polls` は、用意ができるまでに状態を読む回数を押さえる。 -/
structure AtaDrive {σ : Type} (p : Ports σ) where
  sector : Nat → List (BitVec 16)
  loaded : AtaRegs → σ → Prop
  waiting : Nat → Nat → σ → Prop
  holding : List (BitVec 16) → Nat → Nat → σ → Prop
  polls : σ → Nat
  length_sector : ∀ lba, (sector lba).length = 256
  device : ∀ r s v, loaded r s → loaded { r with device := v } (p.outb 0x1F6 v s)
  count : ∀ r s v, loaded r s → loaded { r with count := v } (p.outb 0x1F2 v s)
  low : ∀ r s v, loaded r s → loaded { r with low := v } (p.outb 0x1F3 v s)
  mid : ∀ r s v, loaded r s → loaded { r with mid := v } (p.outb 0x1F4 v s)
  high : ∀ r s v, loaded r s → loaded { r with high := v } (p.outb 0x1F5 v s)
  /-- 読み取りの命令。 -/
  start : ∀ r s, loaded r s → r.Primary → waiting r.lba r.total (p.outb 0x1F7 0x20 s)
  /-- 状態の `DRQ` が立つと、セクタを渡し始める。 -/
  poll : ∀ lba k s, waiting lba (k + 1) s →
    ((p.inb 0x1F7 s).1.getLsbD 3 = false ∧ waiting lba (k + 1) (p.inb 0x1F7 s).2 ∧ polls (p.inb 0x1F7 s).2 < polls s) ∨
    ((p.inb 0x1F7 s).1.getLsbD 3 = true ∧ holding (sector lba) (lba + 1) k (p.inb 0x1F7 s).2)
  data : ∀ w ws lba k s, holding (w :: ws) lba k s → (p.inw 0x1F0 s).1 = w ∧ holding ws lba k (p.inw 0x1F0 s).2
  next : ∀ lba k s, holding [] lba (k + 1) s → waiting lba (k + 1) s
  done : ∀ lba s, holding [] lba 0 s → ∃ r, loaded r s

namespace AtaDrive

variable {σ : Type} {p : Ports σ} (d : AtaDrive p)

/-- 命令を待っている。 -/
def Idle (s : σ) : Prop := ∃ r, d.loaded r s

/-- セクタ `lba` からの `k` 個を読み残している。 -/
def Pending (lba : Nat) : Nat → σ → Prop
  | 0, s => d.Idle s
  | k + 1, s => d.waiting lba (k + 1) s

variable {d} in
theorem pending_of_holding {lba k : Nat} {s : σ} (h : d.holding [] lba k s) : d.Pending lba k s := by
  cases k with
  | zero => exact d.done lba s h
  | succ k => exact d.next lba k s h

/-- セクタのバイト。 -/
def bytes (lba : Nat) : List Byte := (d.sector lba).flatMap halfBytes

/-- `lba` からの `k` 個のセクタのバイト。 -/
def run (lba k : Nat) : List Byte := (List.range k).flatMap fun i => d.bytes (lba + i)

theorem length_bytes (lba : Nat) : (d.bytes lba).length = 512 := by
  rw [bytes, List.length_flatMap]
  simp only [length_halfBytes, List.map_const', List.sum_replicate_nat, d.length_sector lba]

theorem length_run (lba k : Nat) : (d.run lba k).length = 512 * k := by
  rw [run, List.length_flatMap]
  simp only [d.length_bytes, List.map_const', List.sum_replicate_nat, List.length_range]
  exact Nat.mul_comm k 512

theorem run_succ (lba k : Nat) : d.run lba (k + 1) = d.bytes lba ++ d.run (lba + 1) k := by
  rw [run, run, List.range_succ_eq_map, List.flatMap_cons, List.flatMap_map]
  congr 2
  funext i
  rw [Nat.succ_eq_add_one, Nat.add_assoc, Nat.add_comm 1 i]

theorem run_one (lba : Nat) : d.run lba 1 = d.bytes lba := by simp [run]

end AtaDrive

/-! ## 手順を守る装置 -/

namespace AtaSim

inductive Phase
  | idle
  | waiting (left lba k : Nat)
  | holding (w : BitVec 16) (ws : List (BitVec 16)) (lba k : Nat)

structure State where
  regs : AtaRegs
  phase : Phase

variable (content : Nat → Nat → BitVec 16) (delay : Nat → Nat)

def sector (lba : Nat) : List (BitVec 16) := (List.range 256).map (content lba)

/-- 渡し終えると、次のセクタの用意に移る。 -/
def proceed (ws : List (BitVec 16)) (lba k : Nat) : Phase :=
  match ws, k with
  | [], 0 => .idle
  | [], k + 1 => .waiting (delay lba) lba (k + 1)
  | w :: ws, k => .holding w ws lba k

/-- `delay lba` 回の間、セクタ `lba` の用意ができない。 -/
def ports : Ports State where
  inb _ s :=
    match s.phase with
    | .waiting (left + 1) lba k => (0x80, { s with phase := .waiting left lba k })
    | .waiting 0 lba (k + 1) => (0x58, { s with phase := proceed delay (sector content lba) (lba + 1) k })
    | _ => (0x50, s)
  inw _ s :=
    match s.phase with
    | .holding w ws lba k => (w, { s with phase := proceed delay ws lba k })
    | _ => (0, s)
  outb port v s :=
    if port = 0x1F6 then { s with regs := { s.regs with device := v } }
    else if port = 0x1F2 then { s with regs := { s.regs with count := v } }
    else if port = 0x1F3 then { s with regs := { s.regs with low := v } }
    else if port = 0x1F4 then { s with regs := { s.regs with mid := v } }
    else if port = 0x1F5 then { s with regs := { s.regs with high := v } }
    else { s with phase := .waiting (delay s.regs.lba) s.regs.lba s.regs.total }

def polls (s : State) : Nat :=
  match s.phase with
  | .waiting left _ _ => left
  | _ => 0

def drive : AtaDrive (ports content delay) where
  sector := sector content
  loaded r s := s.regs = r ∧ s.phase = .idle
  waiting lba k s := ∃ left, s.phase = .waiting left lba k
  holding ws lba k s := s.phase = proceed delay ws lba k
  polls := polls
  length_sector lba := by rw [sector, List.length_map, List.length_range]
  device := by
    rintro r s v ⟨rfl, hphase⟩
    exact ⟨rfl, hphase⟩
  count := by
    rintro r s v ⟨rfl, hphase⟩
    exact ⟨rfl, hphase⟩
  low := by
    rintro r s v ⟨rfl, hphase⟩
    exact ⟨rfl, hphase⟩
  mid := by
    rintro r s v ⟨rfl, hphase⟩
    exact ⟨rfl, hphase⟩
  high := by
    rintro r s v ⟨rfl, hphase⟩
    exact ⟨rfl, hphase⟩
  start := by
    rintro r s ⟨rfl, hphase⟩ -
    exact ⟨delay s.regs.lba, rfl⟩
  poll := by
    rintro lba k s ⟨left, hphase⟩
    cases left with
    | zero =>
        refine .inr ?_
        simp only [ports, hphase]
        exact ⟨by decide, trivial⟩
    | succ left =>
        refine .inl ?_
        simp only [ports, hphase, polls]
        exact ⟨by decide, ⟨left, rfl⟩, Nat.lt_succ_self left⟩
  data := by
    intro w ws lba k s hphase
    simp only [proceed] at hphase
    simp only [ports, hphase, and_self]
  next := by
    intro lba k s hphase
    exact ⟨_, hphase⟩
  done := by
    intro lba s hphase
    exact ⟨s.regs, rfl, hphase⟩

end AtaSim

end Machine
