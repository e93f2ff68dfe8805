import EnkiOs.Disk.Ata
import EnkiOs.Disk.Theorems

/-!
# ポートの先から読む流れ

`disk_stream_read` を、`disk_read_sector` がポートを読むところまで計算する。配列 `buf` はカーネルのスタックにあり、呼び出しが
深くなるごとに `frame` だけ下に置かれる。
-/

namespace EnkiOs
open Machine Fuel

section

variable {σ : Type} (p : Ports σ)

/-- `buf` の `offset + i` から `count` バイトを、メモリの中で `out` へ写す。 -/
def bufCopyLoop (buf : Word) (offset : Int) : Nat → Nat → Word → Memory → Memory × Word
  | 0, _, out, mem => (mem, out)
  | count + 1, i, out, mem =>
      bufCopyLoop buf offset count (i + 1) (out + 1) (mem.write out [mem (buf + BitVec.ofInt 32 (offset + i))])

def diskStreamReadPorts (fuel : Nat) (frame buf : Word) (mem : Memory) (out : Word) (pos total : Int) (s : σ) :
    Except Fault (Int × Memory × Int × σ) := do
  let sector := Int.tdiv pos ENKI_SECTOR_SIZE
  let offset := Int.tmod pos ENKI_SECTOR_SIZE
  let read := streamChunk pos total
  let (block, mem, s) ← diskReadSector p fuel (BitVec.ofInt 32 sector) 1 buf mem s
  if block < 0 then return (block, mem, pos, s)
  let (mem, out) := bufCopyLoop buf offset read.toNat 0 out mem
  let pos' := i32 (pos + read)
  if streamOverflow pos total then diskStreamReadPorts fuel frame (buf - frame) mem out pos' (i32 (total - read)) s
  else return (block, mem, pos', s)
termination_by if total < 0 then 2 ^ 32 else total.toNat
decreasing_by exact streamChunk_decreases ‹_›

end

section

variable {σ : Type} {p : Ports σ} (d : AtaDrive p)

/-- ドライブの内容を持つディスク。 -/
def driveDisk : Disk where
  sectorSize := ENKI_SECTOR_SIZE
  sector lba i := (d.bytes lba.toNat).getD i.toNat 0
  sectorSize_eq := rfl

variable {stack : Word → Prop} {buf out : Word} {mem : Memory} {s : σ}

/-- スタックからスタックの外へ写すときは、元のバイトは変わらない。 -/
theorem bufCopyLoop_eq {offset : Int} {count : Nat} (i : Nat) (hlen : count ≤ 512)
    (hsrc : ∀ j, i ≤ j → j < i + count → stack (buf + BitVec.ofInt 32 (offset + j)))
    (hout : ∀ k < count, ¬stack (out + BitVec.ofNat 32 k)) :
    bufCopyLoop buf offset count i out mem =
      (mem.write out ((List.range count).map fun j => mem (buf + BitVec.ofInt 32 (offset + (i + j : Nat)))),
        out + BitVec.ofNat 32 count) := by
  induction count generalizing i out mem with
  | zero => simp [bufCopyLoop]
  | succ count ih =>
      have hhere : ¬stack out := by simpa using hout 0 (by omega)
      have hlater : ∀ k < count, ¬stack (out + 1 + BitVec.ofNat 32 k) := by
        intro k hk
        have hnext := hout (k + 1) (by omega)
        rwa [← add_one_add] at hnext
      have hsame : (List.range count).map (fun j => mem.write out [mem (buf + BitVec.ofInt 32 (offset + i))]
            (buf + BitVec.ofInt 32 (offset + (i + 1 + j : Nat)))) =
          (List.range count).map ((fun j => mem (buf + BitVec.ofInt 32 (offset + (i + j : Nat)))) ∘ Nat.succ) := by
        refine List.map_congr_left fun j hj => ?_
        have hlt := List.mem_range.1 hj
        have hne : buf + BitVec.ofInt 32 (offset + (i + 1 + j : Nat)) ≠ out := by
          intro he
          have hstack := hsrc (i + 1 + j) (by omega) (by omega)
          rw [he] at hstack
          exact hhere hstack
        rw [Memory.write_one_ne hne, Function.comp_apply, Nat.succ_eq_one_add, Nat.add_assoc]
      rw [bufCopyLoop, ih (i + 1) (by omega) (fun j hij hj => hsrc j (by omega) (by omega)) hlater, add_one_add, hsame,
        List.range_succ_eq_map, List.map_cons, List.map_map]
      refine Prod.ext ?_ rfl
      exact (write_cons mem out _ (by simp only [List.length_map, List.length_range]; omega)).symm

/-- 読んだセクタのうち、流れの位置からのバイト。 -/
theorem sectorRead_bytes {pos n : Nat} (hpos : pos < 2 ^ 31) (hn : pos % 512 + n ≤ 512) :
    (List.range n).map (fun j => mem.write buf (d.run (pos / 512) 1)
        (buf + BitVec.ofInt 32 (((pos % 512 : Nat) : Int) + (0 + j : Nat)))) =
      (driveDisk d).bytes pos n := by
  refine List.map_congr_left fun j hj => ?_
  have hlt := List.mem_range.1 hj
  have hlen := d.length_bytes (pos / 512)
  have hcast : ((pos % 512 : Nat) : Int) + ((0 + j : Nat) : Int) = ((pos % 512 + j : Nat) : Int) := by omega
  rw [hcast, BitVec.ofInt_natCast, d.run_one, Memory.write_at mem buf (by omega) (by omega)]
  have hq : (pos + j) / 512 = pos / 512 := by omega
  have hr : (pos + j) % 512 = pos % 512 + j := by omega
  have hlba : (BitVec.ofNat 32 (pos / 512)).toNat = pos / 512 := by
    rw [BitVec.toNat_ofNat, Nat.mod_eq_of_lt (by omega)]
  rw [Disk.byte, driveDisk, hq, hr]
  simp only [hlba, Int.toNat_natCast]
  rfl

theorem diskStreamReadPorts_eq (p : Ports σ) (fuel : Nat) (frame buf : Word) (mem : Memory) (out : Word) (pos total : Int)
    (s : σ) :
    diskStreamReadPorts p fuel frame buf mem out pos total s =
      diskReadSector p fuel (BitVec.ofInt 32 (Int.tdiv pos ENKI_SECTOR_SIZE)) 1 buf mem s >>= fun r =>
        if r.1 < 0 then .ok (r.1, r.2.1, pos, r.2.2)
        else
          let copied := bufCopyLoop buf (Int.tmod pos ENKI_SECTOR_SIZE) (streamChunk pos total).toNat 0 out r.2.1
          if streamOverflow pos total then
            diskStreamReadPorts p fuel frame (buf - frame) copied.1 copied.2 (i32 (pos + streamChunk pos total))
              (i32 (total - streamChunk pos total)) r.2.2
          else .ok (r.1, copied.1, i32 (pos + streamChunk pos total), r.2.2) := by
  rw [diskStreamReadPorts]
  rfl

/-- 一つの呼び出し。セクタを読み、流れの位置からの `n` バイトを `out` へ写す。 -/
theorem streamLevel (mem : Memory) (pos n : Nat) (hidle : d.Idle s) (hpos : pos < 2 ^ 31) (hn : pos % 512 + n ≤ 512)
    (hstack : ∀ k < 512, stack (buf + BitVec.ofNat 32 k)) (hout : ∀ j < n, ¬stack (out + BitVec.ofNat 32 j)) :
    ∃ mem₁ s₁, Settles (fun fuel => diskReadSector p fuel (BitVec.ofInt 32 (Int.tdiv pos ENKI_SECTOR_SIZE)) 1 buf mem s)
        (0, mem₁, s₁) ∧ d.Idle s₁ ∧
      (bufCopyLoop buf (Int.tmod pos ENKI_SECTOR_SIZE) n 0 out mem₁).2 = out + BitVec.ofNat 32 n ∧
      ∀ x, ¬stack x → (bufCopyLoop buf (Int.tmod pos ENKI_SECTOR_SIZE) n 0 out mem₁).1 x =
        mem.write out ((driveDisk d).bytes pos n) x := by
  have hlba : (BitVec.ofNat 32 (pos / 512)).toNat = pos / 512 := by
    rw [BitVec.toNat_ofNat, Nat.mod_eq_of_lt (by omega)]
  obtain ⟨s₁, hread, hidle₁⟩ := @diskReadSector_settles σ p d s (BitVec.ofNat 32 (pos / 512)) 1 buf mem hidle
    (by omega) (by decide) (by decide)
  rw [hlba] at hread
  refine ⟨mem.write buf (d.run (pos / 512) 1), s₁, hread, hidle₁, ?_⟩
  have hsrc : ∀ j, 0 ≤ j → j < 0 + n → stack (buf + BitVec.ofInt 32 (((pos % 512 : Nat) : Int) + j)) := by
    intro j _ hj
    rw [← Int.natCast_add, BitVec.ofInt_natCast]
    exact hstack _ (by omega)
  have hcopy := @bufCopyLoop_eq stack buf out (mem.write buf (d.run (pos / 512) 1)) _ _ 0 (show n ≤ 512 by omega) hsrc hout
  rw [sectorRead_bytes d hpos hn, ← tmod_sector] at hcopy
  rw [hcopy]
  refine ⟨rfl, fun x hx => write_off_stack ?_ _ _ hx⟩
  intro y hy
  refine write_outside fun i hi he => ?_
  rw [d.length_run] at hi
  exact hy (he ▸ hstack i (by omega))

/-- セクタの終わりに届かない読み取り。 -/
theorem diskStreamReadPorts_fit {pos total : Nat} (frame : Word) (h : pos + total + 512 ≤ 2 ^ 31) (hov : ¬512 ≤ pos % 512 + total)
    (hidle : d.Idle s) (hstack : ∀ k < 512, stack (buf + BitVec.ofNat 32 k))
    (hout : ∀ j < total, ¬stack (out + BitVec.ofNat 32 j)) :
    ∃ mem' s', Settles (fun fuel => diskStreamReadPorts p fuel frame buf mem out pos total s)
        (0, mem', ((pos + total : Nat) : Int), s') ∧
      d.Idle s' ∧ ∀ x, ¬stack x → mem' x = mem.write out ((driveDisk d).bytes pos total) x := by
  obtain ⟨mem₁, s₁, hread, hidle₁, -, hmem⟩ := streamLevel d mem pos total hidle (by omega) (by omega) hstack hout
  refine ⟨_, s₁, ?_, hidle₁, hmem⟩
  have hint : pos % 512 + total < 2 ^ 31 := by omega
  have hfits : streamOverflow pos total = false := Bool.eq_false_iff.2 (mt (streamOverflow_iff hint).1 hov)
  have hsum : i32 ((pos : Int) + total) = ((pos + total : Nat) : Int) := by
    rw [i32_of_bounds (by omega) (by omega)]
    rfl
  simp only [fun fuel => diskStreamReadPorts_eq p fuel frame buf mem out pos total s]
  refine hread.bind ?_
  simp only [Int.lt_irrefl, if_false, streamChunk_of_fit hint hov, Int.toNat_natCast, hsum, hfits, Bool.false_eq_true]
  exact Settles.pure _

theorem frame_succ (buf frame : Word) (i : Nat) :
    buf - BitVec.ofNat 32 (i + 1) * frame = buf - frame - BitVec.ofNat 32 i * frame := by
  have hone : BitVec.ofNat 32 1 * frame = frame := BitVec.one_mul frame
  rw [BitVec.ofNat_add, BitVec.add_mul, hone]
  generalize BitVec.ofNat 32 i * frame = x
  bv_omega

/-- 流れの読み取りは、ドライブの内容を `out` に並べて、その分だけ進む。スタックのほかに書くのは `out` だけで、ドライブは、また命令を待つ。
途中の呼び出しの深さは、読むセクタの数で押さえられる。 -/
theorem diskStreamReadPorts_settles (stack : Word → Prop) (mem : Memory) (s : σ) {frame : Word} {n : Nat}
    (pos total : Nat) (h : pos + total + 512 ≤ 2 ^ 31)
    (hn : (pos % 512 + total) / 512 ≤ n) (hidle : d.Idle s)
    (hstack : ∀ i ≤ n, ∀ k < 512, stack (buf - BitVec.ofNat 32 i * frame + BitVec.ofNat 32 k))
    (hout : ∀ j < total, ¬stack (out + BitVec.ofNat 32 j)) :
    ∃ mem' s', Settles (fun fuel => diskStreamReadPorts p fuel frame buf mem out pos total s)
        (0, mem', ((pos + total : Nat) : Int), s') ∧
      d.Idle s' ∧ ∀ x, ¬stack x → mem' x = mem.write out ((driveDisk d).bytes pos total) x := by
  have hfirst : ∀ k < 512, stack (buf + BitVec.ofNat 32 k) := by
    intro k hk
    have hzero := hstack 0 (Nat.zero_le n) k hk
    rwa [show buf - BitVec.ofNat 32 0 * frame = buf by simp] at hzero
  induction n generalizing buf mem out pos total s with
  | zero => exact diskStreamReadPorts_fit d frame h (by omega) hidle hfirst hout
  | succ n ih =>
      by_cases hov : 512 ≤ pos % 512 + total
      · have hlt : pos % 512 < 512 := Nat.mod_lt _ (by decide)
        have hint : pos % 512 + total < 2 ^ 31 := by omega
        obtain ⟨mem₁, s₁, hread, hidle₁, hend, hmem⟩ := streamLevel d mem pos (512 - pos % 512) hidle (by omega)
          (by omega) hfirst fun j hj => hout j (by omega)
        have hlower : ∀ i ≤ n, ∀ k < 512, stack (buf - frame - BitVec.ofNat 32 i * frame + BitVec.ofNat 32 k) := by
          intro i hi k hk
          have hnext := hstack (i + 1) (by omega) k hk
          rwa [frame_succ] at hnext
        have hrest : ∀ j < total - (512 - pos % 512), ¬stack (out + BitVec.ofNat 32 (512 - pos % 512) + BitVec.ofNat 32 j) := by
          intro j hj
          rw [BitVec.add_assoc, ← BitVec.ofNat_add]
          exact hout _ (by omega)
        have hsecond : ∀ k < 512, stack (buf - frame + BitVec.ofNat 32 k) := by
          intro k hk
          have hzero := hlower 0 (Nat.zero_le n) k hk
          rwa [show buf - frame - BitVec.ofNat 32 0 * frame = buf - frame by simp] at hzero
        obtain ⟨mem', s', hsettle, hidle', hmem'⟩ := @ih (buf - frame) (out + BitVec.ofNat 32 (512 - pos % 512))
          (bufCopyLoop buf (Int.tmod pos ENKI_SECTOR_SIZE) (512 - pos % 512) 0 out mem₁).1 s₁ (pos + (512 - pos % 512))
          (total - (512 - pos % 512)) (by omega) (by omega) hidle₁ hlower hrest hsecond
        refine ⟨mem', s', ?_, hidle', ?_⟩
        · have hend' : i32 ((pos : Int) + ((512 - pos % 512 : Nat) : Int)) = ((pos + (512 - pos % 512) : Nat) : Int) := by
            rw [i32_of_bounds (by omega) (by omega)]
            rfl
          have hleft : i32 ((total : Int) - ((512 - pos % 512 : Nat) : Int)) = ((total - (512 - pos % 512) : Nat) : Int) := by
            rw [i32_of_bounds (by omega) (by omega)]
            omega
          have hsum : pos + (512 - pos % 512) + (total - (512 - pos % 512)) = pos + total := by omega
          simp only [fun fuel => diskStreamReadPorts_eq p fuel frame buf mem out pos total s]
          refine hread.bind ?_
          simp only [Int.lt_irrefl, if_false, streamChunk_of_overflow hint hov, Int.toNat_natCast, hend, hend', hleft,
            (streamOverflow_iff hint).2 hov, if_true]
          rw [← hsum]
          exact hsettle
        · intro x hx
          have hjoin := Memory.write_append mem out ((driveDisk d).bytes pos (512 - pos % 512))
            ((driveDisk d).bytes (pos + (512 - pos % 512)) (total - (512 - pos % 512))) (by simp only [Disk.length_bytes]; omega)
          rw [Disk.length_bytes, Disk.bytes_append, show 512 - pos % 512 + (total - (512 - pos % 512)) = total by omega] at hjoin
          rw [hmem' x hx, ← hjoin]
          exact write_off_stack hmem _ _ hx
      · exact diskStreamReadPorts_fit d frame h hov hidle hfirst hout

end

/-- 三つのセクタにまたがる読み取り。ドライブは、セクタごとに三度待たせる。 -/
theorem diskStreamReadPorts_settles_three :
    ∃ mem' s', Settles (fun fuel => diskStreamReadPorts (AtaSim.ports (fun lba i => BitVec.ofNat 16 (lba + i)) fun _ => 3) fuel
        0x300 0x5FF000 (fun _ => 0) 0x1000000 500 700 ⟨⟨0, 0, 0, 0, 0⟩, .idle⟩) (0, mem', 1200, s') ∧
      ∀ k < 700, mem' (0x1000000 + BitVec.ofNat 32 k) =
        byteAt ((driveDisk (AtaSim.drive (fun lba i => BitVec.ofNat 16 (lba + i)) fun _ => 3)).bytes 500 700) k := by
  have hstack : ∀ i ≤ 2, ∀ k < 512, ((0x5FF000 - BitVec.ofNat 32 i * 0x300 + BitVec.ofNat 32 k : Word)).toNat < 0x1000000 := by
    intro i hi k hk
    have hcases : i = 0 ∨ i = 1 ∨ i = 2 := by omega
    rcases hcases with rfl | rfl | rfl <;> bv_omega
  have hout : ∀ j < 700, ¬(0x1000000 + BitVec.ofNat 32 j : Word).toNat < 0x1000000 := by
    intro j hj
    bv_omega
  obtain ⟨mem', s', hsettle, -, hmem⟩ := diskStreamReadPorts_settles
    (AtaSim.drive (fun lba i => BitVec.ofNat 16 (lba + i)) fun _ => 3) (fun x => x.toNat < 0x1000000) (fun _ => 0)
    ⟨⟨0, 0, 0, 0, 0⟩, .idle⟩ 500 700 (by decide) (show _ ≤ 2 by decide) ⟨_, rfl, rfl⟩ hstack hout
  refine ⟨mem', s', hsettle, ?_⟩
  intro k hk
  rw [hmem _ (hout k hk)]
  exact Memory.write_at _ _ (by rw [Disk.length_bytes]; exact hk) (by rw [Disk.length_bytes]; decide)

end EnkiOs
