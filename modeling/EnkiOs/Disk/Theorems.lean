import EnkiOs.Disk.Stream

/-!
# ディスクの流れの定理

読み取りは指定した範囲のバイトを `out` へ届ける。求めるセクタの番号は、範囲がセクタの境界で終わるとき、範囲の外へ一つはみ出す。
-/

namespace EnkiOs
open Machine

section
variable (d : Disk) (mem : Memory) (out : Word)

/-! ## 届くバイト -/

theorem diskStreamReadTo_spec (pos total : Nat) (h : pos + total ≤ 2 ^ 31) (hp : pos < 2 ^ 31)
    (ht : total + 512 ≤ 2 ^ 31) :
    (diskStreamReadTo d mem out pos total).result = 0 ∧
    (diskStreamReadTo d mem out pos total).mem = mem.write out (d.bytes pos total) ∧
    (diskStreamReadTo d mem out pos total).pos = i32 ((pos + total : Nat) : Int) := by
  have hread := diskStreamRead_spec d h hp ht
  have hlen : (diskStreamRead d pos total).bytes.length ≤ 2 ^ 32 := by
    rw [hread, Disk.length_bytes]
    omega
  have hrun := diskStreamReadTo_eq d mem out hlen
  simpa only [hread] using hrun

/-- 位置 `pos` から `total` バイトを `out` へ届けた結果である。 -/
structure StreamRun.Delivers (run : StreamRun) (pos total : Int) : Prop where
  result_eq : run.result = 0
  pos_eq : run.pos = pos + total
  bytes_eq : ∀ i < total.toNat, run.mem (out + BitVec.ofNat 32 i) = d.byte (pos.toNat + i)
  frame : ∀ x, total.toNat ≤ (x - out).toNat → run.mem x = mem x

/-- `a` バイトの次に `b` バイトを読んだ結果。 -/
def diskStreamReadTwice (pos a b : Int) : StreamRun :=
  let first := diskStreamReadTo d mem out pos a
  diskStreamReadTo d first.mem (out + BitVec.ofInt 32 a) first.pos b

theorem diskStreamReadTo_delivers {pos total : Nat} (h : pos + total + 512 ≤ 2 ^ 31) :
    (diskStreamReadTo d mem out pos total).Delivers d mem out pos total := by
  obtain ⟨hresult, hmem, hpos⟩ := diskStreamReadTo_spec d mem out pos total (by omega) (by omega) (by omega)
  refine ⟨hresult, ?_, ?_, ?_⟩
  · rw [hpos, i32_of_bounds (by omega) (by omega), Int.natCast_add]
  · intro i hi
    have hlt : i < (d.bytes pos total).length := by simpa using hi
    rw [Disk.length_bytes] at hlt
    rw [hmem, Memory.write_at mem out (by rwa [Disk.length_bytes]) (by rw [Disk.length_bytes]; omega), byteAt,
      List.getD_eq_getElem?_getD, Disk.getElem?_bytes d hlt]
    rfl
  · intro x hx
    rw [hmem, Memory.write_other mem out (by rwa [Disk.length_bytes])]

/-- 分けて読んでも、続けて読んでも同じである。 -/
theorem diskStreamReadTwice_eq {pos a b : Nat} (h : pos + (a + b) + 512 ≤ 2 ^ 31) :
    (diskStreamReadTwice d mem out pos a b).result = 0 ∧
    (diskStreamReadTwice d mem out pos a b).mem = (diskStreamReadTo d mem out pos (a + b : Nat)).mem ∧
    (diskStreamReadTwice d mem out pos a b).pos = (diskStreamReadTo d mem out pos (a + b : Nat)).pos := by
  obtain ⟨-, hmem, hpos⟩ := diskStreamReadTo_spec d mem out pos a (by omega) (by omega) (by omega)
  obtain ⟨-, hmem', hpos'⟩ := diskStreamReadTo_spec d mem out pos (a + b) (by omega) (by omega) (by omega)
  rw [diskStreamReadTwice, hmem, hpos, hmem', hpos', i32_of_bounds (by omega) (by omega), BitVec.ofInt_natCast]
  obtain ⟨hresult, hsecond, hend⟩ := diskStreamReadTo_spec d (mem.write out (d.bytes pos a))
    (out + BitVec.ofNat 32 a) (pos + a) b (by omega) (by omega) (by omega)
  refine ⟨hresult, ?_, ?_⟩
  · have hlen : (d.bytes pos a).length + (d.bytes (pos + a) b).length ≤ 2 ^ 32 := by
      simp only [Disk.length_bytes]
      omega
    have hjoin := Memory.write_append mem out _ _ hlen
    rw [Disk.length_bytes, Disk.bytes_append] at hjoin
    exact hsecond.trans hjoin
  · rw [hend, Nat.add_assoc]

/-- 位置を決めて読むと、ディスクのバイトが順に届き、流れは読んだ分だけ進む。二度に分けて読んでも同じである。 -/
theorem diskStreamRead_delivers {pos total : Int} (hpos : 0 ≤ pos) (htotal : 0 ≤ total)
    (hend : pos + total < 2 ^ 31 - 512) :
    (diskStreamSeek pos).1 = 0 ∧
    (diskStreamReadTo d mem out (diskStreamSeek pos).2 total).Delivers d mem out pos total ∧
    ∀ a b, 0 ≤ a → 0 ≤ b → a + b = total →
      (diskStreamReadTwice d mem out (diskStreamSeek pos).2 a b).result = 0 ∧
      (diskStreamReadTwice d mem out (diskStreamSeek pos).2 a b).mem =
        (diskStreamReadTo d mem out (diskStreamSeek pos).2 total).mem ∧
      (diskStreamReadTwice d mem out (diskStreamSeek pos).2 a b).pos =
        (diskStreamReadTo d mem out (diskStreamSeek pos).2 total).pos := by
  obtain ⟨pos, rfl⟩ := Int.eq_ofNat_of_zero_le hpos
  refine ⟨rfl, ?_, ?_⟩
  · obtain ⟨total, rfl⟩ := Int.eq_ofNat_of_zero_le htotal
    exact diskStreamReadTo_delivers d mem out (by omega)
  · intro a b ha hb hsum
    obtain ⟨a, rfl⟩ := Int.eq_ofNat_of_zero_le ha
    obtain ⟨b, rfl⟩ := Int.eq_ofNat_of_zero_le hb
    rw [← hsum, ← Int.natCast_add]
    exact diskStreamReadTwice_eq d mem out (by omega)

end

/-- セクタの番号を中身とするディスクを、セクタ 0 の途中から次のセクタの終わりまで読む。 -/
theorem diskStreamRead_delivers_two :
    (diskStreamReadTo (Disk.ofBytes fun p => BitVec.ofNat 8 (p / 512)) (fun _ => 0) 0x1000
      (diskStreamSeek 500).2 524).Delivers (Disk.ofBytes fun p => BitVec.ofNat 8 (p / 512)) (fun _ => 0) 0x1000 500 524 :=
  (diskStreamRead_delivers _ _ _ (by decide) (by decide) (by decide)).2.1

section
variable (d : Disk) (mem : Memory) (out : Word)

/-! ## 求めるセクタ -/

theorem streamSector_eq (pos : Nat) :
    BitVec.ofInt 32 (Int.tdiv (pos : Int) ENKI_SECTOR_SIZE) = BitVec.ofNat 32 (pos / 512) :=
  BitVec.ofInt_natCast 32 (pos / 512)

theorem streamSectors_head (pos total : Int) :
    BitVec.ofInt 32 (Int.tdiv pos ENKI_SECTOR_SIZE) ∈ (diskStreamReadTo d mem out pos total).sectors := by
  rw [diskStreamReadTo]
  simp only [diskReadBlock, Int.lt_irrefl, if_false]
  split
  · exact List.mem_cons_self
  · exact List.mem_singleton_self _

/-- セクタの途中で終わる呼び出しの求めるセクタは、始まりの一つだけである。 -/
theorem streamSectors_of_fit {pos total : Nat} (ht : pos % 512 + total < 2 ^ 31) (hov : ¬512 ≤ pos % 512 + total) :
    (diskStreamReadTo d mem out pos total).sectors = [BitVec.ofNat 32 (pos / 512)] := by
  have hlen : (streamChunk pos total).toNat ≤ 2 ^ 32 := by
    rw [streamChunk_of_fit ht hov]
    omega
  rw [diskStreamReadTo_of_fit d mem out (Bool.eq_false_iff.2 (mt (streamOverflow_iff ht).1 hov)) hlen, streamSector_eq]

/-- `offset + read` が `int` を越えると負になり、一つのセクタだけを求めて終わる。 -/
theorem streamSectors_of_wrap {pos total : Nat} (ht : 2 ^ 31 ≤ pos % 512 + total) (ht' : total < 2 ^ 31) :
    (diskStreamReadTo d mem out pos total).sectors = [BitVec.ofNat 32 (pos / 512)] := by
  have hlt : pos % 512 < 512 := Nat.mod_lt _ (by decide)
  have hov : streamOverflow pos total = false := by
    rw [streamOverflow, tmod_sector, decide_eq_false_iff_not, ENKI_SECTOR_SIZE, Int.not_le]
    rw [i32_of_ge (by omega) (by omega)]
    omega
  have hchunk : streamChunk pos total = total := by rw [streamChunk, if_neg (Bool.eq_false_iff.1 hov)]
  rw [diskStreamReadTo_of_fit d mem out hov (by rw [hchunk]; omega), streamSector_eq]

/-- セクタの終わりに届く呼び出しは、始まりのセクタの後に、次の境界からの続きのセクタを求める。 -/
theorem streamSectors_of_overflow {pos total : Nat} (ht : pos % 512 + total < 2 ^ 31)
    (hov : 512 ≤ pos % 512 + total) :
    ∃ mem' out', (diskStreamReadTo d mem out pos total).sectors =
      BitVec.ofNat 32 (pos / 512) ::
        (diskStreamReadTo d mem' out' (i32 ((pos + (512 - pos % 512) : Nat) : Int))
          ((total - (512 - pos % 512) : Nat) : Int)).sectors := by
  have hlt : pos % 512 < 512 := Nat.mod_lt _ (by decide)
  have hchunk := streamChunk_of_overflow ht hov
  have hlen : (streamChunk pos total).toNat ≤ 2 ^ 32 := by
    rw [hchunk]
    omega
  have hrest : i32 ((total : Int) - ((512 - pos % 512 : Nat) : Int)) =
      ((total - (512 - pos % 512) : Nat) : Int) := by
    rw [i32_of_bounds (by omega) (by omega)]
    omega
  rw [diskStreamReadTo_of_overflow d mem out ((streamOverflow_iff ht).2 hov) hlen, streamSector_eq, hchunk, hrest,
    ← Int.natCast_add]
  exact ⟨_, _, rfl⟩

/-- `int` に収まる範囲では、始まりのセクタから、終わりの位置のあるセクタまでを順に求める。 -/
theorem streamSectors_eq {pos total : Nat} (h : pos + total < 2 ^ 31) :
    (diskStreamReadTo d mem out pos total).sectors =
      (List.range' (pos / 512) ((pos + total) / 512 - pos / 512 + 1)).map (BitVec.ofNat 32) := by
  -- 呼び出しごとに一つ次のセクタへ進み、終わりの位置は変わらない。
  induction total using Nat.strongRecOn generalizing pos mem out with
  | _ total ih =>
    have hint : pos % 512 + total < 2 ^ 31 := by omega
    by_cases hov : 512 ≤ pos % 512 + total
    · obtain ⟨mem', out', hrun⟩ := streamSectors_of_overflow d mem out hint hov
      have hend : pos + (512 - pos % 512) + (total - (512 - pos % 512)) = pos + total := by omega
      have hnext : (pos + (512 - pos % 512)) / 512 = pos / 512 + 1 := by omega
      have hcount : (pos + total) / 512 - pos / 512 = (pos + total) / 512 - (pos / 512 + 1) + 1 := by omega
      rw [hrun, i32_of_bounds (by omega) (by omega), ih _ (by omega) _ _ (by omega), hend, hnext, hcount]
      rfl
    · have hcount : (pos + total) / 512 - pos / 512 + 1 = 1 := by omega
      rw [streamSectors_of_fit d mem out hint hov, hcount]
      rfl

/-- `2^31` に届く読み取りは、位置が負へ折り返したところでもう一つのセクタを求める。 -/
theorem streamSectors_wrapped {pos total : Nat} (hp : pos < 2 ^ 31) (hint : pos % 512 + total < 2 ^ 31)
    (h : 2 ^ 31 ≤ pos + total) : 0xFFC00000 ∈ (diskStreamReadTo d mem out pos total).sectors := by
  induction total using Nat.strongRecOn generalizing pos mem out with
  | _ total ih =>
    obtain ⟨mem', out', hrun⟩ := streamSectors_of_overflow d mem out hint (by omega)
    rw [hrun]
    apply List.mem_cons_of_mem
    by_cases hend : pos + (512 - pos % 512) = 2 ^ 31
    · have hback : i32 ((2 ^ 31 : Nat) : Int) = -2 ^ 31 := rfl
      rw [hend, hback]
      exact streamSectors_head d mem' out' (-2 ^ 31) _
    · rw [i32_of_bounds (by omega) (by omega)]
      exact ih _ (by omega) _ _ (by omega) (by omega) (by omega)

/-- どのセクタも、範囲のバイトを少なくとも一つ含む。 -/
def SectorsInRange (sectors : List Word) (pos total : Int) : Prop :=
  ∀ lba ∈ sectors, ∃ q, pos ≤ q ∧ q < pos + total ∧ (lba.toNat : Int) = q / 512

/-- 装置の中に収まる範囲なら、装置の外のセクタは求めない。 -/
theorem SectorsInRange.lt_device {sectors : List Word} {pos total : Int} (h : SectorsInRange sectors pos total)
    {n : Nat} (hn : pos + total ≤ 512 * n) : ∀ lba ∈ sectors, lba.toNat < n := by
  intro lba hlba
  obtain ⟨q, -, hq, heq⟩ := h lba hlba
  omega

/-- 境界で終わる読み取りは、その境界から始まるセクタも求める。 -/
theorem streamSectors_boundary {pos total : Nat} (h : pos + total < 2 ^ 31) :
    BitVec.ofNat 32 ((pos + total) / 512) ∈ (diskStreamReadTo d mem out pos total).sectors := by
  rw [streamSectors_eq d mem out h]
  have hle : pos / 512 ≤ (pos + total) / 512 := Nat.div_le_div_right (by omega)
  exact List.mem_map_of_mem (List.mem_range'_1.2 (by omega))

theorem streamSectors_inRange {pos total : Nat} (h0 : 0 < total) (h : pos + total < 2 ^ 31)
    (hoff : (pos + total) % 512 ≠ 0) :
    SectorsInRange (diskStreamReadTo d mem out pos total).sectors pos total := by
  intro lba hlba
  rw [streamSectors_eq d mem out h] at hlba
  obtain ⟨s, hs, rfl⟩ := List.mem_map.1 hlba
  obtain ⟨hl, hu⟩ := List.mem_range'_1.1 hs
  have hlba : (BitVec.ofNat 32 s).toNat = s := by
    rw [BitVec.toNat_ofNat, Nat.mod_eq_of_lt (by omega)]
  -- 始まりのセクタは `pos` を、ほかのセクタは自分の先頭を含む。
  refine ⟨max pos (512 * s), ?_, ?_, ?_⟩
  · omega
  · omega
  · rw [hlba]
    omega

/-- 読み取りが範囲の中のセクタだけを求めるのは、途中で境界に届かないまま `int` を越えるときと、終わりが境界になく、
`int` を越えないときである。 -/
theorem diskStreamRead_sectors_iff {pos total : Int} (hpos : 0 ≤ pos) (hpos' : pos < 2 ^ 31) (htotal : 1 ≤ total)
    (htotal' : total < 2 ^ 31) :
    SectorsInRange (diskStreamReadTo d mem out pos total).sectors pos total ↔
      2 ^ 31 ≤ pos % 512 + total ∨ (pos + total) % 512 ≠ 0 ∧ pos + total < 2 ^ 31 := by
  obtain ⟨pos, rfl⟩ := Int.eq_ofNat_of_zero_le hpos
  obtain ⟨total, rfl⟩ := Int.eq_ofNat_of_zero_le (show 0 ≤ total by omega)
  by_cases hint : pos % 512 + total < 2 ^ 31
  · have hneg : ¬(2 : Int) ^ 31 ≤ pos % 512 + total := by omega
    rw [or_iff_right hneg]
    constructor
    · intro hin
      have hmax : pos + total < 2 ^ 31 := by
        by_contra hge
        obtain ⟨q, -, hq, heq⟩ := hin _ (streamSectors_wrapped d mem out (by omega) hint (by omega))
        have hbad : (0xFFC00000 : Word).toNat = 0xFFC00000 := rfl
        omega
      refine ⟨fun hzero => ?_, by omega⟩
      obtain ⟨q, -, hq, heq⟩ := hin _ (streamSectors_boundary d mem out hmax)
      rw [BitVec.toNat_ofNat, Nat.mod_eq_of_lt (by omega)] at heq
      omega
    · rintro ⟨hoff, hmax⟩
      exact streamSectors_inRange d mem out (by omega) (by omega) (by omega)
  · refine ⟨fun _ => Or.inl (by omega), fun _ lba hlba => ?_⟩
    rw [streamSectors_of_wrap d mem out (by omega) (by omega), List.mem_singleton] at hlba
    refine ⟨pos, by omega, by omega, ?_⟩
    rw [hlba, BitVec.toNat_ofNat, Nat.mod_eq_of_lt (by omega)]
    omega

end

/-- 最初のセクタの途中で終わる読み取りは、そのセクタだけを求める。 -/
theorem diskStreamRead_sectors_inside :
    SectorsInRange (diskStreamReadTo (Disk.ofBytes fun _ => 0) (fun _ => 0) 0x1000 0 100).sectors 0 100 :=
  (diskStreamRead_sectors_iff _ _ _ (by decide) (by decide) (by decide) (by decide)).2 (by decide)

/-- セクタが一つの装置をちょうど読み終えるときも、その外のセクタ 1 を求める。 -/
theorem diskStreamRead_sectors_fails_whole :
    (diskStreamReadTo (Disk.ofBytes fun _ => 0) (fun _ => 0) 0x1000 0 512).sectors = [0, 1] ∧
    ¬SectorsInRange (diskStreamReadTo (Disk.ofBytes fun _ => 0) (fun _ => 0) 0x1000 0 512).sectors 0 512 := by
  have hsectors : (diskStreamReadTo (Disk.ofBytes fun _ => 0) (fun _ => 0) 0x1000 (0 : Nat) (512 : Nat)).sectors =
      [0, 1] := streamSectors_eq _ _ _ (by decide)
  refine ⟨hsectors, fun hin => ?_⟩
  have hlt := SectorsInRange.lt_device hin (show (0 : Int) + 512 ≤ 512 * (1 : Nat) by decide) 1
    (hsectors ▸ List.mem_cons_of_mem _ (List.mem_singleton_self _))
  exact absurd hlt (by decide)

end EnkiOs
