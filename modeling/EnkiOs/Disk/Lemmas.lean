import EnkiOs.Disk.Basic

/-!
# ディスクの流れの仕様

`diskStreamRead` が返すバイトは、ディスク全体を一列に並べたバイトの、指定した範囲である。
-/

namespace EnkiOs
open Machine

/-- ディスクの先頭から数えて `p` 番目のバイト。 -/
def Disk.byte (d : Disk) (p : Nat) : Byte :=
  d.sector (BitVec.ofNat 32 (p / 512)) ((p % 512 : Nat) : Int)

/-- 位置 `p` からの `n` バイト。 -/
def Disk.bytes (d : Disk) (p n : Nat) : List Byte := (List.range n).map fun i => d.byte (p + i)

@[simp] theorem Disk.length_bytes (d : Disk) (p n : Nat) : (d.bytes p n).length = n := by
  simp [Disk.bytes]

@[simp] theorem Disk.bytes_zero (d : Disk) (p : Nat) : d.bytes p 0 = [] := rfl

theorem Disk.getElem?_bytes (d : Disk) {p n i : Nat} (h : i < n) :
    (d.bytes p n)[i]? = some (d.byte (p + i)) := by
  simp [Disk.bytes, h]

theorem Disk.bytes_append (d : Disk) (p m n : Nat) :
    d.bytes p m ++ d.bytes (p + m) n = d.bytes p (m + n) := by
  simp only [Disk.bytes, List.range_add, List.map_append, List.map_map]
  congr 1
  apply List.map_congr_left
  intro i _
  simp only [Function.comp_apply, Nat.add_assoc]

/-- 内容がバイトの列で与えられたディスク。 -/
def Disk.ofBytes (content : Nat → Byte) : Disk where
  sectorSize := ENKI_SECTOR_SIZE
  sector lba i := content (lba.toNat * 512 + i.toNat)
  sectorSize_eq := rfl

theorem Disk.byte_ofBytes {content : Nat → Byte} {p : Nat} (hp : p ≤ 2 ^ 31) :
    (Disk.ofBytes content).byte p = content p := by
  have hlba : (BitVec.ofNat 32 (p / 512)).toNat = p / 512 := by
    rw [BitVec.toNat_ofNat, Nat.mod_eq_of_lt (by omega)]
  simp only [Disk.byte, Disk.ofBytes, hlba, Int.toNat_natCast]
  congr 1
  omega

theorem tmod_sector (pos : Nat) : Int.tmod (pos : Int) ENKI_SECTOR_SIZE = ((pos % 512 : Nat) : Int) := rfl

theorem streamOverflow_iff {pos total : Nat} (ht : pos % 512 + total < 2 ^ 31) :
    streamOverflow pos total = true ↔ 512 ≤ pos % 512 + total := by
  have hlt : pos % 512 < 512 := Nat.mod_lt _ (by decide)
  rw [streamOverflow, tmod_sector, decide_eq_true_eq, i32_of_bounds (by omega) (by omega), ENKI_SECTOR_SIZE]
  omega

theorem streamChunk_of_overflow {pos total : Nat} (ht : pos % 512 + total < 2 ^ 31)
    (hov : 512 ≤ pos % 512 + total) : streamChunk pos total = ((512 - pos % 512 : Nat) : Int) := by
  have hlt : pos % 512 < 512 := Nat.mod_lt _ (by decide)
  rw [streamChunk, if_pos ((streamOverflow_iff ht).2 hov), tmod_sector, ENKI_SECTOR_SIZE]
  generalize pos % 512 = r at *
  rw [i32_of_bounds (show -2 ^ 31 ≤ (r : Int) + total by omega) (by omega),
    i32_of_bounds (by omega) (by omega)]
  omega

theorem streamChunk_of_fit {pos total : Nat} (ht : pos % 512 + total < 2 ^ 31)
    (hov : ¬512 ≤ pos % 512 + total) : streamChunk pos total = total := by
  rw [streamChunk, if_neg (mt (streamOverflow_iff ht).1 hov)]

/-- 一つのセクタの中では、`buf` のバイトがそのままディスクのバイトである。 -/
theorem sectorBytes_eq (d : Disk) {pos n : Nat} (hn : pos % 512 + n ≤ 512) :
    (List.range n).map (fun (i : Nat) =>
      d.sector (BitVec.ofInt 32 (Int.tdiv pos ENKI_SECTOR_SIZE)) (Int.tmod pos ENKI_SECTOR_SIZE + i)) =
    d.bytes pos n := by
  have hd : Int.tdiv (pos : Int) ENKI_SECTOR_SIZE = ((pos / 512 : Nat) : Int) := rfl
  have ht : Int.tmod (pos : Int) ENKI_SECTOR_SIZE = ((pos % 512 : Nat) : Int) := rfl
  apply List.map_congr_left
  intro i hi
  have hlt := List.mem_range.1 hi
  rw [hd, ht, Disk.byte, BitVec.ofInt_natCast]
  have hq : (pos + i) / 512 = pos / 512 := by omega
  have hr : (pos + i) % 512 = pos % 512 + i := by omega
  rw [hq, hr, Int.natCast_add]

theorem diskStreamRead_of_fit (d : Disk) {pos total : Nat} (ht : pos % 512 + total < 2 ^ 31)
    (hov : ¬512 ≤ pos % 512 + total) :
    diskStreamRead d pos total = ⟨0, d.bytes pos total, i32 ((pos + total : Nat) : Int)⟩ := by
  rw [diskStreamRead]
  simp only [diskReadBlock, Int.lt_irrefl, if_false]
  rw [if_neg (mt (streamOverflow_iff ht).1 hov), streamChunk_of_fit ht hov, Int.toNat_natCast,
    sectorBytes_eq d (by omega), Int.natCast_add]

/-- セクタの終わりに届く読み取り。続きは次のセクタの先頭から読む。 -/
theorem diskStreamRead_of_overflow (d : Disk) {pos total : Nat} (ht : pos % 512 + total < 2 ^ 31)
    (hov : 512 ≤ pos % 512 + total) :
    diskStreamRead d pos total =
      let rest := diskStreamRead d (i32 ((pos + (512 - pos % 512) : Nat) : Int))
        ((total - (512 - pos % 512) : Nat) : Int)
      ⟨rest.result, d.bytes pos (512 - pos % 512) ++ rest.bytes, rest.pos⟩ := by
  have hlt : pos % 512 < 512 := Nat.mod_lt _ (by decide)
  have hrest : i32 ((total : Int) - ((512 - pos % 512 : Nat) : Int)) =
      ((total - (512 - pos % 512) : Nat) : Int) := by
    rw [i32_of_bounds (by omega) (by omega)]
    omega
  rw [diskStreamRead]
  simp only [diskReadBlock, Int.lt_irrefl, if_false]
  rw [if_pos ((streamOverflow_iff ht).2 hov), streamChunk_of_overflow ht hov, hrest, Int.toNat_natCast,
    sectorBytes_eq d (by omega), Int.natCast_add]

/-- `2^31` の位置に置かれた長さ 0 の読み取りは、何も読まずに成功する。 -/
theorem diskStreamRead_wrapped (d : Disk) :
    diskStreamRead d (i32 ((2 ^ 31 : Nat) : Int)) (0 : Nat) = ⟨0, [], -2 ^ 31⟩ := by
  rw [diskStreamRead]
  rfl

/-- 読む範囲が `2^31` を越えないなら、読み取りは成功し、ディスクのバイトを順に返す。 -/
theorem diskStreamRead_spec (d : Disk) {pos total : Nat} (h : pos + total ≤ 2 ^ 31)
    (hp : pos < 2 ^ 31) (ht : total + 512 ≤ 2 ^ 31) :
    diskStreamRead d pos total = ⟨0, d.bytes pos total, i32 ((pos + total : Nat) : Int)⟩ := by
  -- 残りの長さについての帰納法。セクタの終わりに届くと、次のセクタの先頭から続ける。
  induction total using Nat.strongRecOn generalizing pos with
  | _ total ih =>
    have hlt : pos % 512 < 512 := Nat.mod_lt _ (by decide)
    have hint : pos % 512 + total < 2 ^ 31 := by omega
    by_cases hov : 512 ≤ pos % 512 + total
    · have hsum : 512 - pos % 512 + (total - (512 - pos % 512)) = total := by omega
      rw [diskStreamRead_of_overflow d hint hov]
      by_cases hend : pos + (512 - pos % 512) = 2 ^ 31
      · have hzero : total - (512 - pos % 512) = 0 := by omega
        have htot : total = 512 - pos % 512 := by omega
        rw [hend, hzero, diskStreamRead_wrapped, ← htot, show pos + total = 2 ^ 31 by omega]
        simp only [List.append_nil]
        rfl
      · have hp' : pos + (512 - pos % 512) < 2 ^ 31 := by omega
        rw [i32_of_bounds (by omega) (by omega), ih _ (by omega) (by omega) hp' (by omega)]
        simp only [Disk.bytes_append, Nat.add_assoc, hsum]
    · exact diskStreamRead_of_fit d hint hov

theorem diskStreamRead_bytes (d : Disk) {pos total : Nat} (h : pos + total ≤ 2 ^ 31)
    (hp : pos < 2 ^ 31) (ht : total + 512 ≤ 2 ^ 31) :
    (diskStreamRead d pos total).bytes = d.bytes pos total := by
  rw [diskStreamRead_spec d h hp ht]

/-- どの位置からでも、短い読み取りは成功し、求めた数のバイトを返して、その分だけ進む。 -/
theorem diskStreamRead_short (d : Disk) {total : Nat} (ht : total ≤ 2 ^ 22) (pos : Int) :
    (diskStreamRead d pos total).result = 0 ∧ (diskStreamRead d pos total).bytes.length = total ∧
      (diskStreamRead d pos total).pos = i32 (pos + total) := by
  induction total using Nat.strongRecOn generalizing pos with
  | _ total ih =>
    have hlow : -512 < Int.tmod pos 512 := Int.lt_tmod_of_pos pos (by decide)
    have hhigh : Int.tmod pos 512 < 512 := Int.tmod_lt_of_pos pos (by decide)
    have hsum : i32 (Int.tmod pos ENKI_SECTOR_SIZE + total) = Int.tmod pos 512 + total :=
      i32_of_bounds (by simp only [ENKI_SECTOR_SIZE]; omega) (by simp only [ENKI_SECTOR_SIZE]; omega)
    rw [diskStreamRead]
    simp only [diskReadBlock, Int.lt_irrefl, if_false]
    by_cases hov : streamOverflow pos total = true
    · have hge : 512 ≤ Int.tmod pos 512 + total := by
        rw [streamOverflow, hsum] at hov
        exact of_decide_eq_true hov
      have hchunk : streamChunk pos total = ((512 - Int.tmod pos 512).toNat : Int) := by
        rw [streamChunk, if_pos hov, hsum, ENKI_SECTOR_SIZE, i32_of_bounds (by omega) (by omega)]
        omega
      have hrest : i32 ((total : Int) - ((512 - Int.tmod pos 512).toNat : Int)) =
          ((total - (512 - Int.tmod pos 512).toNat : Nat) : Int) := by
        rw [i32_of_bounds (by omega) (by omega)]
        omega
      obtain ⟨hresult, hlength, hpos⟩ :=
        ih (total - (512 - Int.tmod pos 512).toNat) (by omega) (by omega) (i32 (pos + (512 - Int.tmod pos 512).toNat))
      rw [if_pos hov, hchunk, hrest, Int.toNat_natCast]
      refine ⟨hresult, ?_, ?_⟩
      · rw [List.length_append, List.length_map, List.length_range, hlength]
        omega
      · rw [hpos, i32, i32, Int.bmod_add_bmod, i32]
        congr 1
        omega
    · have hchunk : streamChunk pos total = total := by rw [streamChunk, if_neg hov]
      rw [if_neg hov, hchunk, Int.toNat_natCast]
      exact ⟨rfl, by rw [List.length_map, List.length_range], rfl⟩

end EnkiOs
