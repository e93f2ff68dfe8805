import EnkiOs.Status

/-!
# ディスクと、その上のバイトの流れ

`kernel/disk/disk.c` と `kernel/disk/disk_stream.c`。ハードウェアが返すセクタの内容は `Disk` の `sector` で与える。
-/

namespace EnkiOs
open Machine

/-- 初期化した後の `struct disk`。`sector lba i` は、セクタ `lba` を読んだ後の `buf[i]` である。
`0 ≤ i < 512` 以外の `i` では、`buf` の隣にあるメモリの内容になる。 -/
structure Disk where
  sectorSize : Int
  sector : Word → Int → Byte
  sectorSize_eq : sectorSize = ENKI_SECTOR_SIZE

/-- 結果のコードと、読んだ後の `buf` を返す。ハードウェアの読み取りは必ず終わり、成功するとする。 -/
def diskReadBlock (d : Disk) (lba : Word) : Int × (Int → Byte) := (0, d.sector lba)

/-- `disk_stream_read` の結果。`bytes` は `out` の先頭から順に書いたバイトである。 -/
structure StreamRead where
  result : Int
  bytes : List Byte
  pos : Int

/-- 読む範囲が、最初のセクタの終わりに届く。 -/
def streamOverflow (pos total : Int) : Bool :=
  ENKI_SECTOR_SIZE ≤ i32 (Int.tmod pos ENKI_SECTOR_SIZE + total)

/-- 最初のセクタから読むバイトの数。 -/
def streamChunk (pos total : Int) : Int :=
  if streamOverflow pos total then
    i32 (total - (i32 (Int.tmod pos ENKI_SECTOR_SIZE + total) - ENKI_SECTOR_SIZE))
  else total

/-- 続きの長さは元の長さより小さい。負の長さは、どの長さよりも大きいと数える。 -/
theorem streamChunk_decreases {pos total : Int} (hov : streamOverflow pos total = true) :
    (if i32 (total - streamChunk pos total) < 0 then 2 ^ 32
      else (i32 (total - streamChunk pos total)).toNat) <
    if total < 0 then 2 ^ 32 else total.toNat := by
  have hx : ENKI_SECTOR_SIZE ≤ i32 (Int.tmod pos ENKI_SECTOR_SIZE + total) := by
    simpa [streamOverflow] using hov
  have hlt := i32_lt (Int.tmod pos ENKI_SECTOR_SIZE + total)
  have hu : Int.tmod pos ENKI_SECTOR_SIZE < ENKI_SECTOR_SIZE := Int.tmod_lt_of_pos _ (by decide)
  have hl : -ENKI_SECTOR_SIZE < Int.tmod pos ENKI_SECTOR_SIZE := Int.lt_tmod_of_pos _ (by decide)
  have hle : 0 ≤ Int.tmod pos ENKI_SECTOR_SIZE + total →
      i32 (Int.tmod pos ENKI_SECTOR_SIZE + total) ≤ Int.tmod pos ENKI_SECTOR_SIZE + total := i32_le_self
  have hneg : Int.tmod pos ENKI_SECTOR_SIZE + total < 0 → 0 ≤ total →
      i32 (Int.tmod pos ENKI_SECTOR_SIZE + total) < 0 := by
    intro h0 h1
    simp only [ENKI_SECTOR_SIZE] at *
    rw [i32_of_bounds (by omega) (by omega)]
    exact h0
  rw [streamChunk, if_pos hov, i32_sub_i32]
  simp only [ENKI_SECTOR_SIZE] at *
  generalize i32 (Int.tmod pos 512 + total) = x at *
  rw [show total - (total - (x - 512)) = x - 512 by omega, i32_of_bounds (by omega) (by omega)]
  split <;> split <;> omega

/-- 位置 `pos` から `total` バイトを読む。セクタの終わりに届いたら、続きを同じ手続きで読む。 -/
def diskStreamRead (d : Disk) (pos total : Int) : StreamRead :=
  let sector := Int.tdiv pos ENKI_SECTOR_SIZE
  let offset := Int.tmod pos ENKI_SECTOR_SIZE
  let read := streamChunk pos total
  let block := diskReadBlock d (BitVec.ofInt 32 sector)
  if block.1 < 0 then ⟨block.1, [], pos⟩
  else
    let bytes := (List.range read.toNat).map fun (i : Nat) => block.2 (offset + i)
    let pos' := i32 (pos + read)
    if streamOverflow pos total then
      let rest := diskStreamRead d pos' (i32 (total - read))
      ⟨rest.result, bytes ++ rest.bytes, rest.pos⟩
    else ⟨block.1, bytes, pos'⟩
termination_by if total < 0 then 2 ^ 32 else total.toNat
decreasing_by exact streamChunk_decreases ‹_›

/-- 位置を変えるだけで、読み取りはしない。 -/
def diskStreamSeek (pos : Int) : Int × Int := (0, pos)

end EnkiOs
