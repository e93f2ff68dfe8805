import EnkiOs.Disk.Lemmas
import EnkiOs.Lib.Memory

/-!
# 流れの読み取りが書くメモリと、求めるセクタ

`disk_stream_read` を、`out` へ一バイトずつ書くメモリと、`disk_read_block` に渡したセクタの番号とともに計算する。
-/

namespace EnkiOs
open Machine

/-- `buf` の `offset + i` から `count` バイトを `out` へ写す。書いた後のメモリと、進んだ `out` を返す。 -/
def streamCopyLoop (buf : Int → Byte) (offset : Int) : Nat → Nat → Word → Memory → Memory × Word
  | 0, _, out, mem => (mem, out)
  | count + 1, i, out, mem =>
    streamCopyLoop buf offset count (i + 1) (out + 1) (mem.write out [buf (offset + i)])

/-- `disk_stream_read` の結果のコード、書いた後のメモリ、流れの位置と、求めたセクタの番号。 -/
structure StreamRun where
  result : Int
  mem : Memory
  pos : Int
  sectors : List Word

def diskStreamReadTo (d : Disk) (mem : Memory) (out : Word) (pos total : Int) : StreamRun :=
  let sector := Int.tdiv pos ENKI_SECTOR_SIZE
  let offset := Int.tmod pos ENKI_SECTOR_SIZE
  let read := streamChunk pos total
  let lba := BitVec.ofInt 32 sector
  let block := diskReadBlock d lba
  if block.1 < 0 then ⟨block.1, mem, pos, [lba]⟩
  else
    let copied := streamCopyLoop block.2 offset read.toNat 0 out mem
    let pos' := i32 (pos + read)
    if streamOverflow pos total then
      let rest := diskStreamReadTo d copied.1 copied.2 pos' (i32 (total - read))
      { rest with sectors := lba :: rest.sectors }
    else ⟨block.1, copied.1, pos', [lba]⟩
termination_by if total < 0 then 2 ^ 32 else total.toNat
decreasing_by exact streamChunk_decreases ‹_›

/-! ## 写すバイト -/

theorem streamCopyLoop_eq (buf : Int → Byte) (offset : Int) {count : Nat} (i : Nat) (out : Word) (mem : Memory)
    (h : count ≤ 2 ^ 32) :
    streamCopyLoop buf offset count i out mem =
      (mem.write out ((List.range count).map fun (j : Nat) => buf (offset + (i + j : Nat))),
        out + BitVec.ofNat 32 count) := by
  induction count generalizing i out mem with
  | zero => simp [streamCopyLoop]
  | succ count ih =>
    have hlen : 1 + ((List.range count).map fun (j : Nat) => buf (offset + (i + 1 + j : Nat))).length ≤ 2 ^ 32 := by
      simp only [List.length_map, List.length_range]
      omega
    have hjoin := Memory.write_append mem out [buf (offset + i)]
      ((List.range count).map fun (j : Nat) => buf (offset + (i + 1 + j : Nat))) hlen
    rw [streamCopyLoop, ih (i + 1) (out + 1) _ (by omega), add_one_add]
    refine Prod.ext (hjoin.trans ?_) rfl
    rw [List.range_succ_eq_map, List.map_cons, List.map_map, List.singleton_append]
    congr 2
    apply List.map_congr_left
    intro j _
    rw [Function.comp_apply, Nat.succ_eq_one_add, Nat.add_assoc]

section
variable (d : Disk) (mem : Memory) (out : Word) {pos total : Int}

/-- 一つの呼び出しが `out` へ写すバイト。 -/
def streamBytes (pos total : Int) : List Byte :=
  (List.range (streamChunk pos total).toNat).map fun (i : Nat) =>
    d.sector (BitVec.ofInt 32 (Int.tdiv pos ENKI_SECTOR_SIZE)) (Int.tmod pos ENKI_SECTOR_SIZE + i)

/-- セクタの終わりに届かない呼び出しは、一つのセクタだけを求める。 -/
theorem diskStreamReadTo_of_fit (hov : streamOverflow pos total = false)
    (hlen : (streamChunk pos total).toNat ≤ 2 ^ 32) :
    diskStreamReadTo d mem out pos total =
      ⟨0, mem.write out (streamBytes d pos total), i32 (pos + streamChunk pos total),
        [BitVec.ofInt 32 (Int.tdiv pos ENKI_SECTOR_SIZE)]⟩ := by
  rw [diskStreamReadTo]
  simp [diskReadBlock, hov, streamCopyLoop_eq _ _ _ _ _ hlen, streamBytes]

/-- セクタの終わりに届く呼び出しは、進んだ位置から同じ手続きを呼ぶ。 -/
theorem diskStreamReadTo_of_overflow (hov : streamOverflow pos total = true)
    (hlen : (streamChunk pos total).toNat ≤ 2 ^ 32) :
    diskStreamReadTo d mem out pos total =
      let rest := diskStreamReadTo d (mem.write out (streamBytes d pos total))
        (out + BitVec.ofNat 32 (streamChunk pos total).toNat) (i32 (pos + streamChunk pos total))
        (i32 (total - streamChunk pos total))
      { rest with sectors := BitVec.ofInt 32 (Int.tdiv pos ENKI_SECTOR_SIZE) :: rest.sectors } := by
  rw [diskStreamReadTo]
  simp [diskReadBlock, hov, streamCopyLoop_eq _ _ _ _ _ hlen, streamBytes]

end

/-- 書かれるのは `diskStreamRead` の返すバイトで、結果と位置も同じである。 -/
theorem diskStreamReadTo_eq (d : Disk) (mem : Memory) (out : Word) {pos total : Int}
    (h : (diskStreamRead d pos total).bytes.length ≤ 2 ^ 32) :
    (diskStreamReadTo d mem out pos total).result = (diskStreamRead d pos total).result ∧
    (diskStreamReadTo d mem out pos total).mem = mem.write out (diskStreamRead d pos total).bytes ∧
    (diskStreamReadTo d mem out pos total).pos = (diskStreamRead d pos total).pos := by
  -- 二つの手続きは同じ呼び出しの列をたどる。
  fun_induction diskStreamRead d pos total generalizing mem out with
  | case1 =>
    rename_i hneg
    exact absurd hneg (Int.lt_irrefl 0)
  | case2 pos total sector offset read block _ bytes pos' hov =>
    rename_i rest ih
    have hcopied : bytes.length = read.toNat := by simp [bytes]
    have hlen : bytes.length + rest.bytes.length ≤ 2 ^ 32 := List.length_append ▸ h
    obtain ⟨hresult, hmem, hpos⟩ := ih (mem.write out bytes) (out + BitVec.ofNat 32 bytes.length)
      (show rest.bytes.length ≤ 2 ^ 32 by omega)
    rw [Memory.write_append mem out _ _ hlen, hcopied] at hmem
    rw [hcopied] at hresult hpos
    rw [diskStreamReadTo_of_overflow d mem out hov (show read.toNat ≤ 2 ^ 32 by omega)]
    exact ⟨hresult, hmem, hpos⟩
  | case3 =>
    rename_i read block _ bytes pos' hov
    have hlen : read.toNat ≤ 2 ^ 32 := by simpa [bytes] using h
    rw [diskStreamReadTo_of_fit d mem out (Bool.eq_false_iff.2 hov) hlen]
    exact ⟨rfl, rfl, rfl⟩

end EnkiOs
