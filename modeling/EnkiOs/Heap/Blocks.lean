import EnkiOs.Heap.Grown
import EnkiOs.Lib.Cpu

/-!
# ブロックの中のバイト

一ブロックに収まる領域を割り当て、その中だけへ書くときの、メモリの変化。
-/

namespace EnkiOs
open Machine

variable {mem : Memory} {b c : Nat} {x : Word}

/-- ブロック `b` の外。 -/
def OffBlock (b : Nat) (x : Word) : Prop := ∀ i < 4096, x ≠ blockAddr b + BitVec.ofNat 32 i

theorem blockAddr_add_ne {b c i j : Nat} (hb : b < 25600) (hc : c < 25600) (hi : i < 4096) (hj : j < 4096) (hne : c = b → i ≠ j) :
    blockAddr c + BitVec.ofNat 32 i ≠ blockAddr b + BitVec.ofNat 32 j := by
  have hbto := blockAddr_toNat (Nat.le_of_lt hb)
  have hcto := blockAddr_toNat (Nat.le_of_lt hc)
  refine add_ofNat_ne (by omega) (by omega) fun he => ?_
  rw [hbto, hcto] at he
  exact hne (by omega) (by omega)

theorem offBlock_of_ne {b c : Nat} (hb : b < 25600) (hc : c < 25600) (hne : b ≠ c) {i : Nat} (hi : i < 4096) :
    OffBlock b (blockAddr c + BitVec.ofNat 32 i) :=
  fun _ hj => blockAddr_add_ne hb hc hi hj fun he => absurd he.symm hne

theorem OffBlock.write {i : Nat} {bytes : List Byte} (h : OffBlock b x) (hi : i + bytes.length ≤ 4096) :
    mem.write (blockAddr b + BitVec.ofNat 32 i) bytes x = mem x := by
  refine write_outside fun j hj => ?_
  rw [BitVec.add_assoc, ← BitVec.ofNat_add]
  exact h (i + j) (by omega)

theorem OffBlock.write_start {bytes : List Byte} (h : OffBlock b x) (hlen : bytes.length ≤ 4096) :
    mem.write (blockAddr b) bytes x = mem x := write_outside fun j hj => h j (by omega)

theorem OffBlock.setWord {i : Nat} (h : OffBlock b x) (hi : i + 4 ≤ 4096) (v : Word) :
    mem.setWord (blockAddr b + BitVec.ofNat 32 i) v x = mem x := h.write hi

theorem OffBlock.setWord_start (h : OffBlock b x) (v : Word) : mem.setWord (blockAddr b) v x = mem x :=
  h.write_start (show 4 ≤ 4096 by decide)

theorem OffBlock.zero {n : Nat} (h : OffBlock b x) (hn : n ≤ 4096) : mem.zero (blockAddr b) n x = mem x :=
  h.write_start (by rwa [List.length_replicate])

/-- ブロック `a` の `i` 番目から書いても、他のブロックと、`a` のそこより手前は変わらない。 -/
theorem write_block_before {a d i j : Nat} {bytes : List Byte} (ha : a < 25600) (hd : d < 25600) (hj : j < 4096)
    (hend : i + bytes.length ≤ 4096) (hda : d = a → j < i) :
    mem.write (blockAddr a + BitVec.ofNat 32 i) bytes (blockAddr d + BitVec.ofNat 32 j) = mem (blockAddr d + BitVec.ofNat 32 j) := by
  refine write_outside fun l hl => ?_
  rw [BitVec.add_assoc, ← BitVec.ofNat_add]
  refine blockAddr_add_ne ha hd hj (by omega) fun he => ?_
  have hlt := hda he
  omega

theorem setWord_block_before {a d i j : Nat} (ha : a < 25600) (hd : d < 25600) (hj : j < 4096) (hend : i + 4 ≤ 4096)
    (hda : d = a → j < i) (v : Word) :
    mem.setWord (blockAddr a + BitVec.ofNat 32 i) v (blockAddr d + BitVec.ofNat 32 j) = mem (blockAddr d + BitVec.ofNat 32 j) :=
  write_block_before ha hd hj hend hda

/-- 割り当てた領域をゼロで埋める。 -/
def kzallocMem (heap : Heap) (mem : Memory) (size : Nat) : Word × Heap × Memory :=
  let (ptr, heap) := kzalloc heap size
  (ptr, heap, if ptr = 0 then mem else mem.zero ptr size)

end EnkiOs
