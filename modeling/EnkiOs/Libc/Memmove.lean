import EnkiOs.Lib.Memory

/-!
# `memcpy` と `memmove`

`libc/string/string.c`。読む側を書き換えながら進むので、どちらの向きも、まだ読んでいないバイトを書き換えないことが要る。
-/

namespace EnkiOs
open Machine

/-- 前から一バイトずつ写す。残りの回数と `i` を持つ。 -/
def memcpyLoop (dst src : Word) : Nat → Nat → Memory → Memory
  | 0, _, mem => mem
  | k + 1, i, mem =>
      memcpyLoop dst src k (i + 1) (mem.write (dst + BitVec.ofNat 32 i) [mem (src + BitVec.ofNat 32 i)])

def memcpy (mem : Memory) (dst src size : Word) : Word × Memory := (dst, memcpyLoop dst src size.toNat 0 mem)

/-- 後ろから一バイトずつ写す。残りの回数は、C の `i` である。 -/
def memmoveLoop (dst src : Word) : Nat → Memory → Memory
  | 0, mem => mem
  | i + 1, mem => memmoveLoop dst src i (mem.write (dst + BitVec.ofNat 32 i) [mem (src + BitVec.ofNat 32 i)])

/-- 前からの繰り返しは、`memcpy` と同じである。 -/
def memmove (mem : Memory) (dst src size : Word) : Word × Memory :=
  if dst < src then (dst, memcpyLoop dst src size.toNat 0 mem) else (dst, memmoveLoop dst src size.toNat mem)

variable {dst src size : Word}

/-! ## 繰り返し -/

/-- `i` バイトを写したところからの繰り返し。読む前のバイトは、それより手前の書き込みで変わらない。 -/
theorem memcpyLoop_eq (mem : Memory) {k i : Nat} (hk : i + k ≤ 2 ^ 32)
    (hunread : ∀ j < i + k, ∀ l < j, src + BitVec.ofNat 32 j ≠ dst + BitVec.ofNat 32 l) :
    memcpyLoop dst src k i (mem.write dst (mem.read src i)) = mem.write dst (mem.read src (i + k)) := by
  induction k generalizing i with
  | zero => rfl
  | succ k ih =>
      have hread : mem.write dst (mem.read src i) (src + BitVec.ofNat 32 i) = mem (src + BitVec.ofNat 32 i) := by
        refine write_outside fun l hl => hunread i (by omega) l ?_
        rwa [Memory.length_read] at hl
      have happend := Memory.write_append mem dst (mem.read src i) [mem (src + BitVec.ofNat 32 i)] (by
        rw [Memory.length_read, List.length_singleton]
        omega)
      rw [Memory.length_read, ← Memory.read_concat] at happend
      rw [memcpyLoop, hread, happend, show i + (k + 1) = i + 1 + k by omega]
      refine ih (by omega) ?_
      intro j hj
      exact hunread j (by omega)

/-- 後ろの `k` バイトを写したところからの繰り返し。読む前のバイトは、それより後ろの書き込みで変わらない。 -/
theorem memmoveLoop_eq (mem : Memory) {k i : Nat} (hk : i + k ≤ 2 ^ 32)
    (hunread : ∀ j l, j < l → l < i + k → src + BitVec.ofNat 32 j ≠ dst + BitVec.ofNat 32 l) :
    memmoveLoop dst src i (mem.write (dst + BitVec.ofNat 32 i) (mem.read (src + BitVec.ofNat 32 i) k)) =
      mem.write dst (mem.read src (i + k)) := by
  induction i generalizing k with
  | zero => rw [memmoveLoop, BitVec.add_zero, BitVec.add_zero, Nat.zero_add]
  | succ i ih =>
      have hread : mem.write (dst + BitVec.ofNat 32 (i + 1)) (mem.read (src + BitVec.ofNat 32 (i + 1)) k)
          (src + BitVec.ofNat 32 i) = mem (src + BitVec.ofNat 32 i) := by
        refine write_outside fun l hl => ?_
        rw [Memory.length_read] at hl
        rw [BitVec.add_assoc, ← BitVec.ofNat_add]
        exact hunread i (i + 1 + l) (by omega) (by omega)
      have hnext : ∀ a : Word, a + BitVec.ofNat 32 i + BitVec.ofNat 32 1 = a + BitVec.ofNat 32 (i + 1) := by
        intro a
        rw [BitVec.add_assoc, ← BitVec.ofNat_add]
      have hprepend := Memory.write_prepend mem (dst + BitVec.ofNat 32 i) [mem (src + BitVec.ofNat 32 i)]
        (mem.read (src + BitVec.ofNat 32 (i + 1)) k) (by
          rw [Memory.length_read, List.length_singleton]
          omega)
      rw [List.length_singleton, hnext, List.singleton_append, ← hnext src] at hprepend
      have hcons : mem (src + BitVec.ofNat 32 i) :: mem.read (src + BitVec.ofNat 32 i + BitVec.ofNat 32 1) k =
          mem.read (src + BitVec.ofNat 32 i) (k + 1) := (Memory.read_succ mem _ k).symm
      rw [hcons, hnext] at hprepend
      rw [memmoveLoop, hread, hprepend, show i + 1 + k = i + (k + 1) by omega]
      refine ih (by omega) ?_
      intro j l hj hl
      exact hunread j l hj (by omega)

/-! ## 重なり -/

/-- `dst` が手前なら、前から写す間に、まだ読んでいないバイトは書き換わらない。 -/
theorem forward_unread {n : Nat} (hlt : dst < src) (hsrc : src.toNat + n ≤ 2 ^ 32) :
    ∀ j < n, ∀ l < j, src + BitVec.ofNat 32 j ≠ dst + BitVec.ofNat 32 l := by
  intro j hj l hl
  have hlt' : dst.toNat < src.toNat := hlt
  exact add_ofNat_ne (by omega) (by omega) (by omega)

/-- `dst` が手前でなければ、後ろから写す間に、まだ読んでいないバイトは書き換わらない。 -/
theorem backward_unread {n : Nat} (hle : ¬dst < src) (hdst : dst.toNat + n ≤ 2 ^ 32) :
    ∀ j l, j < l → l < n → src + BitVec.ofNat 32 j ≠ dst + BitVec.ofNat 32 l := by
  intro j l hj hl
  have hle' : src.toNat ≤ dst.toNat := Nat.le_of_not_lt hle
  exact add_ofNat_ne (by omega) (by omega) (by omega)

/-- どう重なっていても、呼ぶ前に読んだバイトを一度に書いたのと同じである。 -/
theorem memmove_eq (mem : Memory) (hdst : dst.toNat + size.toNat ≤ 2 ^ 32) (hsrc : src.toNat + size.toNat ≤ 2 ^ 32) :
    memmove mem dst src size = (dst, mem.write dst (mem.read src size.toNat)) := by
  have hsize := Nat.le_of_lt size.isLt
  rw [memmove]
  split
  · rename_i hlt
    have hloop := memcpyLoop_eq mem (i := 0) (k := size.toNat) (by omega) (by
      rw [Nat.zero_add]
      exact forward_unread hlt hsrc)
    rw [Nat.zero_add] at hloop
    exact congrArg (Prod.mk dst) hloop
  · rename_i hle
    have hloop := memmoveLoop_eq mem (i := size.toNat) (k := 0) hsize (backward_unread hle hdst)
    exact congrArg (Prod.mk dst) hloop

/-- 重ならなければ、`memcpy` も同じである。 -/
theorem memcpy_eq (mem : Memory)
    (hdisjoint : ∀ i < size.toNat, ∀ j < size.toNat, src + BitVec.ofNat 32 i ≠ dst + BitVec.ofNat 32 j) :
    memcpy mem dst src size = (dst, mem.write dst (mem.read src size.toNat)) := by
  have hsize := Nat.le_of_lt size.isLt
  have hloop := memcpyLoop_eq mem (i := 0) (k := size.toNat) (by omega) (by
    rw [Nat.zero_add]
    exact fun i hi j hj => hdisjoint i hi j (by omega))
  rw [Nat.zero_add] at hloop
  exact congrArg (Prod.mk dst) hloop

/-- `memmove` は、どう重なっていても、`src` にあったバイトを `dst` に写し、ほかのバイトを変えない。重ならなければ、`memcpy` の
結果も同じである。 -/
theorem memmove_correct (mem : Memory) {dst src size : Word} (hdst : dst.toNat + size.toNat ≤ 2 ^ 32)
    (hsrc : src.toNat + size.toNat ≤ 2 ^ 32) :
    (memmove mem dst src size).1 = dst ∧
    (∀ i < size.toNat, (memmove mem dst src size).2 (dst + BitVec.ofNat 32 i) = mem (src + BitVec.ofNat 32 i)) ∧
    (∀ x, (∀ i < size.toNat, x ≠ dst + BitVec.ofNat 32 i) → (memmove mem dst src size).2 x = mem x) ∧
    ((∀ i < size.toNat, ∀ j < size.toNat, src + BitVec.ofNat 32 i ≠ dst + BitVec.ofNat 32 j) →
      memcpy mem dst src size = memmove mem dst src size) := by
  rw [memmove_eq mem hdst hsrc]
  refine ⟨rfl, ?_, ?_, ?_⟩
  · intro i hi
    have hlength : i < (mem.read src size.toNat).length := by rwa [Memory.length_read]
    have hsize : (mem.read src size.toNat).length ≤ 2 ^ 32 := by
      rw [Memory.length_read]
      exact Nat.le_of_lt size.isLt
    exact (Memory.write_at mem dst hlength hsize).trans (byteAt_map_range _ hi)
  · intro x hx
    refine write_outside fun i hi => hx i ?_
    rwa [Memory.length_read] at hi
  · intro hdisjoint
    rw [memcpy_eq mem hdisjoint]

/-- 0 番地からの 4 バイトを、2 バイト後ろに写す。 -/
theorem memmove_correct_overlap :
    (∀ i < 4, (memmove (fun x => x.setWidth 8) 2 0 4).2 (2 + BitVec.ofNat 32 i) = (0 + BitVec.ofNat 32 i).setWidth 8) ∧
    (memmove (fun x => x.setWidth 8) 2 0 4).2 1 = 1 ∧ (memmove (fun x => x.setWidth 8) 2 0 4).2 6 = 6 := by
  obtain ⟨-, hcopied, hother, -⟩ := @memmove_correct (fun x => x.setWidth 8) 2 0 4 (by decide) (by decide)
  exact ⟨hcopied, hother 1 (by decide), hother 6 (by decide)⟩

end EnkiOs
