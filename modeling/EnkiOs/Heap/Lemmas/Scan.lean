import EnkiOs.Heap.Basic
import EnkiOs.Lib.FirstFit

/-!
# 割り当てる場所の探索と、必要なブロックの数
-/

namespace EnkiOs
open Machine

/-- 番号 `i` のブロックが空いている。 -/
def HeapTable.freeAt (t : HeapTable) (i : Nat) : Bool :=
  heapGetEntryType (t.entries i) = HEAP_BLOCK_TABLE_ENTRY_FREE

theorem HeapTable.ne_of_freeAt {t : HeapTable} {b c : Nat} (hc : t.freeAt c = false) (hb : t.freeAt b = true) : c ≠ b := by
  rintro rfl
  exact Bool.false_ne_true (hc.symm.trans hb)

/-- 大きさ `size` の要求に要るブロックの数。 -/
def blocksFor (size : Word) : Nat := (size.toNat + 4095) / 4096

/-- ブロックが `m` 個続けて空いている場所が、表の中にある。 -/
def HeapTable.HasRun (t : HeapTable) (m : Nat) : Prop :=
  ∃ s, FirstFit.Fits t.freeAt m t.length.toNat s

/-! ## 大きさの切り上げ -/

theorem blocksFor_pos {size : Word} (h : 0 < size.toNat) : 0 < blocksFor size := by
  unfold blocksFor; omega

theorem blocksFor_lt {size : Word} (h : size.toNat ≤ 0xFFFFF000) : blocksFor size < 2 ^ 20 := by
  unfold blocksFor; omega

theorem heapAlignVal_toNat {size : Word} (h : size.toNat ≤ 0xFFFFF000) :
    (heapAlignVal size).toNat = 4096 * blocksFor size := by
  simp only [heapAlignVal, blocksFor]
  split
  · rename_i h0
    have h0' : size.toNat % 4096 = 0 := by simpa [ENKI_HEAP_BLOCK_SIZE] using congrArg BitVec.toNat h0
    omega
  · rename_i h0
    simp only [ENKI_HEAP_BLOCK_SIZE] at h0 ⊢
    have h0' : size.toNat % 4096 ≠ 0 := fun h1 => h0 (BitVec.eq_of_toNat_eq (by simpa using h1))
    have hsub : (size - size % 4096#32).toNat = size.toNat - size.toNat % 4096 := by
      rw [BitVec.toNat_sub_of_le (by
        rw [BitVec.le_def, BitVec.toNat_umod]; exact Nat.mod_le _ _), BitVec.toNat_umod]
      rfl
    rw [BitVec.toNat_add, hsub]
    simp only [BitVec.toNat_ofNat]
    omega

/-- 最後のブロックに届く大きさは、切り上げると 0 に戻る。 -/
theorem heapMalloc_noBlocks {size : Word} (h : 0xFFFFF000 < size.toNat) :
    heapAlignVal size / BitVec.ofNat 32 ENKI_HEAP_BLOCK_SIZE = 0 := by
  have hlt := size.isLt
  have hsize : (BitVec.ofNat 32 ENKI_HEAP_BLOCK_SIZE).toNat = 4096 := rfl
  have hmod : (size % BitVec.ofNat 32 ENKI_HEAP_BLOCK_SIZE).toNat = size.toNat - 0xFFFFF000 := by
    rw [BitVec.toNat_umod, hsize]
    omega
  have hne : size % BitVec.ofNat 32 ENKI_HEAP_BLOCK_SIZE ≠ 0 := by
    intro h0
    rw [h0] at hmod
    change 0 = _ at hmod
    omega
  apply BitVec.eq_of_toNat_eq
  simp only [heapAlignVal, if_neg hne]
  rw [BitVec.toNat_udiv, BitVec.toNat_add, BitVec.toNat_sub, hmod, hsize]
  change _ = 0
  omega

theorem heapMalloc_blocks {size : Word} (h : size.toNat ≤ 0xFFFFF000) :
    heapAlignVal size / BitVec.ofNat 32 ENKI_HEAP_BLOCK_SIZE = BitVec.ofNat 32 (blocksFor size) := by
  apply BitVec.eq_of_toNat_eq
  rw [BitVec.toNat_udiv, heapAlignVal_toNat h]
  have := blocksFor_lt h
  simp only [ENKI_HEAP_BLOCK_SIZE, BitVec.toNat_ofNat, Nat.reducePow, Nat.reduceMod]
  omega

/-! ## 走査 -/

/-- C の `start`。まだ無いことを `-1` で表す。 -/
@[simp] def startInt : Option Nat → Int
  | none => -1
  | some s => s

theorem startInt_getD {start : Option Nat} {i : Nat} (hi : i < 2 ^ 31) :
    (if startInt start = -1 then i32 i else startInt start) = startInt (some (start.getD i)) := by
  cases start with
  | none => simp [startInt, i32_of_bounds (x := (i : Int)) (by omega) (by omega)]
  | some s => simp [startInt]

theorem ofInt_succ_eq_iff {current : Nat} {total : Word} (h : current < 2 ^ 31 - 1) :
    BitVec.ofInt 32 (i32 ((current : Int) + 1)) = total ↔ current + 1 = total.toNat := by
  rw [i32_of_bounds (by omega) (by omega)]
  constructor
  · rintro rfl
    rw [toNat_ofInt_of_bounds (by omega) (by omega)]
    omega
  · intro h'
    apply BitVec.eq_of_toNat_eq
    rw [toNat_ofInt_of_bounds (by omega) (by omega)]
    omega

/-- 表の走査は、`-1` を「無い」と読むと一般の走査に一致する。 -/
theorem heapScan_eq {t : HeapTable} {total : Word} {k i : Nat} (current : Nat) (start : Option Nat)
    (hk : i + k < 2 ^ 31) (hc : current ≤ i) :
    heapScan t total k i current (startInt start) =
      startInt (FirstFit.scan t.freeAt total.toNat k i current start) := by
  induction k generalizing i current start with
  | zero => rfl
  | succ k ih =>
      rw [heapScan, FirstFit.scan]
      cases hf : t.freeAt i with
      | false =>
          have hne : heapGetEntryType (t.entries i) ≠ HEAP_BLOCK_TABLE_ENTRY_FREE := by
            simpa [HeapTable.freeAt] using hf
          rw [if_pos hne]
          simpa using ih 0 none (i := i + 1) (by omega) (by omega)
      | true =>
          have heq : heapGetEntryType (t.entries i) = HEAP_BLOCK_TABLE_ENTRY_FREE := by
            simpa [HeapTable.freeAt] using hf
          rw [if_neg (by simpa using heq)]
          simp only [startInt_getD (show i < 2 ^ 31 by omega)]
          by_cases hm : current + 1 = total.toNat
          · rw [if_pos ((ofInt_succ_eq_iff (by omega)).mpr hm)]
            simp [hm]
          · rw [if_neg (fun h => hm ((ofInt_succ_eq_iff (by omega)).mp h)),
              i32_of_bounds (by omega) (by omega)]
            simpa [hm] using ih (current + 1) (some (start.getD i)) (i := i + 1) (by omega) (by omega)

theorem heapGetStartBlock_eq {h : Heap} {total : Word} (hn : h.table.length.toNat < 2 ^ 31) :
    heapGetStartBlock h total =
      match FirstFit.scan h.table.freeAt total.toNat h.table.length.toNat 0 0 none with
      | some s => (s : Int)
      | none => -ENOMEM := by
  have he : heapScan h.table total h.table.length.toNat 0 0 (-1) =
      startInt (FirstFit.scan h.table.freeAt total.toNat h.table.length.toNat 0 0 none) :=
    heapScan_eq 0 none (by omega) (by omega)
  simp only [heapGetStartBlock, he]
  cases FirstFit.scan h.table.freeAt total.toNat h.table.length.toNat 0 0 none with
  | none => rfl
  | some s =>
      rw [if_neg (by simp [startInt])]
      rfl

/-- `heap_malloc` は走査の結果だけで決まる。末尾に残った先頭も、見つかった場所と区別されない。 -/
theorem heapMalloc_scan {h : Heap} {size total : Word} (hn : h.table.length.toNat < 2 ^ 31)
    (ht : heapAlignVal size / BitVec.ofNat 32 ENKI_HEAP_BLOCK_SIZE = total) :
    heapMalloc h size =
      match FirstFit.scan h.table.freeAt total.toNat h.table.length.toNat 0 0 none with
      | some s => (heapBlockToAddress h s, heapMarkBlocksTaken h s total.toNat)
      | none => (0, h) := by
  have hlt : total.toNat < 2 ^ 20 := by
    rw [← ht, BitVec.toNat_udiv]
    have := (heapAlignVal size).isLt
    simp only [ENKI_HEAP_BLOCK_SIZE, BitVec.toNat_ofNat, Nat.reducePow, Nat.reduceMod]
    omega
  simp only [heapMalloc, ht, heapMallocBlocks, heapGetStartBlock_eq hn]
  cases FirstFit.scan h.table.freeAt total.toNat h.table.length.toNat 0 0 none with
  | none => rfl
  | some s => rw [if_neg (by simp), toInt_of_lt (by omega)]

theorem heapMalloc_eq {h : Heap} {size : Word} (hn : h.table.length.toNat < 2 ^ 31)
    (hle : size.toNat ≤ 0xFFFFF000) :
    heapMalloc h size =
      match FirstFit.scan h.table.freeAt (blocksFor size) h.table.length.toNat 0 0 none with
      | some s => (heapBlockToAddress h s, heapMarkBlocksTaken h s (blocksFor size))
      | none => (0, h) := by
  have hlt := blocksFor_lt hle
  have hm : (BitVec.ofNat 32 (blocksFor size)).toNat = blocksFor size := by
    simp only [BitVec.toNat_ofNat]; omega
  have heq := heapMalloc_scan hn (heapMalloc_blocks hle)
  rwa [hm] at heq

/-- 収まる場所があれば、その最も手前が使われる。 -/
theorem heapMalloc_fit {h : Heap} {size : Word} (hn : h.table.length.toNat < 2 ^ 31)
    (hpos : 0 < size.toNat) (hle : size.toNat ≤ 0xFFFFF000) (hr : h.table.HasRun (blocksFor size)) :
    ∃ s, FirstFit.Fits h.table.freeAt (blocksFor size) h.table.length.toNat s ∧
      (∀ s' < s, ¬ FirstFit.Fits h.table.freeAt (blocksFor size) h.table.length.toNat s') ∧
      heapMalloc h size = (heapBlockToAddress h s, heapMarkBlocksTaken h s (blocksFor size)) := by
  obtain ⟨s₀, hs₀⟩ := hr
  have ho : FirstFit.Outcome h.table.freeAt (blocksFor size) h.table.length.toNat _ :=
    FirstFit.scan_spec (blocksFor_pos hpos) h.table.length.toNat
  rw [heapMalloc_eq hn hle]
  generalize FirstFit.scan h.table.freeAt (blocksFor size) h.table.length.toNat 0 0 none = r at ho
  cases ho with
  | fit hf hmin => exact ⟨_, hf, hmin, rfl⟩
  | tail hno _ _ => exact absurd hs₀ (hno s₀)
  | full hno _ => exact absurd hs₀ (hno s₀)

theorem heapMalloc_least {h : Heap} {size : Word} {s : Nat} (hn : h.table.length.toNat < 2 ^ 31)
    (hpos : 0 < size.toNat) (hle : size.toNat ≤ 0xFFFFF000)
    (hs : FirstFit.Fits h.table.freeAt (blocksFor size) h.table.length.toNat s)
    (hmin : ∀ s' < s, ¬ FirstFit.Fits h.table.freeAt (blocksFor size) h.table.length.toNat s') :
    heapMalloc h size = (heapBlockToAddress h s, heapMarkBlocksTaken h s (blocksFor size)) := by
  obtain ⟨s', hs', hmin', heq⟩ := heapMalloc_fit hn hpos hle ⟨s, hs⟩
  obtain rfl : s = s' := by
    rcases Nat.lt_trichotomy s s' with h1 | h1 | h1
    · exact absurd hs (hmin' s h1)
    · exact h1
    · exact absurd hs' (hmin s' h1)
  exact heq

end EnkiOs
