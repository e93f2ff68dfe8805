import EnkiOs.Heap.Lemmas.Scan
import EnkiOs.Heap.Lemmas.Mark

/-!
# 手前から詰まったヒープ

起動してから割り当てだけを行ったヒープでは、塞がったブロックが手前に詰まっている。割り当ては、その次のブロックから始まる。
-/

namespace EnkiOs
open Machine

/-- カーネルのヒープの番号 `b` より手前が塞がり、`b` から先がすべて空いている。 -/
structure Packed (h : Heap) (b : Nat) : Prop where
  startAddr_eq : h.startAddr = ENKI_HEAP_ADDRESS
  length_eq : h.table.length.toNat = 25600
  taken : ∀ i < b, h.table.freeAt i = false
  vacant : ∀ i, b ≤ i → i < 25600 → h.table.freeAt i = true

/-- 番号 `b` のブロックのアドレス。 -/
def blockAddr (b : Nat) : Word := ENKI_HEAP_ADDRESS + BitVec.ofNat 32 (b * 4096)

theorem blockAddr_toNat {b : Nat} (hb : b ≤ 25600) : (blockAddr b).toNat = 0x01000000 + b * 4096 := by
  have hs : (ENKI_HEAP_ADDRESS).toNat = 0x01000000 := rfl
  rw [blockAddr, BitVec.toNat_add, hs, BitVec.toNat_ofNat]
  omega

theorem blockAddr_ne_zero {b : Nat} (hb : b ≤ 25600) : blockAddr b ≠ 0 := by
  intro h
  have h0 := congrArg BitVec.toNat h
  rw [blockAddr_toNat hb, show (0 : Word).toNat = 0 from rfl] at h0
  omega

theorem blockAddr_inj {b c : Nat} (hb : b ≤ 25600) (hc : c ≤ 25600) (h : blockAddr b = blockAddr c) : b = c := by
  have h0 := congrArg BitVec.toNat h
  rw [blockAddr_toNat hb, blockAddr_toNat hc] at h0
  omega

theorem blockAddr_eq (b : Nat) : blockAddr b = ENKI_HEAP_ADDRESS + 4096 * BitVec.ofNat 32 b := by
  rw [blockAddr, Nat.mul_comm, BitVec.ofNat_mul]
  rfl

theorem heapBlockToAddress_eq (h : Heap) (b : Nat) : heapBlockToAddress h b = h.startAddr + 4096 * BitVec.ofNat 32 b := by
  have hblock : ((b : Int) * ENKI_HEAP_BLOCK_SIZE) = ((4096 * b : Nat) : Int) := by
    rw [Nat.mul_comm]
    rfl
  rw [heapBlockToAddress, ofInt_i32, hblock, BitVec.ofInt_natCast, BitVec.ofNat_mul]
  rfl

namespace Packed

variable {h : Heap} {b : Nat}

theorem create (table : HeapTable) : Packed ⟨{ table with length := 25600 }.clear, ENKI_HEAP_ADDRESS⟩ 0 where
  startAddr_eq := rfl
  length_eq := rfl
  taken := by omega
  vacant := by
    intro i _ hi
    have hlen : (25600 : Word).toNat = 25600 := rfl
    have hin : (0 : Int) ≤ i ∧ (i : Int) < (25600 : Word).toNat := by omega
    simp only [HeapTable.freeAt, HeapTable.clear]
    rw [if_pos hin]
    rfl

theorem blockToAddress (hp : Packed h b) : heapBlockToAddress h b = blockAddr b := by
  rw [heapBlockToAddress_eq, hp.startAddr_eq, blockAddr_eq]

/-- 収まる割り当ては番号 `b` から始まる。 -/
theorem malloc_eq (hp : Packed h b) {size : Word} (hpos : 0 < size.toNat) (hle : size.toNat ≤ 0xFFFFF000)
    (hfit : b + blocksFor size ≤ 25600) :
    heapMalloc h size = (blockAddr b, heapMarkBlocksTaken h b (blocksFor size)) := by
  have hn : h.table.length.toNat < 2 ^ 31 := by rw [hp.length_eq]; decide
  have hm := blocksFor_pos hpos
  have hfits : FirstFit.Fits h.table.freeAt (blocksFor size) h.table.length.toNat b := by
    refine ⟨by rw [hp.length_eq]; exact hfit, ?_⟩
    intro j hj hj'
    exact hp.vacant j hj (by omega)
  have hmin : ∀ s < b, ¬FirstFit.Fits h.table.freeAt (blocksFor size) h.table.length.toNat s := by
    intro s hs hf
    have htrue := hf.2 s (Nat.le_refl s) (by omega)
    rw [hp.taken s hs] at htrue
    cases htrue
  rw [heapMalloc_least hn hpos hle hfits hmin, hp.blockToAddress]

theorem mark (hp : Packed h b) {m : Nat} (hm : 0 < m) (hfit : b + m ≤ 25600) :
    Packed (heapMarkBlocksTaken h b m) (b + m) := by
  have hentries := fun i : Nat => heapMarkBlocksTaken_entries (h := h) hm (show b + m < 2 ^ 31 by omega) i
  constructor
  · simpa using hp.startAddr_eq
  · simpa using hp.length_eq
  · intro i hi
    rw [HeapTable.freeAt, hentries]
    by_cases hbi : b ≤ i
    · rw [if_pos (by omega)]
      exact decide_eq_false (takenEntry_ne_free _ _ _)
    · rw [if_neg (by omega)]
      exact hp.taken i (by omega)
  · intro i hi hlt
    rw [HeapTable.freeAt, hentries, if_neg (by omega)]
    exact hp.vacant i (by omega) hlt

theorem mark_free (hp : Packed h b) {m : Nat} (hm : 0 < m) (hfit : b + m ≤ 25600) :
    Packed (heapFree (heapMarkBlocksTaken h b m) (blockAddr b)) b := by
  have hp' := hp.mark hm hfit
  have hsub : (blockAddr b - (heapMarkBlocksTaken h b m).startAddr).toNat = 4096 * b := by
    rw [← hp.blockToAddress, heapMarkBlocksTaken_startAddr]
    exact heapBlockToAddress_sub (by omega)
  have hblock : heapAddressToBlock (heapMarkBlocksTaken h b m) (blockAddr b) = (b : Int) := by
    rw [heapAddressToBlock_of_lt (by rw [hsub]; omega), hsub, Nat.mul_div_cancel_left _ (by decide)]
  have hlength : (heapMarkBlocksTaken h b m).table.length.toInt = 25600 := by
    rw [toInt_of_lt (by rw [hp'.length_eq]; decide), hp'.length_eq]
    rfl
  have hmarked := fun j : Int => heapMarkBlocksTaken_entries (h := h) hm (show b + m < 2 ^ 31 by omega) j
  have hfree : ∀ i : Nat, (heapFree (heapMarkBlocksTaken h b m) (blockAddr b)).table.entries i =
      if (b : Int) ≤ i ∧ (i : Int) ≤ b + m - 1 then HEAP_BLOCK_TABLE_ENTRY_FREE
      else (heapMarkBlocksTaken h b m).table.entries i := by
    intro i
    simp only [heapFree, heapMarkBlocksFree, hblock, hlength]
    apply heapMarkFreeLoop_entries (by omega) (by omega)
    intro j h1 h2
    rw [hmarked, if_pos (by omega), takenEntry_hasNext]
  constructor
  · simpa using hp.startAddr_eq
  · simpa using hp.length_eq
  · intro i hi
    rw [HeapTable.freeAt, hfree, if_neg (by omega), hmarked, if_neg (by omega)]
    exact hp.taken i hi
  · intro i hi hlt
    rw [HeapTable.freeAt, hfree]
    by_cases hin : i < b + m
    · rw [if_pos (by omega)]
      rfl
    · rw [if_neg (by omega), hmarked, if_neg (by omega)]
      exact hp.vacant i hi hlt

theorem blocksFor_ofNat {size : Nat} (hle : size ≤ 0xFFFFF000) :
    (BitVec.ofNat 32 size).toNat = size ∧ blocksFor (BitVec.ofNat 32 size) = (size + 4095) / 4096 := by
  have hs : (BitVec.ofNat 32 size).toNat = size := by rw [BitVec.toNat_ofNat, Nat.mod_eq_of_lt (by omega)]
  exact ⟨hs, by rw [blocksFor, hs]⟩

theorem kzalloc (hp : Packed h b) {size : Nat} (hpos : 0 < size) (hle : size ≤ 0xFFFFF000)
    (hfit : b + (size + 4095) / 4096 ≤ 25600) :
    (kzalloc h size).1 = blockAddr b ∧ Packed (EnkiOs.kzalloc h size).2 (b + (size + 4095) / 4096) := by
  obtain ⟨hs, hblocks⟩ := blocksFor_ofNat hle
  rw [EnkiOs.kzalloc, hp.malloc_eq (by omega) (by omega) (by omega), hblocks]
  exact ⟨rfl, hp.mark (by omega) hfit⟩

theorem small (hp : Packed h b) {size : Nat} (hpos : 0 < size) (hle : size ≤ 4096) (hb : b < 25600) :
    ∃ h', EnkiOs.kzalloc h size = (blockAddr b, h') ∧ blockAddr b ≠ 0 ∧ Packed h' (b + 1) := by
  have hone : (size + 4095) / 4096 = 1 := by omega
  obtain ⟨haddr, hp'⟩ := hp.kzalloc hpos (by omega) (by omega)
  rw [hone] at hp'
  exact ⟨_, Prod.ext haddr rfl, blockAddr_ne_zero (Nat.le_of_lt hb), hp'⟩

/-- 割り当てた直後に解放すると、元の詰まり方に戻る。 -/
theorem kzalloc_kfree (hp : Packed h b) {size : Nat} (hpos : 0 < size) (hle : size ≤ 0xFFFFF000)
    (hfit : b + (size + 4095) / 4096 ≤ 25600) :
    Packed (kfree (EnkiOs.kzalloc h size).2 (EnkiOs.kzalloc h size).1) b := by
  obtain ⟨hs, hblocks⟩ := blocksFor_ofNat hle
  rw [EnkiOs.kzalloc, hp.malloc_eq (by omega) (by omega) (by omega), hblocks]
  exact hp.mark_free (by omega) hfit

end Packed

/-- 起動の直後のヒープ。 -/
def bootHeap : Heap := ⟨{ entries := fun _ => 0, length := 25600 : HeapTable }.clear, ENKI_HEAP_ADDRESS⟩

/-- `kheap_init` の後は、どのブロックも空いている。 -/
theorem kheapInit_packed (heap : Heap) (table : HeapTable) : ∃ h, kheapInit heap table = (0, h) ∧ Packed h 0 :=
  ⟨_, rfl, Packed.create table⟩

theorem bootHeap_packed : Packed bootHeap 0 := by
  obtain ⟨h, hinit, hp⟩ := kheapInit_packed ⟨⟨fun _ => 0, 0⟩, 0⟩ ⟨fun _ => 0, 0⟩
  rwa [show h = bootHeap from congrArg Prod.snd hinit.symm] at hp

end EnkiOs
