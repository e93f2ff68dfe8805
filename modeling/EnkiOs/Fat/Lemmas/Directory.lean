import EnkiOs.Fat.Volume
import EnkiOs.Heap.Lemmas.Packed

/-!
# ディレクトリの項目の数

`fat16_get_dir_items` は、終わりの項目までの、消されていない項目を数える。
-/

namespace EnkiOs
open Machine

/-- 位置 `base` から並ぶ項目のうち、先頭の `t` 個の中で消されていないものの数。 -/
def Disk.liveItems (d : Disk) (base t : Nat) : Nat :=
  (List.range t).countP fun j => d.byte (base + 32 * j) ≠ 0xE5

theorem Disk.liveItems_succ (d : Disk) (base t : Nat) :
    d.liveItems base (t + 1) =
      (if d.byte base = 0xE5 then 0 else 1) + d.liveItems (base + 32) t := by
  have hshift : ∀ j, base + 32 * (j + 1) = base + 32 + 32 * j := by omega
  simp only [Disk.liveItems, List.range_succ_eq_map, List.countP_cons, List.countP_map, Nat.mul_zero, Nat.add_zero]
  rw [Nat.add_comm]
  congr 1
  · by_cases h : d.byte base = 0xE5 <;> simp [h]
  · apply List.countP_congr
    intro j _
    simp [hshift]

theorem Disk.liveItems_le (d : Disk) (base t : Nat) : d.liveItems base t ≤ t := by
  have h := List.countP_le_length (p := fun j => decide (d.byte (base + 32 * j) ≠ 0xE5)) (l := List.range t)
  rwa [List.length_range] at h

theorem byteAt_bytes_zero (d : Disk) (p : Nat) {n : Nat} (h : 0 < n) : byteAt (d.bytes p n) 0 = d.byte p := by
  rw [Disk.bytes, byteAt_map_range _ h, Nat.add_zero]

/-- 一つの項目の読み取り。 -/
theorem fat16GetDirItemsLoop_succ (d : Disk) {fuel base : Nat} {i : Int} (h : base + 32 ≤ 2 ^ 31) :
    fat16GetDirItemsLoop d (fuel + 1) base i =
      if d.byte base = 0x00 then .ok i
      else if d.byte base = 0xE5 then fat16GetDirItemsLoop d fuel (i32 ((base + 32 : Nat) : Int)) i
      else fat16GetDirItemsLoop d fuel (i32 ((base + 32 : Nat) : Int)) (i + 1) := by
  have hread : diskStreamRead d base FAT_DIR_ITEM_SIZE = _ :=
    diskStreamRead_spec d h (by omega) (by decide)
  simp only [fat16GetDirItemsLoop, hread, ne_eq, not_true_eq_false, if_false,
    byteAt_bytes_zero d base (show 0 < FAT_DIR_ITEM_SIZE by decide)]

theorem fat16GetDirItemsLoop_eq (d : Disk) {t fuel base : Nat} {i : Int}
    (hlive : ∀ j < t, d.byte (base + 32 * j) ≠ 0) (hend : d.byte (base + 32 * t) = 0)
    (hbound : base + 32 * (t + 1) ≤ 2 ^ 31) (hfuel : t < fuel) :
    fat16GetDirItemsLoop d fuel base i = .ok (i + d.liveItems base t) := by
  -- 終わりの項目までの個数についての帰納法。位置は項目一つぶんずつ進む。
  induction t generalizing fuel base i with
  | zero =>
      obtain ⟨fuel, rfl⟩ : ∃ n, fuel = n + 1 := ⟨fuel - 1, by omega⟩
      rw [Nat.mul_zero, Nat.add_zero] at hend
      rw [fat16GetDirItemsLoop_succ d hbound, if_pos hend]
      simp [Disk.liveItems]
  | succ t ih =>
      obtain ⟨fuel, rfl⟩ : ∃ n, fuel = n + 1 := ⟨fuel - 1, by omega⟩
      have hshift : ∀ j, base + 32 + 32 * j = base + 32 * (j + 1) := by omega
      have hnext : ∀ {i : Int}, fat16GetDirItemsLoop d fuel (i32 ((base + 32 : Nat) : Int)) i =
          .ok (i + d.liveItems (base + 32) t) := by
        intro i
        rw [i32_of_bounds (by omega) (by omega)]
        refine ih ?_ ?_ (by omega) (by omega)
        · intro j hj
          rw [hshift]
          exact hlive (j + 1) (by omega)
        · rw [hshift]
          exact hend
      have hfirst : d.byte base ≠ 0 := hlive 0 (by omega)
      rw [fat16GetDirItemsLoop_succ d (by omega), if_neg hfirst, Disk.liveItems_succ]
      split
      · rw [hnext, Nat.zero_add]
      · rw [hnext, Int.natCast_add, Int.add_assoc]
        rfl

/-- 開始のセクタから終わりの項目までが `2^31` バイトまでにあるとき、消されていない項目の数が返る。 -/
theorem fat16GetDirItems_eq (d : Disk) {sector t : Nat}
    (hlive : ∀ j < t, d.byte (sector * 512 + 32 * j) ≠ 0) (hend : d.byte (sector * 512 + 32 * t) = 0)
    (hbound : sector * 512 + 32 * (t + 1) ≤ 2 ^ 31) :
    fat16GetDirItems d (BitVec.ofInt 32 sector) = .ok (d.liveItems (sector * 512) t : Int) := by
  have hpos : (BitVec.ofInt 32 sector * BitVec.ofInt 32 d.sectorSize).toInt = ((sector * 512 : Nat) : Int) := by
    have hs : (BitVec.ofInt 32 d.sectorSize).toNat = 512 := by
      rw [d.sectorSize_eq]
      rfl
    have hn : (BitVec.ofInt 32 sector * BitVec.ofInt 32 d.sectorSize).toNat = sector * 512 := by
      rw [BitVec.toNat_mul, hs, toNat_ofInt_of_bounds (by omega) (by omega), Int.toNat_natCast,
        Nat.mod_eq_of_lt (by omega)]
    rw [toInt_of_lt (by omega), hn]
  simp only [fat16GetDirItems, diskStreamSeek, hpos, ne_eq, not_true_eq_false, if_false]
  rw [fat16GetDirItemsLoop_eq d hlive hend hbound (by omega), Int.zero_add]

/-! ## 受け入れられるディスク -/

/-- ルートディレクトリの先頭のセクタ。 -/
def FatHeader.rootSector (header : FatHeader) : Nat :=
  header.numberOfFat.toNat * header.sectorsPerFat.toNat + header.reservedSectors.toNat

/-- ルートディレクトリが `2^31` バイトまでにあり、`t` 個の項目の後に終わりの項目がある。 -/
structure RootTerminated (d : Disk) (header : FatHeader) (t : Nat) : Prop where
  live : ∀ j < t, d.byte (header.rootSector * 512 + 32 * j) ≠ 0
  terminator : d.byte (header.rootSector * 512 + 32 * t) = 0
  bound : header.rootSector * 512 + 32 * (t + 1) ≤ 2 ^ 31
  size : header.rootSector * 512 + header.rootEntries.toNat * 32 ≤ 2 ^ 31

theorem fat16GetRoot_accepts {heap : Heap} {d : Disk} {header : FatHeader} {t : Nat}
    (ht : RootTerminated d header t) (halloc : (kzalloc heap (header.rootEntries.toNat * 32)).1 ≠ 0) :
    fat16GetRoot heap d header = .ok (.ok
      { item := (kzalloc heap (header.rootEntries.toNat * 32)).1
        bytes := d.bytes (header.rootSector * 512) (header.rootEntries.toNat * 32)
        total := d.liveItems (header.rootSector * 512) t
        sectorPos := header.rootSector
        sectorEnd := ((header.rootSector + header.rootEntries.toNat * 32 / 512 : Nat) : Int) },
      (kzalloc heap (header.rootEntries.toNat * 32)).2) := by
  have hr : header.rootEntries.toNat < 2 ^ 16 := BitVec.isLt _
  have hb := ht.bound
  have hs := ht.size
  have hpos : ((header.numberOfFat.toNat : Int) * header.sectorsPerFat.toNat + header.reservedSectors.toNat) =
      (header.rootSector : Int) := rfl
  have habs : fat16SectorToAbs d header.rootSector = ((header.rootSector * 512 : Nat) : Int) := by
    rw [fat16SectorToAbs, d.sectorSize_eq, ENKI_SECTOR_SIZE, i32_of_bounds (by omega) (by omega)]
    rfl
  have hread := diskStreamRead_spec d hs (by omega) (by omega)
  simp only [fat16GetRoot, hpos, fat16GetDirItems_eq d ht.live ht.terminator hb, bind, Except.bind, halloc, if_false,
    diskStreamSeek, habs, hread, ne_eq, not_true_eq_false, d.sectorSize_eq]
  rfl

theorem diskStreamNew_packed {heap : Heap} {b : Nat} (hp : Packed heap b) (hb : b < 25600) :
    ∃ heap', diskStreamNew heap = .ok (blockAddr b, heap') ∧ Packed heap' (b + 1) := by
  obtain ⟨haddr, hp'⟩ := hp.kzalloc (show 0 < 8 by decide) (by decide) (by omega)
  refine ⟨_, ?_, hp'⟩
  simp only [diskStreamNew, haddr, blockAddr_ne_zero (Nat.le_of_lt hb), if_false]

/-- 起動の直後のヒープで、署名が正しく、ルートディレクトリに終わりがあれば、`fat16_resolve` は受け入れる。 -/
theorem fat16Resolve_accepts {heap : Heap} {d : Disk} {header : FatHeader} {b t : Nat} (hp : Packed heap b)
    (hb : b ≤ 1024) (hheader : FatHeader.ofBytes (d.bytes 0 FAT_HEADER_SIZE) = header)
    (hsig : header.extBootSignature = ENKI_FAT16_SIGNATURE) (hentries : 0 < header.rootEntries.toNat)
    (ht : RootTerminated d header t) :
    ∃ priv heap' b', fat16Resolve heap d = .ok (.ok priv, heap') ∧ Packed heap' b' ∧ b' ≤ b + 517 := by
  have hr : header.rootEntries.toNat < 2 ^ 16 := BitVec.isLt _
  obtain ⟨ha0, hp0⟩ := hp.kzalloc (show 0 < 92 by decide) (by decide) (by omega)
  obtain ⟨heap₁, hs1, hp1⟩ := diskStreamNew_packed hp0 (by omega)
  obtain ⟨heap₂, hs2, hp2⟩ := diskStreamNew_packed hp1 (by omega)
  obtain ⟨heap₃, hs3, hp3⟩ := diskStreamNew_packed hp2 (by omega)
  obtain ⟨heap₄, hs4, hp4⟩ := diskStreamNew_packed hp3 (by omega)
  obtain ⟨ha5, hp5⟩ := hp4.kzalloc (show 0 < header.rootEntries.toNat * 32 by omega) (by omega) (by omega)
  have hread : diskStreamRead d 0 FAT_HEADER_SIZE = ⟨0, d.bytes 0 FAT_HEADER_SIZE, _⟩ :=
    diskStreamRead_spec d (show 0 + FAT_HEADER_SIZE ≤ 2 ^ 31 by decide) (by decide) (by decide)
  have hroot := fat16GetRoot_accepts ht (by rw [ha5]; exact blockAddr_ne_zero (by omega))
  simp only [fat16Resolve, ha0, blockAddr_ne_zero (show b ≤ 25600 by omega), if_false, hs1, hs2, hs3, hs4, bind,
    Except.bind, hread, ne_eq, not_true_eq_false, hheader, hsig, hroot]
  exact ⟨_, _, _, rfl, hp5, by omega⟩

end EnkiOs
