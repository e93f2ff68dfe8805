import EnkiOs.Disk.Lemmas
import EnkiOs.Fat.Basic
import Mathlib.Logic.Function.Iterate

/-!
# 認識されたボリューム

`fat16_resolve` が受け入れたディスクと、そこから見た FAT とデータ領域の配置。
-/

namespace EnkiOs
open Machine

/-! ## 受け入れの条件 -/

theorem diskStreamNew_ok {heap heap' : Heap} {stream : Word}
    (h : diskStreamNew heap = .ok (stream, heap')) : stream ≠ 0 := by
  simp only [diskStreamNew] at h
  split at h
  · cases h
  · cases h
    assumption

/-- `fat16_get_root` が成功したときの、ルートディレクトリの内容。 -/
theorem fat16GetRoot_ok {heap heap' : Heap} {d : Disk} {header : FatHeader} {root : FatDir}
    (h : fat16GetRoot heap d header = .ok (.ok root, heap')) :
    let rootPos : Int := header.numberOfFat.toNat * header.sectorsPerFat.toNat + header.reservedSectors.toNat
    let rootSize := header.rootEntries.toNat * FAT_DIR_ITEM_SIZE
    fat16GetDirItems d (BitVec.ofInt 32 rootPos) = .ok root.total ∧
    root.bytes = (diskStreamRead d (fat16SectorToAbs d rootPos) rootSize).bytes ∧
    root.sectorEnd = rootPos + Int.tdiv rootSize d.sectorSize := by
  obtain ⟨total, htotal, h⟩ := bind_ok.1 h
  simp only at h
  split at h
  · cases h
  · split at h
    · cases h
    · split at h
      · cases h
      · cases h
        exact ⟨htotal, rfl, rfl⟩

theorem fat16Resolve_ok {heap heap' : Heap} {d : Disk} {priv : FatPrivate}
    (h : fat16Resolve heap d = .ok (.ok priv, heap')) :
    priv.header = FatHeader.ofBytes (d.bytes 0 FAT_HEADER_SIZE) ∧ priv.fatRead ≠ 0 ∧
    ∃ heap₁ heap₂, fat16GetRoot heap₁ d priv.header = .ok (.ok priv.root, heap₂) := by
  simp only [fat16Resolve] at h
  split at h
  · cases h
  · obtain ⟨_, _, h⟩ := bind_ok.1 h
    obtain ⟨_, hfat, h⟩ := bind_ok.1 h
    obtain ⟨_, _, h⟩ := bind_ok.1 h
    obtain ⟨_, _, h⟩ := bind_ok.1 h
    split at h
    · cases h
    · split at h
      · cases h
      · obtain ⟨⟨root, heap₂⟩, hroot, h⟩ := bind_ok.1 h
        cases root with
        | error code => cases h
        | ok root =>
          cases h
          refine ⟨?_, diskStreamNew_ok hfat, _, _, hroot⟩
          show FatHeader.ofBytes (diskStreamRead d (0 : Nat) FAT_HEADER_SIZE).bytes = _
          rw [diskStreamRead_bytes d (by decide) (by decide) (by decide)]

/-- ヘッダの項目の幅から決まる、データ領域の先頭の上限。 -/
theorem FatHeader.layout_lt (header : FatHeader) :
    header.numberOfFat.toNat * header.sectorsPerFat.toNat + header.reservedSectors.toNat +
      header.rootEntries.toNat * 32 / 512 < 2 ^ 25 := by
  have hf : header.numberOfFat.toNat < 2 ^ 8 := BitVec.isLt _
  have hs : header.sectorsPerFat.toNat < 2 ^ 16 := BitVec.isLt _
  have hr : header.reservedSectors.toNat < 2 ^ 16 := BitVec.isLt _
  have he : header.rootEntries.toNat < 2 ^ 16 := BitVec.isLt _
  have hmul : header.numberOfFat.toNat * header.sectorsPerFat.toNat ≤ 2 ^ 8 * 2 ^ 16 :=
    Nat.mul_le_mul (Nat.le_of_lt hf) (Nat.le_of_lt hs)
  omega

/-- `fat16_resolve` が受け入れたボリューム。 -/
structure Volume where
  disk : Disk
  priv : FatPrivate
  resolved : ∃ heap heap', fat16Resolve heap disk = .ok (.ok priv, heap')

namespace Volume

variable (v : Volume)

theorem header_eq : v.priv.header = FatHeader.ofBytes (v.disk.bytes 0 FAT_HEADER_SIZE) := by
  obtain ⟨_, _, h⟩ := v.resolved
  exact (fat16Resolve_ok h).1

theorem fatRead_ne_zero : v.priv.fatRead ≠ 0 := by
  obtain ⟨_, _, h⟩ := v.resolved
  exact (fat16Resolve_ok h).2.1

/-! ## 配置 -/

def sectPerCluster : Nat := v.priv.header.sectPerCluster.toNat

/-- クラスタのバイト数。 -/
def clusterSize : Nat := v.sectPerCluster * 512

/-- FAT の先頭のバイトの位置。 -/
def fatStart : Nat := v.priv.header.reservedSectors.toNat * 512

/-- FAT のクラスタ `c` の項目。 -/
def fatEntry (c : Nat) : Nat := (halfAt (v.disk.bytes (v.fatStart + 2 * c) 2) 0).toNat

/-- ルートディレクトリの先頭のセクタ。 -/
def rootSector : Nat :=
  v.priv.header.numberOfFat.toNat * v.priv.header.sectorsPerFat.toNat + v.priv.header.reservedSectors.toNat

def rootEntries : Nat := v.priv.header.rootEntries.toNat

/-- データ領域の先頭のセクタ。 -/
def dataSector : Nat := v.priv.root.sectorEnd.toNat

/-- クラスタ `c` の先頭のバイトの位置。 -/
def clusterPos (c : Nat) : Nat := (v.dataSector + (c - 2) * v.sectPerCluster) * 512

theorem fatEntry_lt (c : Nat) : v.fatEntry c < 2 ^ 16 := BitVec.isLt _

theorem sectPerCluster_lt : v.sectPerCluster < 2 ^ 8 := BitVec.isLt _

theorem fatStart_lt : v.fatStart < 2 ^ 25 := by
  have : v.priv.header.reservedSectors.toNat < 2 ^ 16 := BitVec.isLt _
  rw [fatStart]
  omega

theorem root_spec : fat16GetDirItems v.disk (BitVec.ofInt 32 v.rootSector) = .ok v.priv.root.total ∧
    v.priv.root.bytes =
      (diskStreamRead v.disk (fat16SectorToAbs v.disk v.rootSector) ((v.rootEntries * 32 : Nat) : Int)).bytes ∧
    v.priv.root.sectorEnd = ((v.rootSector + v.rootEntries * 32 / 512 : Nat) : Int) := by
  obtain ⟨_, _, h⟩ := v.resolved
  obtain ⟨_, _, _, _, hroot⟩ := fat16Resolve_ok h
  have hspec := fat16GetRoot_ok hroot
  simp only [v.disk.sectorSize_eq] at hspec
  exact hspec

theorem dataSector_eq : v.dataSector = v.rootSector + v.rootEntries * 32 / 512 := by
  rw [dataSector, v.root_spec.2.2, Int.toNat_natCast]

theorem sectorEnd_eq : v.priv.root.sectorEnd = v.dataSector := by
  rw [v.dataSector_eq]
  exact v.root_spec.2.2

/-! ## 手続きの仕様 -/

theorem fat16ClusterSize_eq : fat16ClusterSize v.disk v.priv = v.clusterSize := by
  rw [fat16ClusterSize, v.disk.sectorSize_eq, clusterSize, sectPerCluster, Int.natCast_mul]
  rfl

theorem fatPos_eq {c : Nat} (hc : c < 2 ^ 16) :
    (fat16GetFirstFatSector v.priv * BitVec.ofInt 32 v.disk.sectorSize +
      BitVec.ofInt 32 (i32 (c * ENKI_FAT16_ENTRY_SIZE))).toInt = ((v.fatStart + 2 * c : Nat) : Int) := by
  have hr : v.priv.header.reservedSectors.toNat < 2 ^ 16 := BitVec.isLt _
  have hnat : (fat16GetFirstFatSector v.priv * BitVec.ofInt 32 v.disk.sectorSize +
      BitVec.ofInt 32 (i32 (c * ENKI_FAT16_ENTRY_SIZE))).toNat = v.fatStart + 2 * c := by
    have hs : (BitVec.ofInt 32 v.disk.sectorSize).toNat = 512 := by
      rw [v.disk.sectorSize_eq]
      rfl
    have hf : (fat16GetFirstFatSector v.priv).toNat = v.priv.header.reservedSectors.toNat := by
      rw [fat16GetFirstFatSector, BitVec.toNat_setWidth, Nat.mod_eq_of_lt (by omega)]
    have he : (BitVec.ofInt 32 (i32 (c * ENKI_FAT16_ENTRY_SIZE))).toNat = 2 * c := by
      rw [ofInt_i32, toNat_ofInt_of_bounds (by simp only [ENKI_FAT16_ENTRY_SIZE]; omega)
        (by simp only [ENKI_FAT16_ENTRY_SIZE]; omega), ENKI_FAT16_ENTRY_SIZE]
      omega
    rw [BitVec.toNat_add, BitVec.toNat_mul, hs, hf, he, fatStart]
    omega
  rw [toInt_of_lt, hnat]
  rw [hnat, fatStart]
  omega

theorem fat16GetFatEntry_eq {c : Nat} (hc : c < 2 ^ 16) :
    fat16GetFatEntry v.disk v.priv c = v.fatEntry c := by
  have hlt := v.fatStart_lt
  have hbound : v.fatStart + 2 * c + 2 ≤ 2 ^ 31 := by omega
  have hread := diskStreamRead_spec v.disk hbound (by omega) (by decide)
  simp only [fat16GetFatEntry, v.fatRead_ne_zero, if_false, diskStreamSeek, v.fatPos_eq hc]
  rw [show (2 : Int) = ((2 : Nat) : Int) from rfl, hread]
  rfl

theorem dataSector_lt : v.dataSector < 2 ^ 25 := by
  rw [dataSector_eq, rootSector, rootEntries]
  exact v.priv.header.layout_lt

/-- FAT16 の番号のクラスタでは、セクタの計算は折り返さない。 -/
theorem fat16ClusterToSector_eq {c : Nat} (hc : 2 ≤ c) (hlt : c < 2 ^ 16) :
    fat16ClusterToSector v.priv c = ((v.dataSector + (c - 2) * v.sectPerCluster : Nat) : Int) := by
  have hdata := v.dataSector_lt
  have hsize : (c - 2) * v.sectPerCluster ≤ 2 ^ 16 * 2 ^ 8 :=
    Nat.mul_le_mul (by omega) (Nat.le_of_lt v.sectPerCluster_lt)
  have hback : i32 ((c : Int) - 2) = ((c - 2 : Nat) : Int) := by
    rw [i32_of_bounds (by omega) (by omega)]
    omega
  have hmul : ((c - 2 : Nat) : Int) * v.priv.header.sectPerCluster.toNat = (((c - 2) * v.sectPerCluster : Nat) : Int) :=
    (Int.natCast_mul _ _).symm
  have hstep : i32 (((c - 2) * v.sectPerCluster : Nat) : Int) = (((c - 2) * v.sectPerCluster : Nat) : Int) :=
    i32_of_bounds (by omega) (by omega)
  rw [fat16ClusterToSector, hback, hmul, hstep, v.sectorEnd_eq, ← Int.natCast_add,
    i32_of_bounds (by omega) (by omega)]

end Volume

end EnkiOs
