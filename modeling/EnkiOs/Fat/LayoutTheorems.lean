import EnkiOs.Fat.Lemmas.Call
import EnkiOs.Fat.Theorems

/-!
# データ領域の配置についての結果

データ領域の先頭と、クラスタのバイトの位置。位置は符号つきの 32 ビットで計算される。
-/

namespace EnkiOs
open Machine

/-! ## クラスタの位置 -/

/-- 起動のためのセクタが宣言する、ボリュームのセクタの数。 -/
abbrev bpbTotalSectorsBig : Nat := 0x773594

/-- `fat16_get_root` の求める、データ領域の先頭のセクタ。 -/
def FatHeader.dataSector (header : FatHeader) : Nat := header.rootSector + header.rootEntries.toNat * 32 / 512

/-- クラスタ `c` の先頭のセクタ。折り返しのない整数で求める。 -/
def FatHeader.clusterSector (header : FatHeader) (c : Int) : Int :=
  header.dataSector + (c - 2) * header.sectPerCluster.toNat

/-- 流れに渡す位置と、そこから求まるセクタが、折り返しのない整数での値に等しい。 -/
structure PositionExact (d : Disk) (priv : FatPrivate) (c offset : Int) : Prop where
  pos : fat16StartPos d priv c offset = priv.header.clusterSector c * 512 + offset
  sector : Int.tdiv (fat16StartPos d priv c offset) ENKI_SECTOR_SIZE = (priv.header.clusterSector c * 512 + offset) / 512

theorem Volume.headerDataSector_eq (v : Volume) : v.priv.root.sectorEnd = v.priv.header.dataSector := v.root_spec.2.2

section

variable {d : Disk} {priv : FatPrivate} (hend : priv.root.sectorEnd = priv.header.dataSector) {c : Int}
  (hlow : 0 ≤ priv.header.clusterSector c)
include hend hlow

/-- ボリュームの中のクラスタでは、セクタの計算は折り返さない。 -/
theorem fat16ClusterToSector_exact (hc : -2 ^ 31 ≤ c) (hc' : c < 2 ^ 31) (hspc : 0 < priv.header.sectPerCluster.toNat)
    (hhigh : priv.header.clusterSector c < 2 ^ 31) :
    fat16ClusterToSector priv c = priv.header.clusterSector c := by
  have hdata : priv.header.dataSector < 2 ^ 25 := priv.header.layout_lt
  rw [FatHeader.clusterSector] at hlow hhigh
  -- 番号が小さすぎれば、クラスタはボリュームの前に出てしまう。
  have hback : i32 (c - 2) = c - 2 := by
    apply i32_of_bounds
    · by_contra hno
      have hle : (c - 2) * (priv.header.sectPerCluster.toNat : Int) ≤ (c - 2) * 1 :=
        Int.mul_le_mul_of_nonpos_left (by omega) (by omega)
      omega
    · omega
  rw [fat16ClusterToSector, hback, hend, FatHeader.clusterSector, i32_of_bounds (x := (c - 2) * _) (by omega) (by omega),
    i32_of_bounds (by omega) (by omega)]

/-- 位置とセクタが正しく求まるのは、その位置がディスクの先頭から `2^31` バイトまでにあるとき、そのときに限る。 -/
theorem positionExact_iff (hc : -2 ^ 31 ≤ c) (hc' : c < 2 ^ 31) {total : Nat} (htotal : total ≤ bpbTotalSectorsBig)
    (hhigh : priv.header.clusterSector c + priv.header.sectPerCluster.toNat ≤ total) {offset : Int} (hoffset : 0 ≤ offset)
    (hin : offset < fat16ClusterSize d priv) :
    PositionExact d priv c offset ↔ priv.header.clusterSector c * 512 + offset < 2 ^ 31 := by
  have hsize : fat16ClusterSize d priv = priv.header.sectPerCluster.toNat * 512 := by rw [fat16ClusterSize, d.sectorSize_eq]
  have hvolume : bpbTotalSectorsBig = 7812500 := rfl
  rw [hsize] at hin
  have hsector := fat16ClusterToSector_exact hend hlow hc hc' (by omega) (by omega)
  obtain ⟨sector, hs⟩ : ∃ sector, priv.header.clusterSector c = sector := ⟨_, rfl⟩
  have hstart : fat16StartPos d priv c offset = i32 (i32 (sector * 512) + offset) := by
    rw [fat16StartPos, hsector, hs, d.sectorSize_eq, hsize, Int.tmod_eq_of_lt hoffset hin]
  rw [hs] at hlow hhigh ⊢
  constructor
  · rintro ⟨hpos, -⟩
    have hlt := i32_lt (i32 (sector * 512) + offset)
    rw [hstart, hs] at hpos
    omega
  · intro hlt
    have hexact : fat16StartPos d priv c offset = sector * 512 + offset := by
      rw [hstart, i32_of_bounds (x := sector * 512) (by omega) (by omega), i32_of_bounds (by omega) (by omega)]
    refine ⟨by rw [hexact, hs], ?_⟩
    rw [hexact, hs, Int.tdiv_eq_ediv_of_nonneg (by omega)]

end

/-- 起動のためのセクタの先頭の 62 バイト。 -/
def bootHeaderBytes : List Byte :=
  [0xEB, 0x3C, 0x90] ++ [0x45, 0x4E, 0x4B, 0x49, 0x20, 0x4F, 0x53, 0x20] ++ [0x00, 0x02] ++ [0x80] ++ [200, 0] ++ [0x02] ++
    [0x40, 0x00] ++ [0, 0] ++ [0xF8] ++ [0x00, 0x01] ++ [0x20, 0x00] ++ [0x40, 0x00] ++ [0, 0, 0, 0] ++
    [0x94, 0x35, 0x77, 0x00] ++ [0x80, 0x00, 0x29] ++ [0xEF, 0xBE, 0xAD, 0xDE] ++
    [0x45, 0x4E, 0x4B, 0x49, 0x20, 0x42, 0x4F, 0x4F, 0x54, 0x20, 0x20] ++ [0x46, 0x41, 0x54, 0x31, 0x36, 0x20, 0x20, 0x20]

/-- 起動のためのセクタの後ろが、すべて 0 であるディスク。 -/
def bootDisk : Disk := headedDisk bootHeaderBytes fun _ => 0

theorem bootDisk_resolved : ∃ v : Volume, v.disk = bootDisk :=
  headedDisk_blank_resolved rfl (by decide) (by decide) (by decide)

/-- 先頭のクラスタの最初のバイト。 -/
theorem positionExact_iff_boot : ∃ v : Volume, v.disk = bootDisk ∧ PositionExact v.disk v.priv 2 0 := by
  obtain ⟨v, hv⟩ := bootDisk_resolved
  have hheader : v.priv.header = FatHeader.ofBytes bootHeaderBytes := Volume.headed_header hv
  have hsize : fat16ClusterSize v.disk v.priv = 65536 := by
    rw [fat16ClusterSize, v.disk.sectorSize_eq, hheader]
    rfl
  have hsector : v.priv.header.clusterSector 2 = 716 := by
    rw [hheader]
    rfl
  refine ⟨v, hv, (positionExact_iff v.headerDataSector_eq ?_ (by decide) (by decide) (Nat.le_refl bpbTotalSectorsBig) ?_
    (Int.le_refl 0) ?_).2 ?_⟩
  · rw [hsector]
    decide
  · rw [hsector, hheader]
    decide
  · rw [hsize]
    decide
  · rw [hsector]
    decide

/-- 宣言されたボリュームの中のクラスタ `0x8000` は `2^31` バイトより後ろにあり、負の位置から読まれる。 -/
theorem positionExact_fails_boot : ∃ v : Volume, v.disk = bootDisk ∧ v.priv.header.clusterSector 0x8000 = 4194764 ∧
    4194764 + v.priv.header.sectPerCluster.toNat ≤ bpbTotalSectorsBig ∧
    fat16StartPos v.disk v.priv 0x8000 0 = -2147248128 ∧ ¬PositionExact v.disk v.priv 0x8000 0 := by
  obtain ⟨v, hv⟩ := bootDisk_resolved
  have hheader : v.priv.header = FatHeader.ofBytes bootHeaderBytes := Volume.headed_header hv
  have hsector : v.priv.header.clusterSector 0x8000 = 4194764 := by
    rw [hheader]
    rfl
  have hspc : v.priv.header.sectPerCluster.toNat = 128 := by
    rw [hheader]
    rfl
  have hstart : fat16StartPos v.disk v.priv 0x8000 0 = -2147248128 := by
    have hcode := fat16ClusterToSector_exact v.headerDataSector_eq (by rw [hsector]; decide) (by decide) (by decide)
      (by rw [hspc]; decide) (by rw [hsector]; decide)
    rw [fat16StartPos, hcode, hsector, v.disk.sectorSize_eq, Int.zero_tmod]
    decide
  refine ⟨v, hv, hsector, by rw [hspc]; decide, hstart, ?_⟩
  rintro ⟨hpos, -⟩
  rw [hstart, hsector] at hpos
  exact absurd hpos (by decide)

/-! ## データ領域の先頭 -/

/-- FAT16 の配置での、データ領域の先頭のセクタ。ルートディレクトリのセクタの数は切り上げる。 -/
def FatHeader.dataStart (header : FatHeader) : Nat :=
  header.reservedSectors.toNat + header.numberOfFat.toNat * header.sectorsPerFat.toNat +
    (header.rootEntries.toNat * 32 + 511) / 512

/-- データ領域がルートディレクトリのすぐ後ろから始まり、どのクラスタも配置どおりのセクタにある。 -/
structure DataRegionRight (priv : FatPrivate) : Prop where
  sectorEnd : priv.root.sectorEnd = priv.header.dataStart
  cluster : ∀ c : Nat, 2 ≤ c → c < 2 ^ 16 →
    fat16ClusterToSector priv c = ((priv.header.dataStart + (c - 2) * priv.header.sectPerCluster.toNat : Nat) : Int)

theorem Volume.dataSector_eq_dataStart_iff (v : Volume) : v.dataSector = v.priv.header.dataStart ↔ v.rootEntries % 16 = 0 := by
  rw [v.dataSector_eq, rootSector, FatHeader.dataStart, rootEntries]
  omega

/-- 配置が正しいのは、ルートディレクトリの項目がセクタをちょうど埋めるとき、そのときに限る。 -/
theorem dataRegionRight_iff (v : Volume) : DataRegionRight v.priv ↔ v.rootEntries % 16 = 0 := by
  rw [← v.dataSector_eq_dataStart_iff]
  constructor
  · rintro ⟨hend, -⟩
    rw [v.sectorEnd_eq] at hend
    exact Int.ofNat.inj hend
  · intro heq
    refine ⟨by rw [v.sectorEnd_eq, heq], ?_⟩
    intro c hc hlt
    rw [v.fat16ClusterToSector_eq hc hlt, heq]
    rfl

/-- ルートディレクトリの項目が一つだけの、`smallHeaderBytes` と同じ配置のヘッダ。 -/
def unevenHeaderBytes : List Byte :=
  List.replicate 13 0 ++ [1, 1, 0, 1, 1, 0] ++ List.replicate 3 0 ++ [1] ++ List.replicate 15 0 ++ [0x29] ++
    List.replicate 23 0

/-- 項目が一つのルートディレクトリはセクタ 2 にあるが、データ領域もセクタ 2 から始まるとされる。 -/
theorem dataRegionRight_fails_uneven : ∃ v : Volume, v.disk = headedDisk unevenHeaderBytes (fun _ => 0) ∧
    v.priv.root.sectorEnd = 2 ∧ v.priv.header.dataStart = 3 ∧ ¬DataRegionRight v.priv := by
  obtain ⟨v, hv⟩ : ∃ v : Volume, v.disk = headedDisk unevenHeaderBytes (fun _ => 0) :=
    headedDisk_blank_resolved rfl (by decide) (by decide) (by decide)
  have hheader : v.priv.header = FatHeader.ofBytes unevenHeaderBytes := Volume.headed_header hv
  have hend : v.priv.root.sectorEnd = 2 := by
    rw [v.headerDataSector_eq, hheader]
    rfl
  have hstart : v.priv.header.dataStart = 3 := by
    rw [hheader]
    rfl
  refine ⟨v, hv, hend, hstart, ?_⟩
  rintro ⟨hsame, -⟩
  rw [hend, hstart] at hsame
  exact absurd hsame (by decide)

end EnkiOs
