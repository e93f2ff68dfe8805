import EnkiOs.Fat.LookupTheorems

/-!
# ルートディレクトリの項目の数についての結果

`fat16_get_dir_items` は、0 で始まる項目に出会うまで読む。領域の大きさは知らないので、領域を越えて数えることがある。
-/

namespace EnkiOs
open Machine

/-! ## 項目の列 -/

/-- 位置 `start` から 32 バイトずつ読んだ、`j` 番目の先頭のバイト。位置は `int` の中で折り返す。 -/
def Disk.dirByte (d : Disk) (start : Int) (j : Nat) : Byte :=
  byteAt (diskStreamRead d (i32 (start + (32 * j : Nat))) FAT_DIR_ITEM_SIZE).bytes 0

/-- `a` 番目から `n` 個のうち、消されていないものの数。 -/
def Disk.dirLive (d : Disk) (start : Int) (a n : Nat) : Nat :=
  (List.range n).countP fun k => d.dirByte start (a + k) ≠ 0xE5

/-- `a` 番目から `n` 個のうち、消されたものの数。 -/
def Disk.dirDeleted (d : Disk) (start : Int) (a n : Nat) : Nat :=
  (List.range n).countP fun k => d.dirByte start (a + k) = 0xE5

section

variable (d : Disk) (start : Int)

theorem Disk.dirLive_add_dirDeleted (a n : Nat) : d.dirLive start a n + d.dirDeleted start a n = n := by
  have h := List.length_eq_countP_add_countP (fun k => decide (d.dirByte start (a + k) ≠ 0xE5)) (l := List.range n)
  simp only [List.length_range, ne_eq, decide_not, Bool.not_eq_true, Bool.not_eq_false', Bool.decide_eq_true] at h
  simpa [dirLive, dirDeleted] using h.symm

theorem Disk.dirLive_append (a m n : Nat) : d.dirLive start a (m + n) = d.dirLive start a m + d.dirLive start (a + m) n := by
  simp only [dirLive, List.range_add, List.countP_append, List.countP_map, Function.comp_def, Nat.add_assoc]

theorem Disk.dirLive_le (a n : Nat) : d.dirLive start a n ≤ n := by
  have := d.dirLive_add_dirDeleted start a n
  omega

/-- 一つの項目の読み取り。 -/
theorem fat16GetDirItemsLoop_dirByte (fuel j : Nat) (i : Int) :
    fat16GetDirItemsLoop d (fuel + 1) (i32 (start + (32 * j : Nat))) i =
      if d.dirByte start j = 0x00 then .ok i
      else fat16GetDirItemsLoop d fuel (i32 (start + (32 * (j + 1) : Nat))) (i + d.dirLive start j 1) := by
  obtain ⟨hresult, -, hpos⟩ :=
    diskStreamRead_short d (show FAT_DIR_ITEM_SIZE ≤ 2 ^ 22 by decide) (i32 (start + (32 * j : Nat)))
  have hnext : i32 (i32 (start + (32 * j : Nat)) + FAT_DIR_ITEM_SIZE) = i32 (start + (32 * (j + 1) : Nat)) := by
    have hsize : (FAT_DIR_ITEM_SIZE : Int) = 32 := rfl
    rw [i32, i32, Int.bmod_add_bmod, i32, hsize]
    congr 1
    omega
  have hlive : d.dirLive start j 1 = if d.dirByte start j = 0xE5 then 0 else 1 := by
    simp only [Disk.dirLive, List.range_one, List.countP_singleton, Nat.add_zero, decide_eq_true_eq, ne_eq, ite_not]
  rw [hnext] at hpos
  simp only [fat16GetDirItemsLoop, hresult, hpos, ne_eq, not_true_eq_false, if_false, hlive]
  by_cases hzero : d.dirByte start j = 0x00
  · rw [Disk.dirByte] at hzero
    simp only [Disk.dirByte, hzero, if_true]
  · by_cases hdeleted : d.dirByte start j = 0xE5
    · rw [if_neg hzero, if_pos hdeleted]
      rw [Disk.dirByte] at hdeleted
      rw [hdeleted, if_neg (by decide), if_pos rfl, Int.natCast_zero, Int.add_zero]
    · rw [if_neg hzero, if_neg hdeleted]
      rw [Disk.dirByte] at hzero hdeleted
      simp only [hzero, hdeleted, if_false, Int.natCast_one]

/-- 数え終わったなら、0 で始まる最初の項目があり、その手前の、消されていない項目の数が返る。 -/
theorem fat16GetDirItemsLoop_ok {fuel j : Nat} {i total : Int}
    (h : fat16GetDirItemsLoop d fuel (i32 (start + (32 * j : Nat))) i = .ok total) :
    ∃ n, (∀ k < n, d.dirByte start (j + k) ≠ 0) ∧ d.dirByte start (j + n) = 0 ∧ total = i + d.dirLive start j n := by
  induction fuel generalizing j i with
  | zero => cases h
  | succ fuel ih =>
      rw [fat16GetDirItemsLoop_dirByte] at h
      split at h
      · rename_i hzero
        cases h
        exact ⟨0, fun k hk => absurd hk (Nat.not_lt_zero k), hzero, (Int.add_zero _).symm⟩
      · rename_i hne
        obtain ⟨n, hlive, hend, htotal⟩ := ih h
        refine ⟨1 + n, ?_, ?_, ?_⟩
        · intro k hk
          cases k with
          | zero => exact hne
          | succ k =>
              rw [Nat.add_comm k 1, ← Nat.add_assoc]
              exact hlive k (by omega)
        · rwa [← Nat.add_assoc]
        · rw [htotal, d.dirLive_append, Int.natCast_add, Int.add_assoc]

end

/-! ## ルートディレクトリ -/

namespace Volume

variable (v : Volume)

/-- ルートディレクトリを読み始める位置。 -/
def rootStart : Int := (BitVec.ofInt 32 v.rootSector * BitVec.ofInt 32 v.disk.sectorSize).toInt

/-- ルートディレクトリの `j` 番目の項目の先頭のバイト。領域を越えた番号では、その後ろのディスクの内容である。 -/
def rootByte (j : Nat) : Byte := v.disk.dirByte v.rootStart j

theorem root_first_zero : ∃ t, (∀ k < t, v.rootByte k ≠ 0) ∧ v.rootByte t = 0 ∧
    v.priv.root.total = v.disk.dirLive v.rootStart 0 t := by
  have h := v.root_spec.1
  simp only [fat16GetDirItems, diskStreamSeek, ne_eq, not_true_eq_false, if_false] at h
  have hstart : v.rootStart = i32 (v.rootStart + (32 * 0 : Nat)) := by
    have hlow : -2 ^ 31 ≤ v.rootStart := BitVec.le_toInt _
    have hhigh : v.rootStart < 2 ^ 31 := BitVec.toInt_lt
    rw [Nat.mul_zero, Int.natCast_zero, Int.add_zero, i32_of_bounds hlow hhigh]
  rw [← rootStart, hstart] at h
  obtain ⟨t, hlive, hend, htotal⟩ := fat16GetDirItemsLoop_ok v.disk v.rootStart h
  simp only [Nat.zero_add, Int.zero_add] at hlive hend htotal
  exact ⟨t, hlive, hend, htotal⟩

theorem length_root_bytes : v.priv.root.bytes.length = v.rootEntries * 32 := by
  have hentries : v.rootEntries < 2 ^ 16 := BitVec.isLt _
  rw [v.root_spec.2.1]
  exact (diskStreamRead_short v.disk (by omega) _).2.1

end Volume

theorem FatDir.item?_ne_none_iff {dir : FatDir} {i : Nat} : dir.item? i ≠ none ↔ 32 * i + 32 ≤ dir.bytes.length := by
  simp only [FatDir.item?, FAT_DIR_ITEM_SIZE]
  split
  · rename_i h
    rw [List.length_take, List.length_drop] at h
    exact iff_of_true (by simp) (by omega)
  · rename_i h
    rw [List.length_take, List.length_drop] at h
    exact iff_of_false (by simp) (by omega)

/-- 項目の数が領域に収まり、探索の使うどの番号も、読み込んだ配列の中にある。 -/
structure RootFits (v : Volume) : Prop where
  nonneg : 0 ≤ v.priv.root.total
  le : v.priv.root.total ≤ v.rootEntries
  inside : ∀ i < v.priv.root.total.toNat, v.priv.root.item? i ≠ none

/-- 領域の中に 0 で始まる項目があるか、領域の後ろの、0 で始まる最初の項目までの消されていない項目が、領域の中の消された
項目より多くない。 -/
def RootCloses (v : Volume) : Prop :=
  (∃ j < v.rootEntries, v.rootByte j = 0) ∨
    ∃ n, (∀ k < n, v.rootByte (v.rootEntries + k) ≠ 0) ∧ v.rootByte (v.rootEntries + n) = 0 ∧
      v.disk.dirLive v.rootStart v.rootEntries n ≤ v.disk.dirDeleted v.rootStart 0 v.rootEntries

/-- 項目の数が領域に収まるための、ディスクの内容の条件。 -/
theorem rootFits_iff (v : Volume) : RootFits v ↔ RootCloses v := by
  obtain ⟨t, hlive, hend, htotal⟩ := v.root_first_zero
  have hregion := v.disk.dirLive_add_dirDeleted v.rootStart 0 v.rootEntries
  constructor
  · rintro ⟨-, hle, -⟩
    rcases Nat.lt_or_ge t v.rootEntries with hlt | hge
    · exact .inl ⟨t, hlt, hend⟩
    · obtain ⟨n, rfl⟩ := Nat.exists_eq_add_of_le hge
      rw [htotal, v.disk.dirLive_append, Nat.zero_add] at hle
      exact .inr ⟨n, fun k hk => hlive _ (by omega), hend, by omega⟩
  · intro hcloses
    have hle : v.disk.dirLive v.rootStart 0 t ≤ v.rootEntries := by
      rcases Nat.lt_or_ge t v.rootEntries with hlt | hge
      · exact Nat.le_trans (v.disk.dirLive_le v.rootStart 0 t) (Nat.le_of_lt hlt)
      · obtain ⟨m, rfl⟩ := Nat.exists_eq_add_of_le hge
        rcases hcloses with ⟨j, hj, hzero⟩ | ⟨n, hno, hzero, hcount⟩
        · exact absurd hzero (hlive j (by omega))
        · -- 0 で始まる最初の項目はただ一つである。
          obtain rfl : m = n := by
            rcases Nat.lt_trichotomy m n with h | h | h
            · exact absurd hend (hno m h)
            · exact h
            · exact absurd hzero (hlive _ (by omega))
          rw [v.disk.dirLive_append, Nat.zero_add]
          omega
    refine ⟨by omega, by omega, ?_⟩
    intro i hi
    rw [FatDir.item?_ne_none_iff, v.length_root_bytes]
    omega

/-- 16 個の項目で埋まったルートディレクトリのすぐ後ろに、0 でないバイトの続くディスク。 -/
def fullDisk : Disk := smallDisk fun p => if 1024 ≤ p ∧ p < 1568 then 0x41 else 0

/-- 領域の後ろも一つの項目と数え、配列の外の 16 番目を使う。 -/
theorem rootFits_fails_full : ∃ v : Volume, v.disk = fullDisk ∧ v.rootEntries = 16 ∧ v.priv.root.total = 17 ∧
    v.priv.root.item? 16 = none ∧ ¬RootFits v := by
  have hroot : RootTerminated fullDisk smallHeader 17 := by
    have hlow : 62 ≤ (FatHeader.ofBytes smallHeaderBytes).rootSector * 512 := by decide
    exact headedDisk_root hlow (by decide) (by decide) (by decide) (by decide)
  obtain ⟨v, hv⟩ : ∃ v : Volume, v.disk = fullDisk := smallDisk_resolved hroot
  have hentries : v.rootEntries = 16 := small_rootEntries hv
  have htotal : v.priv.root.total = 17 := by
    rw [Volume.root_total (small_rootTerminated hv hroot)]
    refine congrArg Int.ofNat (liveCount_of_noDeleted (v := v) (t := 17) fun j hj => ?_)
    rw [v.rootItem_first, Volume.rootSector, Volume.small_header hv, hv, fullDisk]
    show (smallDisk _).byte (1024 + 32 * j) ≠ 0xE5
    rw [smallDisk_byte (by omega) (by omega), if_pos (by omega)]
    decide
  refine ⟨v, hv, hentries, htotal, ?_, ?_⟩
  · by_contra hne
    rw [← ne_eq, FatDir.item?_ne_none_iff, v.length_root_bytes, hentries] at hne
    omega
  · rintro ⟨-, hle, -⟩
    rw [htotal, hentries] at hle
    exact absurd hle (by decide)

end EnkiOs
