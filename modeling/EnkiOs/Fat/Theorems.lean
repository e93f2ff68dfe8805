import EnkiOs.Fat.Lemmas.Chain
import EnkiOs.Fat.Lemmas.Directory
import EnkiOs.Fat.Lemmas.Read

/-!
# FAT16 についての結果

認識されたボリュームの上で、鎖のたどり方とファイルの読み取りを述べる。
-/

namespace EnkiOs
open Machine

/-! ## ヘッダを持つディスク -/

/-- 先頭の 62 バイトが `header` で、その後ろの内容が `content` であるディスク。 -/
def headedDisk (header : List Byte) (content : Nat → Byte) : Disk :=
  Disk.ofBytes fun p => if p < FAT_HEADER_SIZE then byteAt header p else content p

section

variable {header : List Byte} {content : Nat → Byte}

theorem headedDisk_byte {p : Nat} (hp : 62 ≤ p) (hlt : p ≤ 2 ^ 31) : (headedDisk header content).byte p = content p := by
  rw [headedDisk, Disk.byte_ofBytes hlt, if_neg (Nat.not_lt.2 hp)]

theorem headedDisk_headerByte (header : List Byte) (content : Nat → Byte) {i : Nat} (hi : i < FAT_HEADER_SIZE) :
    byteAt ((headedDisk header content).bytes 0 FAT_HEADER_SIZE) i = byteAt header i := by
  have hle : i ≤ 2 ^ 31 := Nat.le_of_lt (Nat.lt_trans hi (by decide))
  rw [Disk.bytes, byteAt_map_range _ hi, Nat.zero_add, headedDisk, Disk.byte_ofBytes hle, if_pos hi]

theorem headedDisk_header (header : List Byte) (content : Nat → Byte) :
    FatHeader.ofBytes ((headedDisk header content).bytes 0 FAT_HEADER_SIZE) = FatHeader.ofBytes header := by
  simp only [FatHeader.ofBytes, halfAt]
  repeat rw [headedDisk_headerByte header content (by decide)]

theorem headedDisk_root {t : Nat} (hheader : 62 ≤ (FatHeader.ofBytes header).rootSector * 512)
    (hlive : ∀ j < t, content ((FatHeader.ofBytes header).rootSector * 512 + 32 * j) ≠ 0)
    (hend : content ((FatHeader.ofBytes header).rootSector * 512 + 32 * t) = 0)
    (hbound : (FatHeader.ofBytes header).rootSector * 512 + 32 * (t + 1) ≤ 2 ^ 31)
    (hsize : (FatHeader.ofBytes header).rootSector * 512 + (FatHeader.ofBytes header).rootEntries.toNat * 32 ≤ 2 ^ 31) :
    RootTerminated (headedDisk header content) (FatHeader.ofBytes header) t := by
  have hbyte : ∀ j ≤ t, (headedDisk header content).byte ((FatHeader.ofBytes header).rootSector * 512 + 32 * j) =
      content ((FatHeader.ofBytes header).rootSector * 512 + 32 * j) := by
    intro j hj
    have hlow : 62 ≤ (FatHeader.ofBytes header).rootSector * 512 + 32 * j := Nat.le_add_right_of_le hheader
    have hhigh : (FatHeader.ofBytes header).rootSector * 512 + 32 * j ≤ 2 ^ 31 :=
      Nat.le_trans (Nat.add_le_add_left (Nat.mul_le_mul_left 32 (Nat.le_succ_of_le hj)) _) hbound
    exact headedDisk_byte hlow hhigh
  refine ⟨?_, ?_, hbound, hsize⟩
  · intro j hj
    rw [hbyte j (Nat.le_of_lt hj)]
    exact hlive j hj
  · rw [hbyte t (Nat.le_refl t)]
    exact hend

/-- 署名が正しく、ルートディレクトリに終わりがあれば、受け入れられる。 -/
theorem headedDisk_resolved {t : Nat} (hsig : (FatHeader.ofBytes header).extBootSignature = ENKI_FAT16_SIGNATURE)
    (hentries : 0 < (FatHeader.ofBytes header).rootEntries.toNat)
    (hroot : RootTerminated (headedDisk header content) (FatHeader.ofBytes header) t) :
    ∃ v : Volume, v.disk = headedDisk header content := by
  obtain ⟨priv, heap', _, h, _⟩ := fat16Resolve_accepts (Packed.create ⟨fun _ => 0, 0⟩) (by decide)
    (headedDisk_header header content) hsig hentries hroot
  exact ⟨⟨headedDisk header content, priv, _, _, h⟩, rfl⟩

/-- ヘッダの後ろがすべて 0 のディスクは、ルートディレクトリが空なので、受け入れられる。 -/
theorem headedDisk_blank_resolved (hsig : (FatHeader.ofBytes header).extBootSignature = ENKI_FAT16_SIGNATURE)
    (hentries : 0 < (FatHeader.ofBytes header).rootEntries.toNat)
    (hheader : 62 ≤ (FatHeader.ofBytes header).rootSector * 512)
    (hsize : (FatHeader.ofBytes header).rootSector * 512 + (FatHeader.ofBytes header).rootEntries.toNat * 32 ≤ 2 ^ 31) :
    ∃ v : Volume, v.disk = headedDisk header fun _ => 0 := by
  have hbound : (FatHeader.ofBytes header).rootSector * 512 + 32 * (0 + 1) ≤ 2 ^ 31 := by
    have hone : 1 * 32 ≤ (FatHeader.ofBytes header).rootEntries.toNat * 32 := Nat.mul_le_mul_right 32 hentries
    exact Nat.le_trans (Nat.add_le_add_left hone _) hsize
  refine headedDisk_resolved hsig hentries (headedDisk_root hheader ?_ rfl hbound hsize)
  intro j hj
  exact absurd hj (Nat.not_lt_zero j)

theorem Volume.headed_header {v : Volume} (hv : v.disk = headedDisk header content) :
    v.priv.header = FatHeader.ofBytes header := by
  rw [v.header_eq, hv, headedDisk_header]

end

/-! ## 小さなボリューム -/

/-- セクタ 0 がブートセクタ、1 が FAT、2 がルートディレクトリ、3 から先がデータである、512 バイトのクラスタのボリューム。 -/
def smallHeader : FatHeader where
  sectPerCluster := 1
  reservedSectors := 1
  numberOfFat := 1
  rootEntries := 16
  sectorsPerFat := 1
  extBootSignature := 0x29

/-- ブートセクタの先頭の 62 バイト。 -/
def smallHeaderBytes : List Byte :=
  List.replicate 13 0 ++ [1, 1, 0, 1, 16, 0] ++ List.replicate 3 0 ++ [1] ++ List.replicate 15 0 ++ [0x29] ++
    List.replicate 23 0

/-- ヘッダの後ろの内容が `content` であるディスク。 -/
def smallDisk (content : Nat → Byte) : Disk :=
  Disk.ofBytes fun p => if p < FAT_HEADER_SIZE then byteAt smallHeaderBytes p else content p

theorem smallDisk_byte {content : Nat → Byte} {p : Nat} (hp : 62 ≤ p) (hlt : p ≤ 2 ^ 31) :
    (smallDisk content).byte p = content p :=
  headedDisk_byte hp hlt

theorem smallDisk_header (content : Nat → Byte) :
    FatHeader.ofBytes ((smallDisk content).bytes 0 FAT_HEADER_SIZE) = smallHeader :=
  headedDisk_header smallHeaderBytes content

theorem smallDisk_root {content : Nat → Byte} {t : Nat} (ht : t ≤ 16)
    (hlive : ∀ j < t, content (1024 + 32 * j) ≠ 0) (hend : content (1024 + 32 * t) = 0) :
    RootTerminated (smallDisk content) smallHeader t := by
  have hs : (FatHeader.ofBytes smallHeaderBytes).rootSector * 512 = 1024 := rfl
  have hlow : 62 ≤ (FatHeader.ofBytes smallHeaderBytes).rootSector * 512 := by decide
  refine headedDisk_root hlow ?_ ?_ ?_ (by decide)
  · rwa [hs]
  · rwa [hs]
  · rw [hs]
    omega

/-- ルートディレクトリに終わりがあれば、受け入れられる。 -/
theorem smallDisk_resolved {content : Nat → Byte} {t : Nat} (hroot : RootTerminated (smallDisk content) smallHeader t) :
    ∃ v : Volume, v.disk = smallDisk content := by
  have hsig : (FatHeader.ofBytes smallHeaderBytes).extBootSignature = ENKI_FAT16_SIGNATURE := rfl
  exact headedDisk_resolved hsig (by decide) hroot

namespace Volume

variable {v : Volume} {content : Nat → Byte} (hv : v.disk = smallDisk content)
include hv

theorem small_header : v.priv.header = smallHeader := by
  rw [v.header_eq, hv, smallDisk_header]

theorem small_sectPerCluster : v.sectPerCluster = 1 := by
  rw [sectPerCluster, small_header hv]
  rfl

theorem small_clusterSize : v.clusterSize = 512 := by
  rw [clusterSize, small_sectPerCluster hv]

theorem small_clusterPos (c : Nat) : v.clusterPos c = (3 + (c - 2)) * 512 := by
  have hroot : v.dataSector = 3 := by
    rw [dataSector_eq, rootSector, rootEntries, small_header hv]
    rfl
  rw [clusterPos, hroot, small_sectPerCluster hv, Nat.mul_one]

theorem small_fatEntry {c : Nat} (hc : c < 256) :
    v.fatEntry c = (content (512 + 2 * c + 1) ++ content (512 + 2 * c)).toNat := by
  have hstart : v.fatStart = 512 := by
    rw [fatStart, small_header hv]
    rfl
  have hbyte : ∀ i < 2, byteAt (v.disk.bytes (512 + 2 * c) 2) i = content (512 + 2 * c + i) := by
    intro i hi
    rw [Disk.bytes, byteAt_map_range _ hi, hv, smallDisk_byte (by omega) (by omega)]
  rw [fatEntry, hstart, halfAt, hbyte 0 (by decide), hbyte 1 (by decide)]
  rfl

end Volume

/-! ## 鎖をたどる -/

/-- FAT16 で次のクラスタを指す項目の値。 -/
def IsDataLink (entry : Nat) : Prop := 0x0002 ≤ entry ∧ entry ≤ 0xFFEF

instance (entry : Nat) : Decidable (IsDataLink entry) := inferInstanceAs (Decidable (_ ∧ _))

/-- `start` から `k` クラスタ先の位置について、FAT16 の規則どおりの結果が返る。 -/
structure FollowsChain (v : Volume) (start k : Nat) : Prop where
  data : (∀ i < k, IsDataLink (v.cluster start (i + 1))) →
    fat16GetClusterOffset v.disk v.priv start ((k * v.clusterSize : Nat) : Int) = .ok (v.cluster start k : Int)
  error : (∃ i < k, ¬IsDataLink (v.cluster start (i + 1))) →
    ∃ code < 0, fat16GetClusterOffset v.disk v.priv start ((k * v.clusterSize : Nat) : Int) = .ok code

section

variable {v : Volume} {start k : Nat}

/-- クラスタの大きさが 0 なら、割り算で止まり、値を返さない。 -/
theorem not_followsChain_of_zero (hspc : v.sectPerCluster = 0) : ¬FollowsChain v start k := by
  intro h
  have hnone : ∀ result, fat16GetClusterOffset v.disk v.priv start ((k * v.clusterSize : Nat) : Int) ≠ .ok result := by
    intro result heq
    rw [v.fat16GetClusterOffset_of_zero hspc] at heq
    cases heq
  by_cases hd : ∀ i < k, IsDataLink (v.cluster start (i + 1))
  · exact hnone _ (h.data hd)
  · simp only [not_forall] at hd
    obtain ⟨i, hi, hne⟩ := hd
    obtain ⟨_, _, heq⟩ := h.error ⟨i, hi, hne⟩
    exact hnone _ heq

/-- どれもつながりなら、たどる間に止まらない。 -/
theorem FollowsChain.noStop (h : FollowsChain v start k) (hspc : v.sectPerCluster ≠ 0) (hs : start < 2 ^ 16)
    (hd : ∀ i < k, IsDataLink (v.cluster start (i + 1))) :
    ∀ i < v.ahead (k * v.clusterSize), fat16IsStop (v.cluster start (i + 1)) = false := by
  intro i hi
  by_contra hst
  have heq := (h.data hd).symm.trans (v.fat16GetClusterOffset_ahead_stop hspc hs ⟨i, hi, by simpa using hst⟩)
  simp only [Except.ok.injEq, EIO] at heq
  omega

/-- 止まる値に出会うのは、つながりでない値があるときである。 -/
theorem FollowsChain.stop_iff (h : FollowsChain v start k) (hspc : v.sectPerCluster ≠ 0) (hs : start < 2 ^ 16) :
    (∃ i < v.ahead (k * v.clusterSize), fat16IsStop (v.cluster start (i + 1)) = true) ↔
      ∃ i < k, ¬IsDataLink (v.cluster start (i + 1)) := by
  constructor
  · rintro ⟨i, hi, hst⟩
    by_contra hall
    simp only [not_exists, not_and, not_not] at hall
    exact absurd hst (by rw [h.noStop hspc hs hall i hi]; decide)
  · intro hne
    by_contra hall
    simp only [not_exists, not_and, Bool.not_eq_true] at hall
    obtain ⟨code, hcode, heq⟩ := h.error hne
    have hok := heq.symm.trans (v.fat16GetClusterOffset_ahead_noStop hspc hs hall)
    simp only [Except.ok.injEq] at hok
    omega

theorem FollowsChain.same (h : FollowsChain v start k) (hspc : v.sectPerCluster ≠ 0) (hs : start < 2 ^ 16)
    (hd : ∀ i < k, IsDataLink (v.cluster start (i + 1))) : v.cluster start (v.ahead (k * v.clusterSize)) = v.cluster start k := by
  have heq := (v.fat16GetClusterOffset_ahead_noStop hspc hs (h.noStop hspc hs hd)).symm.trans (h.data hd)
  simp only [Except.ok.injEq] at heq
  omega

theorem followsChain_of_stops (hspc : v.sectPerCluster ≠ 0) (hs : start < 2 ^ 16)
    (hiff : (∃ i < v.ahead (k * v.clusterSize), fat16IsStop (v.cluster start (i + 1)) = true) ↔
      ∃ i < k, ¬IsDataLink (v.cluster start (i + 1)))
    (hsame : (∀ i < k, IsDataLink (v.cluster start (i + 1))) →
      v.cluster start (v.ahead (k * v.clusterSize)) = v.cluster start k) : FollowsChain v start k where
  data hd := by
    rw [← hsame hd]
    refine v.fat16GetClusterOffset_ahead_noStop hspc hs fun i hi => ?_
    by_contra hst
    obtain ⟨j, hj, hne⟩ := hiff.1 ⟨i, hi, by simpa using hst⟩
    exact hne (hd j hj)
  error hne := ⟨- EIO, by decide, v.fat16GetClusterOffset_ahead_stop hspc hs (hiff.2 hne)⟩

end

/-- 規則どおりになるのは、クラスタの大きさが 0 でなく、たどる `ahead` 個の項目に列挙された値があるのが、`k` 個の項目につながりで
ない値があるのと同じことで、どれもつながりなら、`ahead` 個先のクラスタが `k` 個先のクラスタであるときである。位置が `int` に
収まるなら、`ahead` は `k` である。 -/
theorem followsChain_iff (v : Volume) (start : BitVec 16) (k : Nat) :
    (FollowsChain v start.toNat k ↔ v.sectPerCluster ≠ 0 ∧
      ((∃ i < v.ahead (k * v.clusterSize), fat16IsStop (v.cluster start.toNat (i + 1)) = true) ↔
        ∃ i < k, ¬IsDataLink (v.cluster start.toNat (i + 1))) ∧
      ((∀ i < k, IsDataLink (v.cluster start.toNat (i + 1))) →
        v.cluster start.toNat (v.ahead (k * v.clusterSize)) = v.cluster start.toNat k)) ∧
    (v.sectPerCluster ≠ 0 → k * v.clusterSize < 2 ^ 31 → v.ahead (k * v.clusterSize) = k) := by
  have hs := start.isLt
  refine ⟨⟨fun h => ?_, fun h => followsChain_of_stops h.1 hs h.2.1 h.2.2⟩, fun hspc hlt => ?_⟩
  · have hspc : v.sectPerCluster ≠ 0 := fun h0 => not_followsChain_of_zero h0 h
    exact ⟨hspc, h.stop_iff hspc hs, h.same hspc hs⟩
  · rw [v.ahead_of_lt hlt, Nat.mul_div_cancel _ (v.clusterSize_pos hspc)]

/-- クラスタ 2 の項目だけが、鎖の終わりの `0xFFFF` であるディスク。 -/
def endMarkedDisk : Disk := smallDisk fun p => if p = 516 ∨ p = 517 then 0xFF else 0

/-- 鎖の終わりを越えても、エラーではなく `0xFFFF` がクラスタの番号として返る。 -/
theorem followsChain_fails_endMark : ∃ v : Volume, v.disk = endMarkedDisk ∧
    v.cluster 2 1 = 0xFFFF ∧ fat16GetClusterOffset v.disk v.priv 2 v.clusterSize = .ok 0xFFFF ∧
    ¬FollowsChain v 2 1 := by
  obtain ⟨v, hv⟩ : ∃ v : Volume, v.disk = endMarkedDisk :=
    smallDisk_resolved (smallDisk_root (Nat.zero_le 16) (by omega) rfl)
  have hentry : v.cluster 2 1 = 0xFFFF := v.small_fatEntry hv (by decide)
  have hsize := Volume.small_clusterSize hv
  have hspc : v.sectPerCluster ≠ 0 := by
    intro h0
    rw [Volume.clusterSize, h0] at hsize
    cases hsize
  have hread : fat16GetClusterOffset v.disk v.priv (2 : Nat) v.clusterSize = .ok 0xFFFF := by
    have hdiv : v.clusterSize / v.clusterSize = 1 := Nat.div_self (v.clusterSize_pos hspc)
    rw [v.fat16GetClusterOffset_of_noStop hspc (by omega) (by decide), hdiv, hentry]
    · rfl
    · intro i hi
      rw [hdiv] at hi
      obtain rfl : i = 0 := by omega
      rw [hentry]
      decide
  refine ⟨v, hv, hentry, hread, ?_⟩
  intro h
  obtain ⟨code, hcode, heq⟩ := h.error ⟨0, by decide, by rw [hentry]; decide⟩
  rw [Nat.one_mul] at heq
  have := heq.symm.trans hread
  simp only [Except.ok.injEq] at this
  omega

/-! ## ブロックに分けた読み取り -/

/-- `size` バイトの `blocks` 個のブロックとして読んでも、一度に読んでも、どちらも成功し、同じバイトが `out` に入る。 -/
def ReadsAgree (v : Volume) (desc : FatFileDescriptor) (size blocks out : Word) (mem : Memory) : Prop :=
  ∃ m₁ m₂,
    fat16Read v.disk v.priv desc size blocks out mem = .ok ((blocks.toNat : Int), m₁) ∧
    fat16Read v.disk v.priv desc (size * blocks) 1 out mem = .ok (1, m₂) ∧
    ∀ k < size.toNat * blocks.toNat, m₁ (out + BitVec.ofNat 32 k) = m₂ (out + BitVec.ofNat 32 k)

/-- 二つの読み方の一方だけが、クラスタの終わりを越えて位置 `pos + k` に届く。 -/
def CrossesOnce (v : Volume) (pos size k : Nat) : Prop :=
  ¬(v.Crosses pos k ↔ v.Crosses (pos + k / size * size) (k % size))

/-- 境界を越えるかどうかが同じなら、二つの読み方は同じ位置を読む。 -/
theorem blockPos_eq_of_not_crossesOnce {v : Volume} (hspc : v.sectPerCluster ≠ 0) {start pos size k : Nat}
    (h : ¬CrossesOnce v pos size k) : v.blockPos start pos size k = v.readPos start pos k := by
  have hsum : pos + k / size * size + k % size = pos + k := by
    rw [Nat.add_assoc, Nat.mul_comm, Nat.div_add_mod]
  have hiff := not_not.1 h
  rw [Volume.blockPos]
  by_cases hc : v.Crosses pos k
  · rw [Volume.readPos_of_crosses hspc hc, Volume.readPos_of_crosses hspc (hiff.1 hc), hsum]
  · rw [Volume.readPos_of_not_crosses hc, Volume.readPos_of_not_crosses (mt hiff.2 hc), hsum]

/-- 一方だけが境界を越えるなら、隣のクラスタと鎖の次のクラスタの、二つの位置を読む。 -/
theorem byte_eq_iff_of_crossesOnce {v : Volume} (hspc : v.sectPerCluster ≠ 0) {start pos size k : Nat}
    (h : CrossesOnce v pos size k) :
    v.disk.byte (v.blockPos start pos size k) = v.disk.byte (v.readPos start pos k) ↔
      v.disk.byte (v.adjacentPos start (pos + k)) = v.disk.byte (v.filePos start (pos + k)) := by
  have hsum : pos + k / size * size + k % size = pos + k := by
    rw [Nat.add_assoc, Nat.mul_comm, Nat.div_add_mod]
  rw [Volume.blockPos]
  by_cases hc : v.Crosses pos k
  · have hb : ¬v.Crosses (pos + k / size * size) (k % size) := fun hb => h ⟨fun _ => hb, fun _ => hc⟩
    rw [Volume.readPos_of_crosses hspc hc, Volume.readPos_of_not_crosses hb, hsum, eq_comm]
  · have hb : v.Crosses (pos + k / size * size) (k % size) := by
      by_contra hb
      exact h (iff_of_false hc hb)
    rw [Volume.readPos_of_not_crosses hc, Volume.readPos_of_crosses hspc hb, hsum]

section

variable {v : Volume} (hspc : v.sectPerCluster ≠ 0) {desc : FatFileDescriptor} {item : FatDirItem}
  (hitem : desc.item.dirItem = .ok item) {chain : List Nat}
  (hchain : v.IsChain (fat16GetFirstCluster item).toNat chain)
  (hplace : ∀ c ∈ chain, v.clusterPos c + 2 * v.clusterSize ≤ 2 ^ 31)
include hspc hitem hchain hplace

theorem fat16Read_blocks (size blocks out : Word) (mem : Memory) (hsize : 0 < size.toNat)
    (hlen : desc.pos.toNat + blocks.toNat * size.toNat ≤ chain.length * v.clusterSize) :
    fat16Read v.disk v.priv desc size blocks out mem = .ok ((blocks.toNat : Int), mem.write out
      ((List.range (blocks.toNat * size.toNat)).map fun k =>
        v.disk.byte (v.blockPos (fat16GetFirstCluster item).toNat desc.pos.toNat size.toNat k))) := by
  have hpos := v.clusterSize_pos hspc
  refine Volume.fat16Read_eq hspc hchain hitem hsize hlen ?_
  intro k hk
  -- 使うクラスタは鎖の中にあり、越えても隣のクラスタまでである。
  have hdiv : k / size.toNat * size.toNat + k % size.toNat = k := by rw [Nat.mul_comm, Nat.div_add_mod]
  have hidx : (desc.pos.toNat + k / size.toNat * size.toNat) / v.clusterSize + k % size.toNat / v.clusterSize <
      chain.length := by
    calc (desc.pos.toNat + k / size.toNat * size.toNat) / v.clusterSize + k % size.toNat / v.clusterSize
        ≤ (desc.pos.toNat + k / size.toNat * size.toNat + k % size.toNat) / v.clusterSize :=
          Nat.div_add_div_le_add_div
      _ < chain.length := by
          apply Nat.div_lt_of_lt_mul
          rw [Nat.mul_comm v.clusterSize]
          omega
  have hc := hplace _ (hchain.cluster_mem hidx)
  have h1 := Nat.mod_lt (desc.pos.toNat + k / size.toNat * size.toNat) hpos
  have h2 := Nat.mod_lt (k % size.toNat) hpos
  rw [Volume.blockPos, Volume.readPos]
  omega

/-- 一致するのは、`out` のどの番号でも、二つの読み方が読む位置のバイトが等しいときである。 -/
theorem readsAgree_iff_bytes (size blocks out : Word) (mem : Memory) (hsize : 0 < size.toNat)
    (hblocks : 0 < blocks.toNat)
    (hlen : desc.pos.toNat + size.toNat * blocks.toNat ≤ chain.length * v.clusterSize) :
    ReadsAgree v desc size blocks out mem ↔ ∀ k < size.toNat * blocks.toNat,
      v.disk.byte (v.blockPos (fat16GetFirstCluster item).toNat desc.pos.toNat size.toNat k) =
        v.disk.byte (v.readPos (fat16GetFirstCluster item).toNat desc.pos.toNat k) := by
  have hmul : size.toNat * blocks.toNat = blocks.toNat * size.toNat := Nat.mul_comm _ _
  have htotal := hchain.size_lt
  have hT : (size * blocks).toNat = size.toNat * blocks.toNat := by
    rw [BitVec.toNat_mul, Nat.mod_eq_of_lt (by omega)]
  have hTpos : 0 < size.toNat * blocks.toNat := Nat.mul_pos hsize hblocks
  have hone : (1 : Word).toNat = 1 := rfl
  have h₁ := fat16Read_blocks hspc hitem hchain hplace size blocks out mem hsize (by omega)
  have h₂ := fat16Read_blocks hspc hitem hchain hplace (size * blocks) 1 out mem (by omega)
    (by rw [hone, Nat.one_mul]; omega)
  rw [hone, hT, Nat.one_mul, hmul] at h₂
  have hbyte : ∀ (f : Nat → Nat), ∀ k < blocks.toNat * size.toNat,
      mem.write out ((List.range (blocks.toNat * size.toNat)).map fun k => v.disk.byte (f k))
        (out + BitVec.ofNat 32 k) = v.disk.byte (f k) := by
    intro f k hk
    rw [Memory.write_at _ _ (by simpa using hk) (by simp only [List.length_map, List.length_range]; omega),
      byteAt_map_range _ hk]
  rw [ReadsAgree, hmul]
  constructor
  · rintro ⟨m₁, m₂, hm₁, hm₂, heq⟩ k hk
    cases h₁.symm.trans hm₁
    cases h₂.symm.trans hm₂
    have hk' := heq k hk
    rwa [hbyte _ k hk, hbyte _ k hk, Volume.blockPos_of_lt hk] at hk'
  · intro hall
    refine ⟨_, _, h₁, h₂, ?_⟩
    intro k hk
    rw [hbyte _ k hk, hbyte _ k hk, Volume.blockPos_of_lt hk]
    exact hall k hk

/-- 二つの読み方が一致するのは、一方だけがクラスタの終わりを越えるどの位置でも、ディスクの上で隣にあるクラスタと
鎖の次のクラスタとが、同じバイトを持つときである。 -/
theorem readsAgree_iff (size blocks out : Word) (mem : Memory) (hsize : 0 < size.toNat) (hblocks : 0 < blocks.toNat)
    (hlen : item.fileSize.toNat ≤ chain.length * v.clusterSize)
    (hrange : desc.pos.toNat + size.toNat * blocks.toNat ≤ item.fileSize.toNat) :
    ReadsAgree v desc size blocks out mem ↔
      ∀ k < size.toNat * blocks.toNat, CrossesOnce v desc.pos.toNat size.toNat k →
        v.disk.byte (v.adjacentPos (fat16GetFirstCluster item).toNat (desc.pos.toNat + k)) =
          v.disk.byte (v.filePos (fat16GetFirstCluster item).toNat (desc.pos.toNat + k)) := by
  rw [readsAgree_iff_bytes hspc hitem hchain hplace size blocks out mem hsize hblocks (by omega)]
  constructor
  · intro h k hk hcross
    exact (byte_eq_iff_of_crossesOnce hspc hcross).1 (h k hk)
  · intro h k hk
    by_cases hcross : CrossesOnce v desc.pos.toNat size.toNat k
    · exact (byte_eq_iff_of_crossesOnce hspc hcross).2 (h k hk hcross)
    · rw [blockPos_eq_of_not_crossesOnce hspc hcross]

end

/-- クラスタ 2 から始まる、1024 バイトのファイル `A`。 -/
def fragmentedItem : FatDirItem where
  bytes := 0x41 :: List.replicate 11 0x20 ++ List.replicate 14 0 ++ [2, 0] ++ [0x00, 0x04, 0x00, 0x00]
  length_eq := rfl

/-- 鎖が 2 から 4 へ飛ぶディスク。クラスタ 4 からのバイトは `0x41` で、クラスタ 2 と 3 のバイトは 0 である。 -/
def fragmentedDisk : Disk := smallDisk fun p =>
  if p = 516 then 4 else if p = 520 ∨ p = 521 then 0xFF
  else if 1024 ≤ p ∧ p < 1056 then byteAt fragmentedItem.bytes (p - 1024)
  else if 2560 ≤ p then 0x41 else 0

def fragmentedDesc : FatFileDescriptor where
  item := ⟨0x01010000, .file (some (0x01011000, fragmentedItem))⟩
  pos := 0

theorem fragmented_root : RootTerminated fragmentedDisk smallHeader 1 :=
  smallDisk_root (by decide) (by decide) (by decide)

theorem fragmented_resolved : ∃ v : Volume, v.disk = fragmentedDisk := smallDisk_resolved fragmented_root

theorem fragmented_chain {v : Volume} (hv : v.disk = fragmentedDisk) :
    v.IsChain (fat16GetFirstCluster fragmentedItem).toNat [2, 4] where
  head := rfl
  next := by
    intro i c c' hi hi'
    match i with
    | 0 =>
        cases hi
        cases hi'
        exact Volume.small_fatEntry hv (by decide)
    | i + 1 => cases hi'
  range := by decide
  nodup := by decide

theorem fragmented_place {v : Volume} (hv : v.disk = fragmentedDisk) :
    ∀ c ∈ [2, 4], v.clusterPos c + 2 * v.clusterSize ≤ 2 ^ 31 := by
  rw [Volume.small_clusterSize hv]
  intro c hc
  rw [Volume.small_clusterPos hv]
  simp only [List.mem_cons, List.not_mem_nil, or_false] at hc
  omega

/-- クラスタの大きさのブロックに分けると、どちらの読み方も境界を越えない。 -/
theorem readsAgree_fragmented : ∃ v : Volume, v.disk = fragmentedDisk ∧
    ReadsAgree v fragmentedDesc 512 2 0x02000000 (fun _ => 0) := by
  obtain ⟨v, hv⟩ := fragmented_resolved
  have hspc : v.sectPerCluster ≠ 0 := by rw [Volume.small_sectPerCluster hv]; decide
  refine ⟨v, hv, ?_⟩
  refine (readsAgree_iff hspc rfl (fragmented_chain hv) (fragmented_place hv) 512 2 0x02000000 _ (by decide) (by decide)
    ?_ (by decide)).2 ?_
  · rw [Volume.small_clusterSize hv]
    decide
  · intro k _ hcross
    refine absurd ?_ hcross
    rw [Volume.Crosses, Volume.Crosses, Volume.small_clusterSize hv]
    show 512 ≤ 0 % 512 + k % 512 ↔ 512 ≤ (0 + k / 512 * 512) % 512 + k % 512 % 512
    omega

/-- 384 バイトのブロックに分けると、二つ目のブロックの途中で境界を越え、クラスタ 4 ではなく 3 を読む。 -/
theorem readsAgree_fails_fragmented : ∃ v : Volume, v.disk = fragmentedDisk ∧
    v.IsChain (fat16GetFirstCluster fragmentedItem).toNat [2, 4] ∧
    fragmentedItem.fileSize.toNat = 2 * v.clusterSize ∧
    ¬ReadsAgree v fragmentedDesc 384 2 0x02000000 (fun _ => 0) := by
  obtain ⟨v, hv⟩ := fragmented_resolved
  have hspc : v.sectPerCluster ≠ 0 := by rw [Volume.small_sectPerCluster hv]; decide
  have hsize := Volume.small_clusterSize hv
  refine ⟨v, hv, fragmented_chain hv, by rw [hsize]; decide, ?_⟩
  intro h
  have hbytes := (readsAgree_iff_bytes hspc rfl (fragmented_chain hv) (fragmented_place hv) 384 2 0x02000000 _ (by decide)
    (by decide) (by rw [hsize]; decide)).1 h 512 (by decide)
  have hnext : v.cluster 2 1 = 4 := Volume.small_fatEntry hv (by decide)
  have hblock : v.blockPos 2 0 384 512 = 2048 := by
    have hidx : (0 + 512 / 384 * 384) / 512 + 512 % 384 / 512 = 0 := rfl
    rw [Volume.blockPos, Volume.readPos, hsize, hidx, Volume.cluster_zero, Volume.small_clusterPos hv]
  have hsingle : v.readPos 2 0 512 = 2560 := by
    have hidx : 0 / 512 + 512 / 512 = 1 := rfl
    rw [Volume.readPos, hsize, hidx, hnext, Volume.small_clusterPos hv]
  have hgap : fragmentedDisk.byte 2048 ≠ fragmentedDisk.byte 2560 := by
    rw [fragmentedDisk, smallDisk_byte (by decide) (by decide), smallDisk_byte (by decide) (by decide)]
    decide
  apply hgap
  rw [← hv, ← hblock, ← hsingle]
  exact hbytes

end EnkiOs
