import EnkiOs.Fat.Lemmas.Chain
import Mathlib.Data.Nat.ModEq
import Mathlib.Data.List.Perm.Subperm

/-!
# クラスタを続けて読む

`fat16_read_internal_stream` は、クラスタの大きさごとに区切って読む。区切りは読み始めの位置から数えるので、
クラスタの途中から読み始めると、区切りの途中でクラスタの終わりを越える。越えた先は、鎖の次のクラスタではなく、
ディスクの上で隣にあるクラスタである。
-/

namespace EnkiOs.Volume
open Machine

variable (v : Volume)

/-- 位置 `offset` から読み始めたときの、`i` 番目のバイトのディスクの上での位置。 -/
def readPos (start offset i : Nat) : Nat :=
  v.clusterPos (v.cluster start (offset / v.clusterSize + i / v.clusterSize)) +
    offset % v.clusterSize + i % v.clusterSize

theorem readPos_add_clusterSize (hspc : v.sectPerCluster ≠ 0) (start offset i : Nat) :
    v.readPos start (offset + v.clusterSize) i = v.readPos start offset (i + v.clusterSize) := by
  have hpos := v.clusterSize_pos hspc
  simp only [readPos, Nat.add_div_right _ hpos, Nat.add_mod_right]
  congr 4
  omega

theorem readPos_of_lt {start offset i : Nat} (h : i < v.clusterSize) :
    v.readPos start offset i =
      v.clusterPos (v.cluster start (offset / v.clusterSize)) + offset % v.clusterSize + i := by
  rw [readPos, Nat.div_eq_of_lt h, Nat.mod_eq_of_lt h, Nat.add_zero]

/-- 位置 `offset` から `total` バイトを読むのに使うクラスタが、すべてたどれて、`2^31` バイトまでにある。 -/
structure Readable (start offset total : Nat) : Prop where
  start_lt : start < 2 ^ 16
  noStop : ∀ i < offset / v.clusterSize + (total - 1) / v.clusterSize,
    fat16IsStop (v.cluster start (i + 1)) = false
  place : ∀ i < total, 2 ≤ v.cluster start (offset / v.clusterSize + i / v.clusterSize) ∧
    v.readPos start offset i < 2 ^ 31

variable {v}

theorem Readable.rest (hspc : v.sectPerCluster ≠ 0) {start offset total : Nat} (h : v.Readable start offset total)
    (hlt : v.clusterSize < total) : v.Readable start (offset + v.clusterSize) (total - v.clusterSize) := by
  have hpos := v.clusterSize_pos hspc
  refine ⟨h.start_lt, ?_, ?_⟩
  · intro i hi
    apply h.noStop
    rw [Nat.add_div_right _ hpos] at hi
    have hsplit : (total - 1) / v.clusterSize = (total - v.clusterSize - 1) / v.clusterSize + 1 := by
      rw [← Nat.add_div_right _ hpos]
      congr 1
      omega
    omega
  · intro i hi
    have hplace := h.place (i + v.clusterSize) (by omega)
    rw [Nat.add_div_right _ hpos] at hplace
    rw [v.readPos_add_clusterSize hspc, Nat.add_div_right _ hpos,
      show offset / v.clusterSize + 1 + i / v.clusterSize = offset / v.clusterSize + (i / v.clusterSize + 1) by omega]
    exact hplace

/-- 一つの区切りは、ディスクの上で続いている。 -/
theorem Readable.chunk {start offset total n : Nat} (h : v.Readable start offset total) (hn : 0 < n)
    (hcs : n ≤ v.clusterSize) (hle : n ≤ total) :
    let p := v.clusterPos (v.cluster start (offset / v.clusterSize)) + offset % v.clusterSize
    p + n ≤ 2 ^ 31 ∧ v.disk.bytes p n = (List.range n).map fun i => v.disk.byte (v.readPos start offset i) := by
  refine ⟨?_, ?_⟩
  · have hlast := (h.place (n - 1) (by omega)).2
    rw [v.readPos_of_lt (by omega)] at hlast
    omega
  · apply List.map_congr_left
    intro i hi
    have := List.mem_range.1 hi
    rw [v.readPos_of_lt (by omega)]

theorem fat16ReadInternalStream_unfold (hspc : v.sectPerCluster ≠ 0) {start offset total : Nat}
    (h : v.Readable start offset total) (ht : 0 < total) (hbound : offset + total ≤ 2 ^ 31) (hlt : total < 2 ^ 31) :
    fat16ReadInternalStream v.disk v.priv start offset total =
      let bytes := (List.range (min v.clusterSize total)).map fun i => v.disk.byte (v.readPos start offset i)
      if v.clusterSize < total then do
        let rest ← fat16ReadInternalStream v.disk v.priv start ((offset + v.clusterSize : Nat) : Int)
          ((total - v.clusterSize : Nat) : Int)
        return ⟨rest.result, bytes ++ rest.bytes⟩
      else .ok ⟨0, bytes⟩ := by
  have hpos := v.clusterSize_pos hspc
  have hcs : v.clusterSize < 2 ^ 17 := by
    have := v.sectPerCluster_lt
    rw [clusterSize]
    omega
  have hget := v.fat16GetClusterOffset_of_noStop hspc (show offset < 2 ^ 31 by omega) h.start_lt fun i hi =>
    h.noStop i (Nat.lt_of_lt_of_le hi (Nat.le_add_right _ _))
  obtain ⟨hend, hbytes⟩ := h.chunk (n := min v.clusterSize total) (by omega) (by omega) (by omega)
  have hc := (h.place 0 ht).1
  rw [Nat.zero_div, Nat.add_zero] at hc
  have hmod : offset % v.clusterSize < v.clusterSize := Nat.mod_lt _ hpos
  -- 読み始めの位置の計算では、折り返しは起きない。
  have hsector : fat16ClusterToSector v.priv (v.cluster start (offset / v.clusterSize) : Nat) = _ :=
    v.fat16ClusterToSector_eq hc (v.cluster_lt h.start_lt _)
  have hstart : i32 (i32 (fat16ClusterToSector v.priv (v.cluster start (offset / v.clusterSize) : Nat) *
      v.disk.sectorSize) + Int.tmod offset v.clusterSize) =
      ((v.clusterPos (v.cluster start (offset / v.clusterSize)) + offset % v.clusterSize : Nat) : Int) := by
    have hpos' : ((v.dataSector + (v.cluster start (offset / v.clusterSize) - 2) * v.sectPerCluster : Nat) : Int) * 512 =
        (v.clusterPos (v.cluster start (offset / v.clusterSize)) : Nat) := rfl
    have hmod' : Int.tmod (offset : Int) v.clusterSize = ((offset % v.clusterSize : Nat) : Int) := rfl
    rw [hsector, v.disk.sectorSize_eq, hpos', hmod', i32_of_bounds (x := (v.clusterPos _ : Nat)) (by omega) (by omega),
      i32_of_bounds (by omega) (by omega), Int.natCast_add]
  have hread : fat16ToRead v.clusterSize total = ((min v.clusterSize total : Nat) : Int) := by
    rw [fat16ToRead]
    split <;> omega
  have hstream := diskStreamRead_spec v.disk hend (by omega) (by omega)
  rw [fat16ReadInternalStream]
  split
  · rename_i fault hf
    cases hf.symm.trans hget
  · rename_i target ht'
    obtain rfl : target = (v.cluster start (offset / v.clusterSize) : Nat) := by
      injection ht'.symm.trans hget
    have hnn : ¬((v.cluster start (offset / v.clusterSize) : Nat) : Int) < 0 := by omega
    simp only [v.fat16ClusterSize_eq, hstart, hread, diskStreamSeek, hstream, hnn, if_false, ne_eq, not_true_eq_false,
      hbytes]
    by_cases hlast : v.clusterSize < total
    · have hmin : min v.clusterSize total = v.clusterSize := by omega
      have hoff : i32 ((offset : Int) + v.clusterSize) = ((offset + v.clusterSize : Nat) : Int) := by
        rw [i32_of_bounds (by omega) (by omega), Int.natCast_add]
      have hsub : (total : Int) - v.clusterSize = ((total - v.clusterSize : Nat) : Int) := by omega
      rw [dif_pos (by omega), if_pos hlast, hmin, hoff, hsub]
    · rw [dif_neg (by omega), if_neg hlast]

/-- 読み取りは成功し、区切りごとの位置のバイトを順に返す。 -/
theorem fat16ReadInternalStream_eq (hspc : v.sectPerCluster ≠ 0) {start offset total : Nat}
    (h : v.Readable start offset total) (ht : 0 < total) (hbound : offset + total ≤ 2 ^ 31) (hlt : total < 2 ^ 31) :
    fat16ReadInternalStream v.disk v.priv start offset total =
      .ok ⟨0, (List.range total).map fun i => v.disk.byte (v.readPos start offset i)⟩ := by
  have hpos := v.clusterSize_pos hspc
  -- 残りの長さについての帰納法。残りは、クラスタ一つぶん先から読む。
  induction total using Nat.strongRecOn generalizing offset with
  | _ total ih =>
    rw [fat16ReadInternalStream_unfold hspc h ht hbound hlt]
    simp only
    by_cases hlast : v.clusterSize < total
    · have hsum : total = v.clusterSize + (total - v.clusterSize) := by omega
      have hmin : min v.clusterSize total = v.clusterSize := by omega
      rw [if_pos hlast, ih _ (by omega) (h.rest hspc hlast) (by omega) (by omega) (by omega), hmin]
      simp only [bind, Except.bind, pure, Except.pure]
      conv_rhs => rw [hsum, List.range_add, List.map_append, List.map_map]
      simp only [v.readPos_add_clusterSize hspc, Nat.add_comm v.clusterSize, Function.comp_def]
    · have hmin : min v.clusterSize total = total := by omega
      rw [if_neg hlast, hmin]

/-! ## クラスタの境界 -/

/-- 位置 `offset` から読み始めると、`i` 番目のバイトは、区切りの途中でクラスタの終わりを越えた先にある。 -/
def Crosses (v : Volume) (offset i : Nat) : Prop := v.clusterSize ≤ offset % v.clusterSize + i % v.clusterSize

/-- ファイルの位置 `p` のバイトの、鎖に沿った位置。 -/
def filePos (v : Volume) (start p : Nat) : Nat :=
  v.clusterPos (v.cluster start (p / v.clusterSize)) + p % v.clusterSize

/-- ファイルの位置 `p` の一つ前のクラスタの、ディスクの上で隣にあるクラスタの、同じ位置。 -/
def adjacentPos (v : Volume) (start p : Nat) : Nat :=
  v.clusterPos (v.cluster start (p / v.clusterSize - 1)) + v.clusterSize + p % v.clusterSize

theorem readPos_of_not_crosses {start offset i : Nat} (h : ¬v.Crosses offset i) :
    v.readPos start offset i = v.filePos start (offset + i) := by
  have hlt := Nat.not_le.1 h
  rw [readPos, filePos, Nat.add_div_eq_of_add_mod_lt hlt, Nat.add_mod_of_add_mod_lt hlt, Nat.add_assoc]

theorem readPos_of_crosses (hspc : v.sectPerCluster ≠ 0) {start offset i : Nat} (h : v.Crosses offset i) :
    v.readPos start offset i = v.adjacentPos start (offset + i) := by
  have hmod := Nat.add_mod_add_of_le_add_mod h
  rw [readPos, adjacentPos, Nat.add_div_eq_of_le_mod_add_mod h (v.clusterSize_pos hspc), Nat.add_sub_cancel]
  omega

/-! ## 鎖 -/

/-- `start` から始まる、異なるクラスタの鎖。番号は、FAT16 で使える範囲にある。 -/
structure ValidChain (v : Volume) (start : Nat) (chain : List Nat) : Prop where
  head : chain[0]? = some start
  next : ∀ i c c', chain[i]? = some c → chain[i + 1]? = some c' → v.fatEntry c = c'
  range : ∀ c ∈ chain, 2 ≤ c ∧ c ≤ 0xFFEF
  nodup : chain.Nodup

namespace ValidChain

variable {start : Nat} {chain : List Nat} (hc : ValidChain v start chain)
include hc

theorem get {i : Nat} (hi : i < chain.length) : chain[i]? = some (v.cluster start i) := by
  induction i with
  | zero => exact hc.head
  | succ i ih =>
      have hnext := hc.next i _ _ (ih (by omega)) (List.getElem?_eq_getElem hi)
      rw [cluster_succ', hnext, List.getElem?_eq_getElem hi]

theorem cluster_mem {i : Nat} (hi : i < chain.length) : v.cluster start i ∈ chain :=
  List.mem_of_getElem? (hc.get hi)

theorem start_lt : start < 2 ^ 16 := by
  have := hc.range start (List.mem_of_getElem? hc.head)
  omega

omit hc in
theorem index_lt (hspc : v.sectPerCluster ≠ 0) {offset total i : Nat} (hlen : offset + total ≤ chain.length * v.clusterSize)
    (hi : i < total) : offset / v.clusterSize + i / v.clusterSize < chain.length := by
  have hpos := v.clusterSize_pos hspc
  calc offset / v.clusterSize + i / v.clusterSize ≤ (offset + i) / v.clusterSize := Nat.div_add_div_le_add_div
    _ < chain.length := Nat.div_lt_of_lt_mul (by rw [Nat.mul_comm]; omega)

theorem readable (hspc : v.sectPerCluster ≠ 0) {offset total : Nat} (hlen : offset + total ≤ chain.length * v.clusterSize)
    (hnoStop : ∀ i < offset / v.clusterSize + (total - 1) / v.clusterSize, fat16IsStop (v.cluster start (i + 1)) = false)
    (hplace : ∀ i < total, v.readPos start offset i < 2 ^ 31) : v.Readable start offset total where
  start_lt := hc.start_lt
  noStop := hnoStop
  place i hi := ⟨(hc.range _ (hc.cluster_mem (index_lt hspc hlen hi))).1, hplace i hi⟩

end ValidChain

/-- `start` から始まる、異なるクラスタの鎖。番号は手続きが列挙する値より小さい。 -/
structure IsChain (v : Volume) (start : Nat) (chain : List Nat) : Prop where
  head : chain[0]? = some start
  next : ∀ i c c', chain[i]? = some c → chain[i + 1]? = some c' → v.fatEntry c = c'
  range : ∀ c ∈ chain, 2 ≤ c ∧ c ≤ 0xFEF
  nodup : chain.Nodup

namespace IsChain

variable {start : Nat} {chain : List Nat} (hc : IsChain v start chain)
include hc

theorem valid : ValidChain v start chain where
  head := hc.head
  next := hc.next
  range c hmem := by
    have := hc.range c hmem
    omega
  nodup := hc.nodup

theorem cluster_mem {i : Nat} (hi : i < chain.length) : v.cluster start i ∈ chain := hc.valid.cluster_mem hi

theorem length_lt : chain.length < 4081 := by
  have hsub : chain ⊆ List.range 4080 := by
    intro c hmem
    have := hc.range c hmem
    exact List.mem_range.2 (by omega)
  have := (List.Nodup.subperm hc.nodup hsub).length_le
  rw [List.length_range] at this
  omega

theorem size_lt : chain.length * v.clusterSize < 2 ^ 30 := by
  have h1 := hc.length_lt
  have h2 := v.sectPerCluster_lt
  calc chain.length * v.clusterSize ≤ 4080 * (255 * 512) := by
        rw [clusterSize]
        exact Nat.mul_le_mul (by omega) (by omega)
    _ < 2 ^ 30 := by decide

theorem noStop {i : Nat} (hi : i < chain.length) : fat16IsStop (v.cluster start i) = false := by
  have := hc.range _ (hc.cluster_mem hi)
  simp only [fat16IsStop, decide_eq_false_iff_not]
  omega

theorem readable (hspc : v.sectPerCluster ≠ 0) {offset total : Nat} (ht : 0 < total)
    (hlen : offset + total ≤ chain.length * v.clusterSize)
    (hplace : ∀ i < total, v.readPos start offset i < 2 ^ 31) : v.Readable start offset total := by
  refine hc.valid.readable hspc hlen ?_ hplace
  intro i hi
  have := ValidChain.index_lt hspc hlen (show total - 1 < total by omega)
  exact hc.noStop (by omega)

end IsChain

/-! ## ブロックごとの読み取り -/

/-- `size` バイトのブロックに分けて読んだときの、`k` 番目のバイトのディスクの上での位置。 -/
def blockPos (v : Volume) (start pos size k : Nat) : Nat := v.readPos start (pos + k / size * size) (k % size)

theorem blockPos_of_lt {start pos size k : Nat} (h : k < size) :
    v.blockPos start pos size k = v.readPos start pos k := by
  rw [blockPos, Nat.div_eq_of_lt h, Nat.mod_eq_of_lt h, Nat.zero_mul, Nat.add_zero]

theorem blockPos_add {start pos size : Nat} (hsize : 0 < size) (k : Nat) :
    v.blockPos start pos size (size + k) = v.blockPos start (pos + size) size k := by
  rw [blockPos, blockPos, Nat.add_div_left _ hsize, Nat.add_mod_left, Nat.succ_mul]
  congr 1
  omega

/-- `b` 番目のブロックの `i` バイト目。 -/
theorem blockPos_block {start pos size b i : Nat} (hi : i < size) :
    v.blockPos start pos size (b * size + i) = v.readPos start (pos + b * size) i := by
  have hsize : 0 < size := Nat.zero_lt_of_lt hi
  rw [blockPos, Nat.mul_comm b, Nat.mul_add_div hsize, Nat.div_eq_of_lt hi, Nat.add_zero, Nat.mul_add_mod,
    Nat.mod_eq_of_lt hi, Nat.mul_comm b]

/-- どのブロックも読めるなら、繰り返しは成功し、ブロックを順に書く。 -/
theorem fat16ReadLoop_eq (hspc : v.sectPerCluster ≠ 0) {cluster size : Word} {n pos : Nat} {out : Word} {mem : Memory}
    (hsize : 0 < size.toNat) (hlt : 0 < n → size.toNat < 2 ^ 31) (hbound : pos + n * size.toNat ≤ 2 ^ 31)
    (hcluster : cluster.toNat < 2 ^ 16) (h : ∀ b < n, v.Readable cluster.toNat (pos + b * size.toNat) size.toNat) :
    fat16ReadLoop v.disk v.priv cluster size n pos out mem = .ok (none, mem.write out
      ((List.range (n * size.toNat)).map fun k => v.disk.byte (v.blockPos cluster.toNat pos size.toNat k))) := by
  -- ブロックの数についての帰納法。書く先も読む位置も、一ブロックぶん進む。
  induction n generalizing pos out mem with
  | zero => simp [fat16ReadLoop]
  | succ n ih =>
      have hmul : (n + 1) * size.toNat = size.toNat + n * size.toNat := by rw [Nat.succ_mul, Nat.add_comm]
      have hfirst : v.Readable cluster.toNat pos size.toNat := by simpa using h 0 (by omega)
      have hnext : ∀ b < n, v.Readable cluster.toNat (pos + size.toNat + b * size.toNat) size.toNat := by
        intro b hb
        have := h (b + 1) (by omega)
        rwa [Nat.succ_mul, Nat.add_comm (b * size.toNat), ← Nat.add_assoc] at this
      have hread : fat16ReadInternal v.disk v.priv cluster pos size.toInt =
          .ok ⟨0, (List.range size.toNat).map fun i => v.disk.byte (v.readPos cluster.toNat pos i)⟩ := by
        rw [fat16ReadInternal, toInt_of_lt (by omega), toInt_of_lt (hlt n.succ_pos)]
        exact fat16ReadInternalStream_eq hspc hfirst hsize (by omega) (hlt n.succ_pos)
      -- 最後のブロックの後の位置は `2^31` になり得るが、使われない。
      have hrest : ∀ (out : Word) (mem : Memory), fat16ReadLoop v.disk v.priv cluster size n (i32 ((pos : Int) + size.toNat)) out
          mem = .ok (none, mem.write out ((List.range (n * size.toNat)).map fun k =>
            v.disk.byte (v.blockPos cluster.toNat (pos + size.toNat) size.toNat k))) := by
        intro out mem
        by_cases hn : n = 0
        · subst hn
          simp [fat16ReadLoop]
        · have hblock : size.toNat ≤ n * size.toNat := Nat.le_mul_of_pos_left _ (Nat.pos_of_ne_zero hn)
          have hpos : i32 ((pos : Int) + size.toNat) = ((pos + size.toNat : Nat) : Int) := by
            rw [i32_of_bounds (by omega) (by omega), Int.natCast_add]
          rw [hpos]
          exact ih (fun _ => hlt n.succ_pos) (by omega) hnext
      have hout : out + size = out + BitVec.ofNat 32 size.toNat := by rw [BitVec.ofNat_toNat, BitVec.setWidth_eq]
      simp only [fat16ReadLoop, hread, bind, Except.bind, Int.lt_irrefl, if_false, hrest]
      have hhead : ((List.range size.toNat).map fun k => v.disk.byte (v.blockPos cluster.toNat pos size.toNat k)) =
          (List.range size.toNat).map fun i => v.disk.byte (v.readPos cluster.toNat pos i) := by
        apply List.map_congr_left
        intro k hk
        rw [blockPos_of_lt (List.mem_range.1 hk)]
      have happend := Memory.write_append mem out
        ((List.range size.toNat).map fun i => v.disk.byte (v.readPos cluster.toNat pos i))
        ((List.range (n * size.toNat)).map fun k => v.disk.byte (v.blockPos cluster.toNat (pos + size.toNat) size.toNat k))
        (by simp only [List.length_map, List.length_range]; omega)
      rw [List.length_map, List.length_range] at happend
      rw [hmul, List.range_add, List.map_append, List.map_map, hout, hhead, happend]
      simp only [Function.comp_def, blockPos_add hsize]

theorem fat16GetFirstCluster_lt (item : FatDirItem) : (fat16GetFirstCluster item).toNat < 2 ^ 16 := by
  rw [fat16GetFirstCluster, BitVec.toNat_setWidth]
  have := (item.highFirstCluster ||| item.lowFirstCluster).isLt
  omega

/-- 鎖の中に収まる読み取りは、ブロックの数を返し、ブロックを順に書く。 -/
theorem fat16Read_eq (hspc : v.sectPerCluster ≠ 0) {item : FatDirItem} {chain : List Nat}
    (hc : IsChain v (fat16GetFirstCluster item).toNat chain) {desc : FatFileDescriptor}
    (hitem : desc.item.dirItem = .ok item) {size blocks out : Word} {mem : Memory} (hsize : 0 < size.toNat)
    (hlen : desc.pos.toNat + blocks.toNat * size.toNat ≤ chain.length * v.clusterSize)
    (hplace : ∀ k < blocks.toNat * size.toNat,
      v.blockPos (fat16GetFirstCluster item).toNat desc.pos.toNat size.toNat k < 2 ^ 31) :
    fat16Read v.disk v.priv desc size blocks out mem = .ok ((blocks.toNat : Int), mem.write out
      ((List.range (blocks.toNat * size.toNat)).map fun k =>
        v.disk.byte (v.blockPos (fat16GetFirstCluster item).toNat desc.pos.toNat size.toNat k))) := by
  have htotal := hc.size_lt
  have hblocks : blocks.toNat ≤ blocks.toNat * size.toNat := Nat.le_mul_of_pos_right _ hsize
  have hlt : 0 < blocks.toNat → size.toNat < 2 ^ 31 := by
    intro hpos
    have := Nat.le_mul_of_pos_left size.toNat hpos
    omega
  have hread : ∀ b < blocks.toNat,
      v.Readable (fat16GetFirstCluster item).toNat (desc.pos.toNat + b * size.toNat) size.toNat := by
    intro b hb
    have hend : (b + 1) * size.toNat ≤ blocks.toNat * size.toNat := Nat.mul_le_mul_right _ hb
    rw [Nat.succ_mul] at hend
    refine hc.readable hspc hsize (by omega) ?_
    intro i hi
    have hk := hplace (b * size.toNat + i) (by omega)
    rwa [blockPos_block hi] at hk
  have hloop : fat16ReadLoop v.disk v.priv (fat16GetFirstCluster item) size blocks.toNat desc.pos.toNat out mem = _ :=
    fat16ReadLoop_eq hspc hsize hlt (by omega) (fat16GetFirstCluster_lt item) hread
  simp only [fat16Read, hitem, bind, Except.bind]
  rw [toInt_of_lt (show desc.pos.toNat < 2 ^ 31 by omega), hloop]
  simp only [pure, Except.pure, Option.getD_none]
  rw [toInt_of_lt (by omega)]

end EnkiOs.Volume
