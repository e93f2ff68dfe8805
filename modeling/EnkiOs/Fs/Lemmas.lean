import EnkiOs.Fat.Lemmas.Read
import EnkiOs.Fs.Basic

/-!
# 開いたファイル

記述子の表に載っているファイルと、その読み取り。
-/

namespace EnkiOs
open Machine

/-- 番号 `fd` の記述子の内容。 -/
def FileState.descriptor (s : FileState) (fd : Int) : FatFileDescriptor :=
  s.fatFiles (s.files (s.fileDescriptors (fd - 1).toNat)).privateData

/-- ボリューム `v` の通常のファイル `item` が、番号 `fd` で開かれていて、位置が先頭にある。 -/
structure Opened (s : FileState) (v : Volume) (fd : Int) (item : FatDirItem) : Prop where
  disk_eq : s.disk = v.disk
  priv_eq : s.priv = some v.priv
  index_pos : 1 ≤ fd
  index_le : fd ≤ ENKI_MAX_FILE_DESCRIPTORS
  present : s.fileDescriptors (fd - 1).toNat ≠ 0
  item_eq : (s.descriptor fd).item.dirItem = .ok item
  pos_eq : (s.descriptor fd).pos = 0

/-- 番号 `fd` で、通常のファイル `item` に届く。 -/
structure FileAt (s : FileState) (fd : Int) (item : FatDirItem) : Prop where
  present : fileGetDescriptor s fd ≠ 0
  item_eq : (s.descriptor fd).item.dirItem = .ok item

theorem Opened.fileAt {s : FileState} {v : Volume} {fd : Int} {item : FatDirItem} (h : Opened s v fd item) (hfd : fd ≠ 512) :
    FileAt s fd item := by
  have hlow := h.index_pos
  have hhigh : fd ≤ (512 : Nat) := h.index_le
  refine ⟨?_, h.item_eq⟩
  rw [fileGetDescriptor, if_neg]
  · exact h.present
  · show ¬(fd ≤ 0 ∨ ((512 : Nat) : Int) ≤ fd)
    omega

namespace FileAt

variable {s : FileState} {fd : Int} {item : FatDirItem} (h : FileAt s fd item)
include h

theorem index_pos : 0 < fd := by
  by_contra hle
  have hne := h.present
  rw [fileGetDescriptor, if_pos (.inl (by omega))] at hne
  exact hne rfl

theorem get : fileGetDescriptor s fd = s.fileDescriptors (fd - 1).toNat := by
  have hne := h.present
  rw [fileGetDescriptor] at hne ⊢
  split
  · rename_i hrange
    rw [if_pos hrange] at hne
    exact absurd rfl hne
  · rfl

theorem fread_eq {priv : FatPrivate} (hpriv : s.priv = some priv) {buf size blocks : Word} (hsize : size ≠ 0)
    (hblocks : blocks ≠ 0) {result : Int} {mem : Memory}
    (hread : fat16Read s.disk priv (s.descriptor fd) size blocks buf s.mem = .ok (result, mem)) :
    fread s buf size blocks fd = .ok (result, { s with mem := mem }) := by
  have hlow := h.index_pos
  have hargs : ¬(size = 0 ∨ blocks = 0 ∨ fd < 1) := by
    rintro (h0 | h0 | h0)
    · exact hsize h0
    · exact hblocks h0
    · omega
  simp only [fread, hargs, if_false, h.get, h.get ▸ h.present, hpriv]
  exact bind_ok.2 ⟨_, hread, rfl⟩

end FileAt

theorem Opened.fread_eq {s : FileState} {v : Volume} {fd : Int} {item : FatDirItem} (h : Opened s v fd item)
    (hfd : fd ≠ 512) {buf size blocks : Word} (hsize : size ≠ 0) (hblocks : blocks ≠ 0) {result : Int} {mem : Memory}
    (hread : fat16Read v.disk v.priv (s.descriptor fd) size blocks buf s.mem = .ok (result, mem)) :
    fread s buf size blocks fd = .ok (result, { s with mem := mem }) :=
  (h.fileAt hfd).fread_eq h.priv_eq hsize hblocks (h.disk_eq ▸ hread)

/-- 初めの空いた番号を探す。 -/
theorem fileFreeSlot_find (s : FileState) (k i : Nat) :
    fileFreeSlot s k i = (List.range' i k).find? (s.fileDescriptors · = 0) := by
  induction k generalizing i with
  | zero => rfl
  | succ k ih =>
      rw [fileFreeSlot, List.range'_succ, List.find?_cons, ih]
      by_cases h0 : s.fileDescriptors i = 0
      · rw [if_pos h0, decide_eq_true h0]
      · rw [if_neg h0, decide_eq_false h0]

theorem fileFreeSlot_lt {s : FileState} {k i j : Nat} (h : fileFreeSlot s k i = some j) : j < i + k := by
  rw [fileFreeSlot_find, List.find?_range'_eq_some, List.mem_range'_1] at h
  exact h.2.1.2

theorem fileFreeSlot_congr {s s' : FileState} (h : s'.fileDescriptors = s.fileDescriptors) (k i : Nat) :
    fileFreeSlot s' k i = fileFreeSlot s k i := by
  induction k generalizing i with
  | zero => rfl
  | succ k ih => rw [fileFreeSlot, fileFreeSlot, h, ih]

/-- 番号 `i + 1` の記述子だけが加わる。 -/
structure Occupied (s s' : FileState) (i : Nat) : Prop where
  disk_eq : s'.disk = s.disk
  priv_eq : s'.priv = s.priv
  used : s'.fileDescriptors i ≠ 0
  others : ∀ j, j ≠ i → s'.fileDescriptors j = s.fileDescriptors j

theorem Occupied.next {s s' : FileState} {i n : Nat} (h : Occupied s s' i) (hslot : fileFreeSlot s n 0 = some i)
    (hfree : s.fileDescriptors (i + 1) = 0) (hi : i + 1 < n) : fileFreeSlot s' n 0 = some (i + 1) := by
  rw [fileFreeSlot_find, List.find?_range'_eq_some, List.mem_range'_1] at hslot ⊢
  refine ⟨decide_eq_true ?_, ⟨Nat.zero_le _, by omega⟩, ?_⟩
  · rw [h.others _ (by omega)]
    exact hfree
  · intro j h0 hj
    rcases Nat.lt_or_eq_of_le (Nat.le_of_lt_succ hj) with hlt | rfl
    · rw [h.others j (by omega)]
      exact hslot.2.2 j h0 hlt
    · simpa using h.used

/-! ## 鎖に沿ったファイルの内容 -/

/-- クラスタ `c` の内容。 -/
def Volume.clusterBytes (v : Volume) (c : Nat) : List Byte := v.disk.bytes (v.clusterPos c) v.clusterSize

/-- 同じ長さ `m` の並びをつないだものの、`i` 番目。 -/
theorem getElem?_flatMap_of_length {α β : Type} (f : α → List β) {m : Nat} (hm : 0 < m) (hf : ∀ a, (f a).length = m)
    (l : List α) (i : Nat) : (l.flatMap f)[i]? = (l[i / m]?).bind fun a => (f a)[i % m]? := by
  induction l generalizing i with
  | nil => simp
  | cons a l ih =>
      rw [List.flatMap_cons]
      by_cases hi : i < m
      · rw [List.getElem?_append_left (by rw [hf]; exact hi), Nat.div_eq_of_lt hi, Nat.mod_eq_of_lt hi]
        rfl
      · obtain ⟨j, rfl⟩ : ∃ j, i = j + m := ⟨i - m, by omega⟩
        rw [List.getElem?_append_right (by rw [hf]; omega), hf, Nat.add_sub_cancel, ih, Nat.add_div_right _ hm,
          Nat.add_mod_right, List.getElem?_cons_succ]

theorem Volume.ValidChain.getElem?_clusterBytes {v : Volume} {start : Nat} {chain : List Nat} (hc : v.ValidChain start chain)
    (hspc : v.sectPerCluster ≠ 0) {i : Nat} (hi : i < chain.length * v.clusterSize) :
    (chain.flatMap v.clusterBytes)[i]? = some (v.disk.byte (v.filePos start i)) := by
  have hpos := v.clusterSize_pos hspc
  have hidx : i / v.clusterSize < chain.length := by
    apply Nat.div_lt_of_lt_mul
    rw [Nat.mul_comm]
    exact hi
  rw [getElem?_flatMap_of_length v.clusterBytes hpos (fun c => v.disk.length_bytes _ _), hc.get hidx, Option.bind_some]
  exact v.disk.getElem?_bytes (Nat.mod_lt _ hpos)

theorem Volume.ValidChain.slice_eq {v : Volume} {start : Nat} {chain : List Nat} (hc : v.ValidChain start chain)
    (hspc : v.sectPerCluster ≠ 0) {p n : Nat} (h : p + n ≤ chain.length * v.clusterSize) :
    ((chain.flatMap v.clusterBytes).drop p).take n = (List.range n).map fun k => v.disk.byte (v.filePos start (p + k)) := by
  apply List.ext_getElem?
  intro i
  rw [List.getElem?_take, List.getElem?_map]
  by_cases hi : i < n
  · rw [if_pos hi, List.getElem?_drop, hc.getElem?_clusterBytes hspc (by omega), List.getElem?_range hi]
    rfl
  · rw [if_neg hi, List.getElem?_eq_none (by rw [List.length_range]; omega)]
    rfl

/-- ファイルの内容。鎖のクラスタをつないだものの、先頭の `file_size` バイトである。 -/
def Volume.fileBytes (v : Volume) (item : FatDirItem) (chain : List Nat) : List Byte :=
  (chain.flatMap v.clusterBytes).take item.fileSize.toNat

section

variable {v : Volume} {item : FatDirItem} {chain : List Nat} (hspc : v.sectPerCluster ≠ 0)
  (hchain : v.IsChain (fat16GetFirstCluster item).toNat chain)
  (hlen : item.fileSize.toNat ≤ chain.length * v.clusterSize)
include hspc hchain hlen

theorem fileBytes_eq : v.fileBytes item chain =
    (List.range item.fileSize.toNat).map fun k => v.disk.byte (v.filePos (fat16GetFirstCluster item).toNat k) := by
  have hslice := hchain.valid.slice_eq hspc (p := 0) (n := item.fileSize.toNat) (by omega)
  simp only [List.drop_zero, Nat.zero_add] at hslice
  exact hslice

/-- 先頭から全体を読むと、ファイルの内容がそのまま書かれる。 -/
theorem fat16Read_whole (hplace : ∀ c ∈ chain, v.clusterPos c + v.clusterSize ≤ 2 ^ 31) {desc : FatFileDescriptor}
    (hitem : desc.item.dirItem = .ok item) (hdesc : desc.pos = 0) (hsize : 0 < item.fileSize.toNat) (buf : Word)
    (mem : Memory) :
    fat16Read v.disk v.priv desc item.fileSize 1 buf mem = .ok (1, mem.write buf (v.fileBytes item chain)) := by
  have hpos := v.clusterSize_pos hspc
  have hone : (1 : Word).toNat = 1 := rfl
  have hzero : desc.pos.toNat = 0 := by rw [hdesc]; rfl
  -- 位置は先頭なので、区切りとクラスタの境界とがそろう。
  have hfile : ∀ k < item.fileSize.toNat, v.blockPos (fat16GetFirstCluster item).toNat 0 item.fileSize.toNat k =
      v.filePos (fat16GetFirstCluster item).toNat k := by
    intro k hk
    have hmod := Nat.mod_lt k hpos
    rw [Volume.blockPos_of_lt hk, Volume.readPos_of_not_crosses, Nat.zero_add]
    rw [Volume.Crosses, Nat.zero_mod]
    omega
  have hbelow : ∀ k < (1 : Word).toNat * item.fileSize.toNat,
      v.blockPos (fat16GetFirstCluster item).toNat desc.pos.toNat item.fileSize.toNat k < 2 ^ 31 := by
    intro k hk
    rw [hone, Nat.one_mul] at hk
    have hidx : k / v.clusterSize < chain.length := by
      apply Nat.div_lt_of_lt_mul
      rw [Nat.mul_comm]
      omega
    have hc := hplace _ (hchain.cluster_mem hidx)
    have hmod := Nat.mod_lt k hpos
    rw [hzero, hfile k hk, Volume.filePos]
    omega
  have hbytes : ((List.range item.fileSize.toNat).map fun k =>
      v.disk.byte (v.blockPos (fat16GetFirstCluster item).toNat 0 item.fileSize.toNat k)) = v.fileBytes item chain := by
    rw [fileBytes_eq hspc hchain hlen]
    apply List.map_congr_left
    intro k hk
    rw [hfile k (List.mem_range.1 hk)]
  rw [Volume.fat16Read_eq hspc hchain hitem hsize (by rw [hzero, hone]; omega) hbelow, hone, Nat.one_mul, hzero, hbytes]
  rfl

end

end EnkiOs
