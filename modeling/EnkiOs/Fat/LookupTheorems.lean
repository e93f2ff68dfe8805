import EnkiOs.Fat.Lemmas.Lookup
import EnkiOs.Fat.Theorems

/-!
# ルートディレクトリの探索についての結果

`fat16_get_dir_items` は消されていない項目だけを数え、`fat16_find_item_in_dir` はその数を、消された項目も含む配列の長さとして使う。
-/

namespace EnkiOs
open Machine

/-- ルートディレクトリの `j` 番目の項目は、消されておらず、ボリュームラベルでもなく、8.3 形式の名前が合う。 -/
def LiveAt (v : Volume) (name : List Byte) (j : Nat) : Prop :=
  byteAt (v.rootItem j).bytes 0 ≠ 0xE5 ∧ (v.rootItem j).attributeByte &&& FAT_FILE_VOLUME_LABEL = 0 ∧
    SameName (v.rootItem j).shortName name

/-- `made` は、項目 `entry` の写しか、`entry` から読み込んだディレクトリである。 -/
def ItemOf (v : Volume) (entry : FatDirItem) (made : FatItem) : Prop :=
  match made.type with
  | .file (some (_, copy)) => copy = entry
  | .dir (some (_, dir)) =>
      entry.isDir ∧ fat16GetDirItems v.disk (fatDirSector v.priv entry) = .ok dir.total ∧
        fat16ReadInternal v.disk v.priv (fat16GetFirstCluster entry) 0 (i32 (dir.total * FAT_DIR_ITEM_SIZE)) =
          .ok ⟨0, dir.bytes⟩
  | .file none => False
  | .dir none => False

/-- 探索が、終わりの項目より手前の生きた項目だけを、過不足なく見つける。 -/
def FindsLive (v : Volume) (t : Nat) (name : List Byte) (heap : Heap) : Prop :=
  ∃ result heap', fat16FindItemInDir heap v.disk v.priv v.priv.root name = .ok (result, heap') ∧
    ((∃ made, result = some made) ↔ ∃ j < t, LiveAt v name j) ∧
    ∀ made, result = some made → ∃ j < t, LiveAt v name j ∧ ItemOf v (v.rootItem j) made

/-- 終わりの項目より手前の、消されていない項目の数。 -/
def Volume.liveCount (v : Volume) (t : Nat) : Nat := v.disk.liveItems (v.rootSector * 512) t

/-- 先頭の `count` 個のうち、コードの読み取る名前が合う最後の項目が、生きた通常のファイルであるか、または、そのような項目が
無く、生きた項目も無い。 -/
def LastIsLive (v : Volume) (t count : Nat) (name : List Byte) : Prop :=
  (∃ j < count, LiveAt v name j ∧ ¬(v.rootItem j).isDir ∧ NameAt v name j ∧
      ∀ j', j < j' → j' < count → ¬NameAt v name j') ∨
    (∀ j < count, ¬NameAt v name j) ∧ ∀ j < t, ¬LiveAt v name j

/-- 作られるものから、元の項目が定まる。空のディレクトリは、どの項目のものでもない。 -/
theorem NewItem.itemOf_iff {v : Volume} {item entry : FatDirItem} {made : FatItem} (h : NewItem item made) :
    ItemOf v entry made ↔ ¬item.isDir ∧ item = entry := by
  cases h with
  | file hfile => simp [ItemOf, hfile]
  | dir hdir => simp [ItemOf, hdir]

theorem Volume.liveCount_succ (v : Volume) (t : Nat) :
    v.liveCount (t + 1) = v.liveCount t + if byteAt (v.rootItem t).bytes 0 = 0xE5 then 0 else 1 := by
  rw [liveCount, Disk.liveItems, List.range_succ, List.countP_append, List.countP_singleton, rootItem_first]
  congr 1
  simp only [decide_eq_true_eq, ne_eq, ite_not]

theorem liveCount_of_noDeleted {v : Volume} {t : Nat} (h : ∀ j < t, byteAt (v.rootItem j).bytes 0 ≠ 0xE5) :
    v.liveCount t = t := by
  induction t with
  | zero => rfl
  | succ t ih =>
      rw [v.liveCount_succ, ih (fun j hj => h j (by omega)), if_neg (h t (by omega))]

theorem Volume.liveCount_le (v : Volume) (t : Nat) : v.liveCount t ≤ t := v.disk.liveItems_le _ _

/-- 見つけたものが正しいのは、調べた範囲で最後に名前の合う項目が、生きた通常のファイルであるときである。 -/
theorem found_correct_iff {v : Volume} {name : List Byte} {t count : Nat} (hle : count ≤ t) {result : Option FatItem}
    (hfound : Found v name 0 count none result) :
    (((∃ made, result = some made) ↔ ∃ j < t, LiveAt v name j) ∧
      ∀ made, result = some made → ∃ j < t, LiveAt v name j ∧ ItemOf v (v.rootItem j) made) ↔
    LastIsLive v t count name := by
  cases hfound with
  | kept hno =>
      constructor
      · rintro ⟨hiff, -⟩
        refine .inr ⟨fun j hj => hno j (Nat.zero_le j) hj, ?_⟩
        intro j hj hlive
        obtain ⟨made, hmade⟩ := hiff.2 ⟨j, hj, hlive⟩
        cases hmade
      · rintro (⟨j, hj, -, -, hname, -⟩ | ⟨-, hrest⟩)
        · exact absurd hname (hno j (Nat.zero_le j) hj)
        · refine ⟨⟨?_, ?_⟩, ?_⟩
          · rintro ⟨made, hmade⟩
            cases hmade
          · rintro ⟨j, hj, hlive⟩
            exact absurd hlive (hrest j hj)
          · intro made hmade
            cases hmade
  | @last j made _ hhi hname hlast hmade =>
      constructor
      · rintro ⟨-, hitem⟩
        obtain ⟨j', hj', hlive, hof⟩ := hitem made rfl
        obtain ⟨hfile, heq⟩ := hmade.itemOf_iff.1 hof
        -- 生きているかどうかは項目の内容で決まり、内容の等しい項目では同じである。
        have hlive' : LiveAt v name j := by
          rw [LiveAt, heq]
          exact hlive
        exact .inl ⟨j, hhi, hlive', hfile, hname, hlast⟩
      · rintro (⟨j', hj', hlive, hfile, hname', hlast'⟩ | ⟨hno, -⟩)
        · obtain rfl : j' = j := by
            rcases Nat.lt_trichotomy j' j with h | h | h
            · exact absurd hname (hlast' j h hhi)
            · exact h
            · exact absurd hname' (hlast j' h hj')
          refine ⟨⟨fun _ => ⟨j', by omega, hlive⟩, fun _ => ⟨made, rfl⟩⟩, ?_⟩
          rintro made' hmade'
          cases hmade'
          exact ⟨j', by omega, hlive, hmade.itemOf_iff.2 ⟨hfile, rfl⟩⟩
        · exact absurd hname (hno j hhi)

/-- 探索が正しいのは、調べる範囲で名前の合う項目の中に終わりの無いディレクトリが無く、最後に名前の合う項目が生きた通常の
ファイルであるときか、合う項目が調べる範囲に無く、生きた項目も無いときである。 -/
theorem findsLive_iff {v : Volume} {t : Nat} (ht : RootTerminated v.disk v.priv.header t) (hle : t ≤ v.rootEntries)
    {name : List Byte} (hname : 0 ∉ name) {heap : Heap} (hroom : FindRoom v name (v.liveCount t) 0 heap) :
    FindsLive v t name heap ↔
      (∀ j < v.liveCount t, NameAt v name j → ¬EndlessAt v j) ∧ LastIsLive v t (v.liveCount t) name := by
  have hcount := v.liveCount_le t
  have htotal : v.priv.root.total.toNat = v.liveCount t := by
    rw [Volume.root_total ht, Int.toNat_natCast]
    rfl
  have hend : 0 + v.liveCount t ≤ v.rootEntries := by omega
  rw [FindsLive, fat16FindItemInDir, htotal]
  by_cases hlist : ∀ j < v.liveCount t, NameAt v name j → ¬EndlessAt v j
  · obtain ⟨result, heap', hloop, hfound⟩ := fat16FindItemLoop_ok ht hname hend
      (fun j _ hj => hlist j (by omega)) none hroom
    rw [Nat.zero_add] at hfound
    rw [hloop, ← found_correct_iff hcount hfound]
    constructor
    · rintro ⟨_, _, heq, h⟩
      cases heq
      exact ⟨hlist, h⟩
    · rintro ⟨-, h⟩
      exact ⟨result, heap', rfl, h⟩
  · refine iff_of_false ?_ (fun h => hlist h.1)
    rintro ⟨_, _, heq, -⟩
    simp only [not_forall, not_not] at hlist
    obtain ⟨j, hj, hat, hendless⟩ := hlist
    obtain ⟨fault, herr⟩ := fat16FindItemLoop_error ht hname hend ⟨j, by omega, by omega, hat, hendless⟩ none hroom
    rw [herr] at heq
    cases heq

/-! ## 具体的なディレクトリ -/

theorem newItemRoom_packed {v : Volume} {heap : Heap} {b : Nat} (hp : Packed heap b) (hb : b ≤ 1024) {item : FatDirItem}
    (hfile : ¬item.isDir) : NewItemRoom v heap item := by
  obtain ⟨h1, hp1⟩ := hp.kzalloc (show 0 < 8 by decide) (by decide) (by omega)
  obtain ⟨h2, -⟩ := hp1.kzalloc (show 0 < FAT_DIR_ITEM_SIZE by decide) (by decide) (show _ + 1 ≤ 25600 by omega)
  refine ⟨by rw [h1]; exact blockAddr_ne_zero (by omega), ?_⟩
  rw [if_neg hfile, h2]
  exact blockAddr_ne_zero (by omega)

theorem small_rootItem {v : Volume} {content : Nat → Byte} (hv : v.disk = smallDisk content) {j : Nat} (hj : j < 16) :
    (v.rootItem j).bytes = (List.range 32).map fun i => content (1024 + 32 * j + i) := by
  have hs : v.rootSector = 2 := by
    rw [Volume.rootSector, Volume.small_header hv]
    rfl
  simp only [Volume.rootItem, Disk.bytes, hs, hv]
  apply List.map_congr_left
  intro i hi
  have := List.mem_range.1 hi
  rw [smallDisk_byte (by omega) (by omega)]

theorem fragmented_rootItem {v : Volume} (hv : v.disk = fragmentedDisk) : v.rootItem 0 = fragmentedItem := by
  apply FatDirItem.eq_of_bytes
  rw [small_rootItem hv (show 0 < 16 by decide)]
  rfl

theorem fragmented_liveCount {v : Volume} (hv : v.disk = fragmentedDisk) : v.liveCount 1 = 1 := by
  rw [v.liveCount_succ, fragmented_rootItem hv]
  rfl

theorem small_rootEntries {v : Volume} {content : Nat → Byte} (hv : v.disk = smallDisk content) : v.rootEntries = 16 := by
  rw [Volume.rootEntries, Volume.small_header hv]
  rfl

theorem small_rootTerminated {v : Volume} {content : Nat → Byte} {t : Nat} (hv : v.disk = smallDisk content)
    (h : RootTerminated (smallDisk content) smallHeader t) : RootTerminated v.disk v.priv.header t := by
  rw [Volume.small_header hv, hv]
  exact h

theorem fragmented_file {v : Volume} (hv : v.disk = fragmentedDisk) : ¬(v.rootItem 0).isDir := by
  rw [fragmented_rootItem hv]
  decide

theorem fragmented_live {v : Volume} (hv : v.disk = fragmentedDisk) : LiveAt v [0x61] 0 := by
  rw [LiveAt, fragmented_rootItem hv]
  decide

theorem fragmented_nameAt {v : Volume} (hv : v.disk = fragmentedDisk) : NameAt v [0x61] 0 := by
  rw [NameAt, fragmented_rootItem hv]
  decide

theorem fragmented_findRoom {v : Volume} (hv : v.disk = fragmentedDisk) : FindRoom v [0x61] 1 0 bootHeap := by
  rw [FindRoom, if_pos (fragmented_nameAt hv)]
  exact ⟨newItemRoom_packed bootHeap_packed (by decide) (fragmented_file hv), fun _ _ _ => trivial⟩

theorem fragmented_notEndless {v : Volume} (hv : v.disk = fragmentedDisk) {j : Nat} (hj : j < 1) : ¬EndlessAt v j := by
  intro hendless
  obtain rfl : j = 0 := by omega
  exact fragmented_file hv hendless.1

/-- ルートディレクトリのただ一つのファイル `A` は、小文字の名前で見つかる。 -/
theorem findsLive_fragmented : ∃ v : Volume, v.disk = fragmentedDisk ∧ FindsLive v 1 [0x61] bootHeap := by
  obtain ⟨v, hv⟩ := fragmented_resolved
  have hroot := small_rootTerminated hv fragmented_root
  have hcount := fragmented_liveCount hv
  have hentries := small_rootEntries hv
  have hroom : FindRoom v [0x61] (v.liveCount 1) 0 bootHeap := by
    rw [hcount]
    exact fragmented_findRoom hv
  refine ⟨v, hv, (findsLive_iff hroot (by omega) (by decide) hroom).2 ?_⟩
  rw [hcount]
  exact ⟨fun j hj _ => fragmented_notEndless hv hj, .inl ⟨0, by decide, fragmented_live hv, fragmented_file hv,
    fragmented_nameAt hv, by omega⟩⟩

/-- 消された項目の後ろに、ファイル `A` があるディスク。 -/
def deletedDisk : Disk := smallDisk fun p =>
  if p = 1024 then 0xE5 else if 1056 ≤ p ∧ p < 1088 then byteAt fragmentedItem.bytes (p - 1056) else 0

/-- 消されていない項目は一つなので、探索は先頭の消された項目だけを調べ、後ろのファイルを見つけない。 -/
theorem findsLive_fails_deleted : ∃ v : Volume, v.disk = deletedDisk ∧ RootTerminated v.disk v.priv.header 2 ∧
    LiveAt v [0x41] 1 ∧ FindRoom v [0x41] (v.liveCount 2) 0 bootHeap ∧
    fat16FindItemInDir bootHeap v.disk v.priv v.priv.root [0x41] = .ok (none, bootHeap) ∧
    ¬FindsLive v 2 [0x41] bootHeap := by
  have hdisk : RootTerminated deletedDisk smallHeader 2 := smallDisk_root (by decide) (by decide) (by decide)
  obtain ⟨v, hv⟩ : ∃ v : Volume, v.disk = deletedDisk := smallDisk_resolved hdisk
  have hroot := small_rootTerminated hv hdisk
  have hentries := small_rootEntries hv
  have hitem : v.rootItem 1 = fragmentedItem := by
    apply FatDirItem.eq_of_bytes
    rw [small_rootItem hv (show 1 < 16 by decide)]
    rfl
  have hfirst : v.rootItem 0 = ⟨0xE5 :: List.replicate 31 0, rfl⟩ := by
    apply FatDirItem.eq_of_bytes
    rw [small_rootItem hv (show 0 < 16 by decide)]
    rfl
  have hcount : v.liveCount 2 = 1 := by
    rw [v.liveCount_succ, v.liveCount_succ, hitem, hfirst]
    rfl
  have hlive : LiveAt v [0x41] 1 := by
    rw [LiveAt, hitem]
    decide
  have hno : ¬NameAt v [0x41] 0 := by
    rw [NameAt, hfirst]
    decide
  have hfind : fat16FindItemInDir bootHeap v.disk v.priv v.priv.root [0x41] = .ok (none, bootHeap) := by
    have htotal : v.priv.root.total.toNat = 1 := by
      rw [Volume.root_total hroot, Int.toNat_natCast]
      exact hcount
    rw [fat16FindItemInDir, htotal, fat16FindItemLoop_succ hroot (by decide) (by omega), if_neg hno]
    rfl
  have hroom : FindRoom v [0x41] (v.liveCount 2) 0 bootHeap := by
    rw [hcount, FindRoom, if_neg hno]
    trivial
  refine ⟨v, hv, hroot, hlive, hroom, hfind, ?_⟩
  rintro ⟨result, heap', h, hiff, -⟩
  cases hfind.symm.trans h
  obtain ⟨made, hmade⟩ := hiff.2 ⟨1, by decide, hlive⟩
  cases hmade

end EnkiOs
