import EnkiOs.Fat.LookupTheorems

/-!
# 経路の探索についての結果

経路の各部分を、ルートディレクトリから順に探していくことを、ディスクの内容の上の関係 `Walk` で定める。
`fat16_load_fat_dir` は配列の割り当ての成否を逆に調べるので、ディレクトリの先へは進めない。
-/

namespace EnkiOs
open Machine

/-! ## ディレクトリの木 -/

/-- ディレクトリの項目の並び。0 で始まる最初の項目で終わる。 -/
abbrev Listing := Nat → FatDirItem

/-- `j` 番目の項目は、終わりの項目より手前にある。 -/
def Listing.Has (l : Listing) (j : Nat) : Prop := ∀ i ≤ j, byteAt (l i).bytes 0 ≠ 0

/-- 述語 `p` に合う最後の項目が `entry` である。 -/
def Listing.Last (l : Listing) (p : FatDirItem → Prop) (entry : FatDirItem) : Prop :=
  ∃ j, l.Has j ∧ p (l j) ∧ (∀ j', j < j' → l.Has j' → ¬p (l j')) ∧ l j = entry

/-- 8.3 形式の名前の合う最後の項目が `entry` である。 -/
def Listing.Finds (l : Listing) (name : List Byte) : FatDirItem → Prop := l.Last fun item => SameName item.shortName name

/-- コードの読み取る名前の合う最後の項目が `entry` である。 -/
def Listing.Picks (l : Listing) (name : List Byte) : FatDirItem → Prop :=
  l.Last fun item => SameName (fat16FileNameResolve item) name

/-- ディレクトリ `entry` の内容は、その鎖に並ぶ項目である。 -/
def Volume.subdirectory (v : Volume) (entry : FatDirItem) : Listing := fun j =>
  ⟨(List.range 32).map fun i => v.disk.byte (v.filePos (fat16GetFirstCluster entry).toNat (32 * j + i)), by simp⟩

/-- 部分を順に探して `target` に着く。途中の項目はディレクトリである。 -/
inductive Walk (v : Volume) : Listing → List (List Byte) → FatDirItem → Prop
  | last {l part target} (h : l.Finds part target) : Walk v l [part] target
  | step {l part entry next rest target} (h : l.Finds part entry) (hdir : entry.isDir)
      (hrest : Walk v (v.subdirectory entry) (next :: rest) target) : Walk v l (part :: next :: rest) target

/-- 経路の探索が、木をたどった結果を返す。たどれないときは 0 を返す。 -/
def ResolvesPath (v : Volume) (part : List Byte) (next : List (List Byte)) (heap : Heap) : Prop :=
  ∃ result heap', fat16GetDirEntry heap v.disk v.priv part next = .ok (result, heap') ∧
    (result = none ↔ ¬∃ target, Walk v v.rootItem (part :: next) target) ∧
    ∀ made, result = some made → ∃ target, Walk v v.rootItem (part :: next) target ∧ ItemOf v target made

theorem Walk.first {v : Volume} {l : Listing} {part : List Byte} {next : List (List Byte)} {target : FatDirItem}
    (h : Walk v l (part :: next) target) : ∃ entry, l.Finds part entry ∧ (next = [] ∧ entry = target ∨ next ≠ [] ∧ entry.isDir) := by
  cases h with
  | last h => exact ⟨target, h, .inl ⟨rfl, rfl⟩⟩
  | step h hdir hrest => exact ⟨_, h, .inr ⟨by simp, hdir⟩⟩

theorem Listing.Last.unique {l : Listing} {p : FatDirItem → Prop} {a b : FatDirItem} (ha : l.Last p a) (hb : l.Last p b) :
    a = b := by
  obtain ⟨i, hi, hni, hlasti, rfl⟩ := ha
  obtain ⟨j, hj, hnj, hlastj, rfl⟩ := hb
  rcases Nat.lt_trichotomy i j with h | h | h
  · exact absurd hnj (hlasti j h hj)
  · rw [h]
  · exact absurd hni (hlastj i h hi)

/-! ## ルートディレクトリ -/

section

variable {v : Volume} {t : Nat} (ht : RootTerminated v.disk v.priv.header t) {part : List Byte}
include ht

theorem rootItem_has_iff {j : Nat} : Listing.Has v.rootItem j ↔ j < t := by
  constructor
  · intro h
    by_contra hge
    apply h t (by omega)
    rw [v.rootItem_first]
    exact ht.terminator
  · intro hj i hi
    rw [v.rootItem_first]
    exact ht.live i (by omega)

/-- 調べた結果が空なのは、コードの読み取る名前の合う項目が無いときである。 -/
theorem picks_of_found {result : Option FatItem} (h : Found v part 0 t none result) :
    (result = none ∧ ∀ entry, ¬Listing.Picks v.rootItem part entry) ∨
      ∃ entry made, result = some made ∧ Listing.Picks v.rootItem part entry ∧ NewItem entry made := by
  cases h with
  | kept hno =>
      refine .inl ⟨rfl, ?_⟩
      rintro entry ⟨j, hj, hname, -, -⟩
      exact hno j (Nat.zero_le j) ((rootItem_has_iff ht).1 hj) hname
  | @last j made _ hhi hname hlast hmade =>
      refine .inr ⟨v.rootItem j, made, rfl, ⟨j, (rootItem_has_iff ht).2 hhi, hname, ?_, rfl⟩, hmade⟩
      intro j' hj' hhas
      exact hlast j' hj' ((rootItem_has_iff ht).1 hhas)

end

/-! ## 経路の探索 -/

/-- 木の中の経路と、コードがルートディレクトリで選ぶ項目が食い違わない。一つの部分だけなら選ばれる項目が同じであり、
長い経路なら、たどる先が木に無い。 -/
def AgreesOnPath (v : Volume) (part : List Byte) (next : List (List Byte)) : Prop :=
  (next = [] → ∀ entry, Listing.Picks v.rootItem part entry ↔ Listing.Finds v.rootItem part entry) ∧
    (next ≠ [] → ¬∃ target, Walk v v.rootItem (part :: next) target)

theorem walk_single_iff {v : Volume} {part : List Byte} {target : FatDirItem} :
    Walk v v.rootItem [part] target ↔ Listing.Finds v.rootItem part target := by
  constructor
  · intro h
    cases h with
    | last h => exact h
  · exact .last

/-- 選ばれる項目が無いときの結果は 0 である。 -/
theorem noWalk_iff {v : Volume} {part : List Byte} {next : List (List Byte)}
    (hno : ∀ entry, ¬Listing.Picks v.rootItem part entry) :
    (¬∃ target, Walk v v.rootItem (part :: next) target) ↔ AgreesOnPath v part next := by
  cases next with
  | nil => simp [AgreesOnPath, walk_single_iff, hno]
  | cons p rest => simp [AgreesOnPath]

/-- ルートディレクトリで作った項目から先の探索。ディレクトリなら、どの経路でも正しい結果にならない。 -/
theorem walk_correct_iff {v : Volume} {part : List Byte} {next : List (List Byte)} {entry : FatDirItem} {made : FatItem}
    {heap : Heap} (hpicks : Listing.Picks v.rootItem part entry) (hmade : NewItem entry made) :
    (∃ result heap', fat16WalkPath v.disk v.priv next (some made) heap = .ok (result, heap') ∧
      (result = none ↔ ¬∃ target, Walk v v.rootItem (part :: next) target) ∧
      ∀ made, result = some made → ∃ target, Walk v v.rootItem (part :: next) target ∧ ItemOf v target made) ↔
    ¬entry.isDir ∧ AgreesOnPath v part next := by
  cases hmade with
  | @file addr copy hfile =>
      rw [and_iff_right hfile]
      cases next with
      | nil =>
          simp only [AgreesOnPath, walk_single_iff, forall_const, ne_eq, not_true_eq_false, false_imp_iff, and_true]
          constructor
          · rintro ⟨result, heap', hok, -, hitem⟩ other
            cases hok
            obtain ⟨target, hfinds, hof⟩ := hitem _ rfl
            obtain rfl : entry = target := hof
            constructor
            · intro h
              rw [h.unique hpicks]
              exact hfinds
            · intro h
              rw [h.unique hfinds]
              exact hpicks
          · intro hagree
            have hfinds := (hagree entry).1 hpicks
            refine ⟨_, heap, rfl, ?_, ?_⟩
            · simpa using ⟨entry, hfinds⟩
            · intro made hmade
              cases hmade
              exact ⟨entry, hfinds, rfl⟩
      | cons p rest =>
          simp only [AgreesOnPath, reduceCtorEq, false_imp_iff, true_and, ne_eq, not_false_eq_true, forall_const]
          constructor
          · rintro ⟨result, heap', hok, hnone, -⟩
            cases hok
            exact hnone.1 rfl
          · intro hno
            refine ⟨none, heap, rfl, iff_of_true rfl hno, ?_⟩
            intro made hmade
            cases hmade
  | dir hdir =>
      refine iff_of_false ?_ (fun h => h.1 hdir)
      rintro ⟨result, heap', hok, -, hitem⟩
      cases next with
      | nil =>
          cases hok
          obtain ⟨target, -, hof⟩ := hitem _ rfl
          exact hof
      | cons p rest => cases hok

/-- 経路の探索が正しいのは、ルートディレクトリの名前の合う項目に終わりの無いディレクトリが無く、最初の部分についてコードが
選ぶ項目がディレクトリではなく、木の中の経路と食い違わないとき、そのときに限る。 -/
theorem resolvesPath_iff {v : Volume} {t : Nat} (ht : RootTerminated v.disk v.priv.header t) (hle : t ≤ v.rootEntries)
    (hlive : ∀ j < t, byteAt (v.rootItem j).bytes 0 ≠ 0xE5) {part : List Byte} (next : List (List Byte))
    (hname : 0 ∉ part) {heap : Heap} (hroom : FindRoom v part t 0 heap) :
    ResolvesPath v part next heap ↔
      (∀ j < t, NameAt v part j → ¬EndlessAt v j) ∧ (∀ entry, Listing.Picks v.rootItem part entry → ¬entry.isDir) ∧
        AgreesOnPath v part next := by
  have hcount := liveCount_of_noDeleted hlive
  have htotal : v.priv.root.total.toNat = t := by
    rw [Volume.root_total ht, Int.toNat_natCast]
    exact hcount
  have hend : 0 + t ≤ v.rootEntries := by omega
  rw [ResolvesPath]
  simp only [fat16GetDirEntry, fat16FindItemInDir, htotal]
  by_cases hlist : ∀ j < t, NameAt v part j → ¬EndlessAt v j
  · obtain ⟨result, heap', hloop, hfound⟩ := fat16FindItemLoop_ok ht hname hend (fun j _ hj => hlist j (by omega)) none hroom
    rw [Nat.zero_add] at hfound
    rw [hloop, and_iff_right hlist]
    rcases picks_of_found ht hfound with ⟨rfl, hno⟩ | ⟨entry, made, rfl, hpicks, hmade⟩
    · rw [and_iff_right fun entry h => absurd h (hno entry), ← noWalk_iff hno]
      constructor
      · rintro ⟨result, heap', hok, hnone, -⟩
        cases hok
        exact hnone.1 rfl
      · intro hno
        refine ⟨none, heap', rfl, iff_of_true rfl hno, ?_⟩
        intro made hmade
        cases hmade
    · refine (walk_correct_iff hpicks hmade).trans (and_congr_left fun _ => ?_)
      constructor
      · intro hfile entry' hpicks'
        rw [hpicks'.unique hpicks]
        exact hfile
      · intro h
        exact h entry hpicks
  · refine iff_of_false ?_ (fun h => hlist h.1)
    simp only [not_forall, not_not] at hlist
    obtain ⟨j, hj, hat, hendless⟩ := hlist
    obtain ⟨fault, herr⟩ := fat16FindItemLoop_error ht hname hend ⟨j, by omega, by omega, hat, hendless⟩ none hroom
    rw [herr]
    rintro ⟨_, _, heq, -⟩
    cases heq

/-! ## 具体的な経路 -/

/-- ファイル `A` だけの経路は正しく探せる。 -/
theorem resolvesPath_fragmented : ∃ v : Volume, v.disk = fragmentedDisk ∧ ResolvesPath v [0x61] [] bootHeap := by
  obtain ⟨v, hv⟩ := fragmented_resolved
  have hroot := small_rootTerminated hv fragmented_root
  have hentries := small_rootEntries hv
  have hitem := fragmented_rootItem hv
  have hlive : ∀ j < 1, byteAt (v.rootItem j).bytes 0 ≠ 0xE5 := by
    intro j hj
    obtain rfl : j = 0 := by omega
    rw [hitem]
    decide
  have honly : ∀ {p : FatDirItem → Prop} {entry}, Listing.Last v.rootItem p entry → entry = fragmentedItem := by
    rintro p entry ⟨j, hj, -, -, rfl⟩
    obtain rfl : j = 0 := by
      have := (rootItem_has_iff hroot).1 hj
      omega
    exact hitem
  have hlast : ∀ {p : FatDirItem → Prop}, p fragmentedItem → Listing.Last v.rootItem p fragmentedItem := by
    intro p hp
    refine ⟨0, (rootItem_has_iff hroot).2 (by decide), hitem ▸ hp, ?_, hitem⟩
    intro j' hj' hhas
    have := (rootItem_has_iff hroot).1 hhas
    omega
  refine ⟨v, hv, (resolvesPath_iff hroot (by omega) hlive [] (by decide) (fragmented_findRoom hv)).2 ⟨?_, ?_, ?_, ?_⟩⟩
  · intro j hj _
    exact fragmented_notEndless hv hj
  · intro entry hpicks
    rw [honly hpicks]
    decide
  · intro _ entry
    constructor
    · intro h
      rw [honly h]
      exact hlast (by decide)
    · intro h
      rw [honly h]
      exact hlast (by decide)
  · exact fun h => absurd rfl h

/-- クラスタ 2 から始まるディレクトリ `D`。 -/
def nestedItem : FatDirItem where
  bytes := 0x44 :: List.replicate 10 0x20 ++ [0x10] ++ List.replicate 14 0 ++ [2, 0] ++ List.replicate 4 0
  length_eq := rfl

/-- ディレクトリ `D` の中に、ファイル `A` があるディスク。 -/
def nestedDisk : Disk := smallDisk fun p =>
  if 1024 ≤ p ∧ p < 1056 then byteAt nestedItem.bytes (p - 1024)
  else if 1536 ≤ p ∧ p < 1568 then byteAt fragmentedItem.bytes (p - 1536) else 0

theorem nested_rootItem {v : Volume} (hv : v.disk = nestedDisk) : v.rootItem 0 = nestedItem := by
  apply FatDirItem.eq_of_bytes
  rw [small_rootItem hv (show 0 < 16 by decide)]
  rfl

/-- `D` の内容は、ファイル `A` の項目と、0 の項目である。 -/
theorem nested_subdirectory {v : Volume} (hv : v.disk = nestedDisk) {j : Nat} (hj : j < 16) :
    (v.subdirectory nestedItem j).bytes = (List.range 32).map fun i =>
      if 1536 ≤ 1536 + 32 * j + i ∧ 1536 + 32 * j + i < 1568 then byteAt fragmentedItem.bytes (32 * j + i) else 0 := by
  simp only [Volume.subdirectory]
  apply List.map_congr_left
  intro i hi
  have hi' := List.mem_range.1 hi
  have hstart : (fat16GetFirstCluster nestedItem).toNat = 2 := by decide
  have hpos : v.filePos 2 (32 * j + i) = 1536 + 32 * j + i := by
    rw [Volume.filePos, Volume.small_clusterPos hv, Volume.small_clusterSize hv, Nat.div_eq_of_lt (by omega),
      Nat.mod_eq_of_lt (by omega)]
    simp only [Volume.cluster_zero]
    omega
  rw [hstart, hpos, hv, nestedDisk, smallDisk_byte (by omega) (by omega), if_neg (by omega),
    show 1536 + 32 * j + i - 1536 = 32 * j + i by omega]

theorem nested_walk {v : Volume} (hv : v.disk = nestedDisk) (hroot : RootTerminated v.disk v.priv.header 1) :
    Walk v v.rootItem [[0x44], [0x41]] fragmentedItem := by
  have hitem := nested_rootItem hv
  have hfirst : v.subdirectory nestedItem 0 = fragmentedItem := by
    apply FatDirItem.eq_of_bytes
    rw [nested_subdirectory hv (by decide)]
    rfl
  have hend : byteAt (v.subdirectory nestedItem 1).bytes 0 = 0 := by
    rw [nested_subdirectory hv (by decide)]
    rfl
  have hroot0 : Listing.Finds v.rootItem [0x44] nestedItem := by
    refine ⟨0, (rootItem_has_iff hroot).2 (by decide), ?_, ?_, hitem⟩
    · rw [hitem]
      decide
    · intro j' hj' hhas
      have := (rootItem_has_iff hroot).1 hhas
      omega
  have hsub : (v.subdirectory nestedItem).Finds [0x41] fragmentedItem := by
    refine ⟨0, ?_, ?_, ?_, hfirst⟩
    · intro i hi
      obtain rfl : i = 0 := by omega
      rw [hfirst]
      decide
    · rw [hfirst]
      decide
    · intro j' hj' hhas
      exact absurd hend (hhas 1 hj')
  exact .step hroot0 (by decide) (.last hsub)

theorem nested_listed {v : Volume} (hv : v.disk = nestedDisk) :
    fat16GetDirItems v.disk (fatDirSector v.priv nestedItem) = .ok 1 := by
  have hcluster : (fat16GetFirstCluster nestedItem).toInt = ((2 : Nat) : Int) := by decide
  have hsector : fat16ClusterToSector v.priv ((2 : Nat) : Int) = ((3 : Nat) : Int) := by
    rw [v.fat16ClusterToSector_eq (by decide) (by decide)]
    have hpos := Volume.small_clusterPos hv 2
    rw [Volume.clusterPos] at hpos
    omega
  rw [fatDirSector, hcluster, hsector]
  have hbyte : ∀ j < 16, v.disk.byte (3 * 512 + 32 * j) = if j = 0 then 0x41 else 0 := by
    intro j hj
    rw [hv, nestedDisk, smallDisk_byte (by omega) (by omega), if_neg (by omega)]
    by_cases h0 : j = 0
    · rw [h0]
      rfl
    · rw [if_neg (by omega), if_neg h0]
  have hcount : v.disk.liveItems (3 * 512) 1 = 1 := by
    rw [Disk.liveItems_succ, show v.disk.byte (3 * 512) = 0x41 from hbyte 0 (by decide)]
    rfl
  rw [fat16GetDirItems_eq v.disk (t := 1) ?_ (hbyte 1 (by decide)) (by decide), hcount]
  · rfl
  · intro j hj
    rw [hbyte j (by omega), if_pos (by omega)]
    decide

theorem nested_findRoom {v : Volume} (hv : v.disk = nestedDisk) : FindRoom v [0x44] 1 0 bootHeap := by
  have hitem := nested_rootItem hv
  have hname : NameAt v [0x44] 0 := by
    rw [NameAt, hitem]
    decide
  obtain ⟨h1, hp1⟩ := bootHeap_packed.kzalloc (show 0 < 8 by decide) (by decide) (by decide)
  obtain ⟨h2, hp2⟩ := hp1.kzalloc (show 0 < 16 by decide) (by decide) (by decide)
  obtain ⟨h3, -⟩ := hp2.kzalloc (show 0 < 32 by decide) (by decide) (by decide)
  rw [FindRoom, if_pos hname, hitem]
  refine ⟨⟨by rw [h1]; exact blockAddr_ne_zero (by decide), ?_⟩, fun _ _ _ => trivial⟩
  rw [if_pos (show nestedItem.isDir by decide), h2]
  refine ⟨blockAddr_ne_zero (by decide), ?_⟩
  intro total htotal
  cases (nested_listed hv).symm.trans htotal
  rw [show (BitVec.ofInt 32 (i32 (1 * (FAT_DIR_ITEM_SIZE : Int)))).toNat = 32 by decide, h3]
  exact blockAddr_ne_zero (by decide)

/-- ディレクトリ `D` の中のファイル `A` への経路で、空のディレクトリを参照する。 -/
theorem resolvesPath_fails_nested : ∃ v : Volume, v.disk = nestedDisk ∧ RootTerminated v.disk v.priv.header 1 ∧
    FindRoom v [0x44] 1 0 bootHeap ∧ fat16GetDirItems v.disk (fatDirSector v.priv nestedItem) = .ok 1 ∧
    Walk v v.rootItem [[0x44], [0x41]] fragmentedItem ∧
    fat16GetDirEntry bootHeap v.disk v.priv [0x44] [[0x41]] = .error .nullDeref ∧
    ¬ResolvesPath v [0x44] [[0x41]] bootHeap := by
  have hdisk : RootTerminated nestedDisk smallHeader 1 := smallDisk_root (by decide) (by decide) (by decide)
  obtain ⟨v, hv⟩ : ∃ v : Volume, v.disk = nestedDisk := smallDisk_resolved hdisk
  have hroot := small_rootTerminated hv hdisk
  have hitem := nested_rootItem hv
  have hroom := nested_findRoom hv
  have hname : NameAt v [0x44] 0 := by
    rw [NameAt, hitem]
    decide
  have hentries := small_rootEntries hv
  have htotal : v.priv.root.total.toNat = 1 := by
    rw [Volume.root_total hroot, Int.toNat_natCast]
    exact liveCount_of_noDeleted (v := v) (t := 1) fun j hj => by
      obtain rfl : j = 0 := by omega
      rw [hitem]
      decide
  have hlisted : ∀ j, 0 ≤ j → j < 0 + 1 → NameAt v [0x44] j → ¬EndlessAt v j := by
    rintro j - hj - ⟨-, fault, herr⟩
    obtain rfl : j = 0 := by omega
    rw [hitem, nested_listed hv] at herr
    cases herr
  obtain ⟨result, heap', hloop, hfound⟩ := fat16FindItemLoop_ok hroot (by decide) (show 0 + 1 ≤ v.rootEntries by omega)
    hlisted none hroom
  have hentry : fat16GetDirEntry bootHeap v.disk v.priv [0x44] [[0x41]] = .error .nullDeref := by
    simp only [fat16GetDirEntry, fat16FindItemInDir, htotal]
    rw [hloop]
    cases hfound with
    | kept hno => exact absurd hname (hno 0 (Nat.le_refl 0) (by decide))
    | @last j made _ hhi _ _ hmade =>
        obtain rfl : j = 0 := by omega
        rw [hitem] at hmade
        cases hmade with
        | file hfile => exact absurd (show nestedItem.isDir by decide) hfile
        | dir => rfl
  refine ⟨v, hv, hroot, hroom, nested_listed hv, nested_walk hv hroot, hentry, ?_⟩
  rintro ⟨result, heap', hok, -⟩
  rw [hentry] at hok
  cases hok

end EnkiOs
