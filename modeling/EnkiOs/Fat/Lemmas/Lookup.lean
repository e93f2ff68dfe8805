import EnkiOs.Fat.Lemmas.Directory
import Mathlib.Data.List.DropRight

/-!
# ルートディレクトリの探索

`fat16_find_item_in_dir` は、名前の合う最後の項目を返す。調べるのは、消された項目も含む配列の、先頭の `total` 個である。
-/

namespace EnkiOs
open Machine

/-! ## 名前の比較 -/

theorem tolower_eq_zero_iff {c : Byte} : tolower c = 0 ↔ c = 0 := by
  revert c
  decide

/-- 大文字と小文字の違いを除いて等しい名前。 -/
def SameName (a b : List Byte) : Prop := a.map tolower = b.map tolower

instance (a b : List Byte) : Decidable (SameName a b) := inferInstanceAs (Decidable (_ = _))

/-- 欄の終わりの埋め草を除いた残り。途中の空白は残る。 -/
def unpadded (field : List Byte) : List Byte := field.rdropWhile fun c => c = 0x00 ∨ c = 0x20

/-- 項目の 8.3 形式の名前。二つの欄から埋め草だけを除き、拡張子があれば `.` を挟む。 -/
def FatDirItem.shortName (item : FatDirItem) : List Byte :=
  if unpadded item.ext = [] then unpadded item.name else unpadded item.name ++ 0x2E :: unpadded item.ext

theorem istrncmpLoop_eq_zero_iff (s1 s2 : Nat → Byte) {n i : Nat} {a b : Int} :
    istrncmpLoop s1 s2 n i a b = 0 ↔ a = b ∧ ∀ j, i ≤ j → j < i + n → tolower (s1 j) = tolower (s2 j) := by
  induction n generalizing i a b with
  | zero =>
      simp only [istrncmpLoop]
      constructor
      · intro h
        exact ⟨by omega, by omega⟩
      · intro h
        omega
  | succ n ih =>
      rw [istrncmpLoop]
      split
      · rename_i hab
        rw [ih, BitVec.toInt_inj]
        constructor
        · rintro ⟨h0, h⟩
          refine ⟨hab, ?_⟩
          intro j hj hj'
          rcases Nat.eq_or_lt_of_le hj with rfl | hlt
          · exact h0
          · exact h j hlt (by omega)
        · rintro ⟨-, h⟩
          exact ⟨h i (Nat.le_refl i) (by omega), fun j hj hj' => h j (by omega) (by omega)⟩
      · rename_i hab
        constructor
        · intro h
          omega
        · rintro ⟨h, -⟩
          exact absurd h hab

theorem tolower_byteAt (a : List Byte) (j : Nat) : tolower (byteAt a j) = byteAt (a.map tolower) j := by
  simp only [byteAt, List.getD_eq_getElem?_getD, List.getElem?_map]
  cases a[j]? <;> rfl

theorem byteAt_ne_zero {a : List Byte} (ha : 0 ∉ a) {j : Nat} (hj : j < a.length) : byteAt a j ≠ 0 := by
  intro h0
  apply ha
  rw [byteAt, List.getD_eq_getElem?_getD, List.getElem?_eq_getElem hj] at h0
  exact h0 ▸ List.getElem_mem hj

theorem byteAt_of_length_le {a : List Byte} {j : Nat} (hj : a.length ≤ j) : byteAt a j = 0 := by
  rw [byteAt, List.getD_eq_getElem?_getD, List.getElem?_eq_none hj]
  rfl

/-- 終わりの後ろが 0 のバッファに置いた文字列は、比べる長さより短ければ、名前として比べられる。 -/
theorem istrncmp_eq_zero_iff {a b : List Byte} {n : Nat} (ha : 0 ∉ a) (hb : 0 ∉ b) (hn : a.length < n) :
    istrncmp (byteAt a) (byteAt b) n = 0 ↔ SameName a b := by
  rw [istrncmp, istrncmpLoop_eq_zero_iff]
  constructor
  · rintro ⟨-, h⟩
    have hzero : ∀ j < n, byteAt a j = 0 ↔ byteAt b j = 0 := by
      intro j hj
      rw [← tolower_eq_zero_iff, h j (Nat.zero_le j) (by omega), tolower_eq_zero_iff]
    have hle : b.length ≤ a.length := by
      by_contra hlt
      exact byteAt_ne_zero hb (by omega) ((hzero a.length hn).1 (byteAt_of_length_le (Nat.le_refl _)))
    have hge : a.length ≤ b.length := by
      by_contra hlt
      exact byteAt_ne_zero ha (by omega) ((hzero b.length (by omega)).2 (byteAt_of_length_le (Nat.le_refl _)))
    apply List.ext_getElem (by simp only [List.length_map]; omega)
    intro j h1 h2
    rw [List.length_map] at h1 h2
    have hj := h j (Nat.zero_le j) (by omega)
    rw [byteAt, byteAt, List.getD_eq_getElem?_getD, List.getD_eq_getElem?_getD, List.getElem?_eq_getElem h1,
      List.getElem?_eq_getElem h2] at hj
    simpa using hj
  · intro h
    refine ⟨rfl, ?_⟩
    intro j _ _
    rw [tolower_byteAt, tolower_byteAt, h]

theorem zero_not_mem_fat16FmtStr (bytes : List Byte) (size : Nat) : 0 ∉ fat16FmtStr bytes size := by
  intro h
  have hall := List.all_takeWhile (p := fun c : Byte => decide (c ≠ 0x00 ∧ c ≠ 0x20)) (l := bytes.take size)
  have := List.all_eq_true.1 hall 0 h
  simp at this

theorem length_fat16FmtStr (bytes : List Byte) (size : Nat) : (fat16FmtStr bytes size).length ≤ size := by
  calc (fat16FmtStr bytes size).length ≤ (bytes.take size).length := (List.takeWhile_sublist _).length_le
    _ ≤ size := List.length_take_le _ _

theorem zero_not_mem_fat16FileNameResolve (item : FatDirItem) : 0 ∉ fat16FileNameResolve item := by
  simp only [fat16FileNameResolve]
  split
  · simp only [List.mem_append, List.mem_cons, not_or]
    exact ⟨zero_not_mem_fat16FmtStr _ _, by decide, zero_not_mem_fat16FmtStr _ _⟩
  · exact zero_not_mem_fat16FmtStr _ _

theorem length_fat16FileNameResolve (item : FatDirItem) : (fat16FileNameResolve item).length ≤ 12 := by
  have h1 := length_fat16FmtStr item.name 8
  have h2 := length_fat16FmtStr item.ext 3
  simp only [fat16FileNameResolve]
  split
  · rw [List.length_append, List.length_cons]
    omega
  · omega

theorem istrncmp_resolve_iff (item : FatDirItem) {name : List Byte} (hname : 0 ∉ name) :
    istrncmp (byteAt (fat16FileNameResolve item)) (byteAt name) ENKI_MAX_PATH = 0 ↔
      SameName (fat16FileNameResolve item) name := by
  have hlen : (fat16FileNameResolve item).length < ENKI_MAX_PATH :=
    Nat.lt_of_le_of_lt (length_fat16FileNameResolve item) (by decide)
  exact istrncmp_eq_zero_iff (zero_not_mem_fat16FileNameResolve item) hname hlen

/-! ## ルートディレクトリの内容 -/

theorem Disk.take_drop_bytes (d : Disk) {p n a m : Nat} (h : a + m ≤ n) :
    ((d.bytes p n).drop a).take m = d.bytes (p + a) m := by
  apply List.ext_getElem?
  intro i
  rw [List.getElem?_take, List.getElem?_drop]
  by_cases hi : i < m
  · rw [if_pos hi, d.getElem?_bytes (by omega), d.getElem?_bytes hi, Nat.add_assoc]
  · rw [if_neg hi, List.getElem?_eq_none (by rw [d.length_bytes]; omega)]

namespace Volume

variable (v : Volume)

/-- ルートディレクトリの `j` 番目の項目。 -/
def rootItem (j : Nat) : FatDirItem := ⟨v.disk.bytes (v.rootSector * 512 + 32 * j) 32, v.disk.length_bytes _ _⟩

theorem rootItem_first (j : Nat) : byteAt (v.rootItem j).bytes 0 = v.disk.byte (v.rootSector * 512 + 32 * j) :=
  byteAt_bytes_zero v.disk _ (by decide)

variable {v} {t : Nat} (ht : RootTerminated v.disk v.priv.header t)
include ht

theorem root_total : v.priv.root.total = v.disk.liveItems (v.rootSector * 512) t := by
  have h := v.root_spec.1
  have hsector : v.priv.header.rootSector = v.rootSector := rfl
  have heq := fat16GetDirItems_eq v.disk ht.live ht.terminator ht.bound
  rw [hsector] at heq
  rw [heq] at h
  injection h with h
  exact h.symm

/-- 読み込んだ配列の中では、項目がそのまま取り出せる。 -/
theorem root_item? {j : Nat} (hj : j < v.rootEntries) : v.priv.root.item? j = some (v.rootItem j) := by
  have hr : v.rootEntries < 2 ^ 16 := BitVec.isLt _
  have hsize : v.rootSector * 512 + v.rootEntries * 32 ≤ 2 ^ 31 := ht.size
  have habs : fat16SectorToAbs v.disk v.rootSector = ((v.rootSector * 512 : Nat) : Int) := by
    rw [fat16SectorToAbs, v.disk.sectorSize_eq, ENKI_SECTOR_SIZE, i32_of_bounds (by omega) (by omega)]
    rfl
  have hbytes : v.priv.root.bytes = v.disk.bytes (v.rootSector * 512) (v.rootEntries * 32) := by
    rw [v.root_spec.2.1, habs, diskStreamRead_bytes v.disk hsize (by omega) (by omega)]
  have hslice : (v.priv.root.bytes.drop (FAT_DIR_ITEM_SIZE * j)).take FAT_DIR_ITEM_SIZE = (v.rootItem j).bytes := by
    rw [hbytes]
    exact v.disk.take_drop_bytes (show 32 * j + 32 ≤ v.rootEntries * 32 by omega)
  simp only [FatDir.item?, hslice, (v.rootItem j).length_eq, dite_true]

end Volume

/-! ## 項目の作成 -/

def FatDirItem.isDir (item : FatDirItem) : Prop := item.attributeByte &&& FAT_FILE_SUBDIRECTORY ≠ 0

instance (item : FatDirItem) : Decidable item.isDir := inferInstanceAs (Decidable (_ ≠ _))

/-- ディレクトリの内容が始まるセクタ。 -/
def fatDirSector (priv : FatPrivate) (item : FatDirItem) : Word :=
  BitVec.ofInt 32 (fat16ClusterToSector priv (fat16GetFirstCluster item).toInt)

/-- `fat16_new_item_for_dir` が行う割り当てが、すべて成功する。 -/
def NewItemRoom (v : Volume) (heap : Heap) (item : FatDirItem) : Prop :=
  (kzalloc heap 8).1 ≠ 0 ∧
    if item.isDir then
      (kzalloc (kzalloc heap 8).2 16).1 ≠ 0 ∧
        ∀ total, fat16GetDirItems v.disk (fatDirSector v.priv item) = .ok total →
          (kzalloc (kzalloc (kzalloc heap 8).2 16).2 (BitVec.ofInt 32 (i32 (total * FAT_DIR_ITEM_SIZE))).toNat).1 ≠ 0
    else (kzalloc (kzalloc heap 8).2 FAT_DIR_ITEM_SIZE).1 ≠ 0

/-- 割り当てが成功すると、ファイルなら写しが、ディレクトリなら空のポインタが入る。 -/
inductive NewItem (item : FatDirItem) : FatItem → Prop
  | file {addr copy : Word} (h : ¬item.isDir) : NewItem item ⟨addr, .file (some (copy, item))⟩
  | dir {addr : Word} (h : item.isDir) : NewItem item ⟨addr, .dir none⟩

theorem fat16LoadFatDir_ok {v : Volume} {heap : Heap} {item : FatDirItem} (hdir : item.isDir) {total : Int}
    (haddr : (kzalloc heap 16).1 ≠ 0) (htotal : fat16GetDirItems v.disk (fatDirSector v.priv item) = .ok total)
    (hitems : (kzalloc (kzalloc heap 16).2 (BitVec.ofInt 32 (i32 (total * FAT_DIR_ITEM_SIZE))).toNat).1 ≠ 0) :
    ∃ heap', fat16LoadFatDir heap v.disk v.priv item = .ok (none, heap') := by
  rw [fatDirSector] at htotal
  simp only [fat16LoadFatDir, if_neg hdir, haddr, if_false, htotal, bind, Except.bind, if_pos hitems]
  exact ⟨_, rfl⟩

theorem fat16NewItemForDir_ok {v : Volume} {heap : Heap} {item : FatDirItem} (hroom : NewItemRoom v heap item)
    (hlist : item.isDir → ∃ total, fat16GetDirItems v.disk (fatDirSector v.priv item) = .ok total) :
    ∃ made heap', fat16NewItemForDir heap v.disk v.priv item = .ok (some made, heap') ∧ NewItem item made := by
  obtain ⟨hf, hrest⟩ := hroom
  by_cases hdir : item.isDir
  · rw [if_pos hdir] at hrest
    obtain ⟨total, htotal⟩ := hlist hdir
    obtain ⟨heap', hload⟩ := fat16LoadFatDir_ok hdir hrest.1 htotal (hrest.2 total htotal)
    simp only [fat16NewItemForDir, hf, if_false, if_pos (show _ ≠ _ from hdir), hload, bind, Except.bind]
    exact ⟨_, _, rfl, .dir hdir⟩
  · rw [if_neg hdir] at hrest
    simp only [fat16NewItemForDir, hf, if_false, if_neg (show ¬_ ≠ _ from hdir), fat16CloneDirItem, hrest]
    exact ⟨_, _, rfl, .file hdir⟩

/-- ディレクトリの中に終わりの項目が無いと、項目の作成も終わらない。 -/
theorem fat16NewItemForDir_error {v : Volume} {heap : Heap} {item : FatDirItem} (hroom : NewItemRoom v heap item)
    (hdir : item.isDir) {fault : Fault} (h : fat16GetDirItems v.disk (fatDirSector v.priv item) = .error fault) :
    fat16NewItemForDir heap v.disk v.priv item = .error fault := by
  obtain ⟨hf, hrest⟩ := hroom
  rw [if_pos hdir] at hrest
  have hload : fat16LoadFatDir (kzalloc heap 8).2 v.disk v.priv item = .error fault := by
    rw [fatDirSector] at h
    simp only [fat16LoadFatDir, if_neg hdir, hrest.1, if_false, h, bind, Except.bind]
  simp only [fat16NewItemForDir, hf, if_false, if_pos (show _ ≠ _ from hdir), hload, bind, Except.bind]

/-! ## 探索の繰り返し -/

/-- ルートディレクトリの `j` 番目の項目で、コードの読み取る名前が合う。 -/
def NameAt (v : Volume) (name : List Byte) (j : Nat) : Prop := SameName (fat16FileNameResolve (v.rootItem j)) name

instance (v : Volume) (name : List Byte) (j : Nat) : Decidable (NameAt v name j) := inferInstanceAs (Decidable (_ = _))

/-- `j` 番目の項目は、ディレクトリであって、内容に終わりの項目が無い。 -/
def EndlessAt (v : Volume) (j : Nat) : Prop :=
  (v.rootItem j).isDir ∧ ∃ fault, fat16GetDirItems v.disk (fatDirSector v.priv (v.rootItem j)) = .error fault

/-- 番号 `i` からの `k` 個を調べる間の割り当てが、すべて成功する。 -/
def FindRoom (v : Volume) (name : List Byte) : Nat → Nat → Heap → Prop
  | 0, _, _ => True
  | k + 1, i, heap =>
      if NameAt v name i then
        NewItemRoom v heap (v.rootItem i) ∧
          ∀ item heap', fat16NewItemForDir heap v.disk v.priv (v.rootItem i) = .ok (item, heap') →
            FindRoom v name k (i + 1) heap'
      else FindRoom v name k (i + 1) heap

/-- 番号 `lo` から `hi` の手前までを調べた結果。名前の合う最後の項目から作ったものか、無ければ元のままである。 -/
inductive Found (v : Volume) (name : List Byte) (lo hi : Nat) (item : Option FatItem) : Option FatItem → Prop
  | kept (h : ∀ j, lo ≤ j → j < hi → ¬NameAt v name j) : Found v name lo hi item item
  | last {j : Nat} {made : FatItem} (hlo : lo ≤ j) (hhi : j < hi) (hname : NameAt v name j)
      (hlast : ∀ j', j < j' → j' < hi → ¬NameAt v name j') (hmade : NewItem (v.rootItem j) made) :
      Found v name lo hi item (some made)

theorem Found.step {v : Volume} {name : List Byte} {lo hi : Nat} {item made result : Option FatItem}
    (hnext : Found v name (lo + 1) hi made result) (hlt : lo < hi)
    (hfirst : (¬NameAt v name lo ∧ made = item) ∨
      (NameAt v name lo ∧ ∃ new, made = some new ∧ NewItem (v.rootItem lo) new)) :
    Found v name lo hi item result := by
  cases hnext with
  | last hlo hhi hname hlast hmade => exact .last (by omega) hhi hname hlast hmade
  | kept h =>
      rcases hfirst with ⟨hno, rfl⟩ | ⟨hname, new, rfl, hnew⟩
      · apply Found.kept
        intro j hj hj'
        rcases Nat.eq_or_lt_of_le hj with rfl | hlt
        · exact hno
        · exact h j hlt hj'
      · exact .last (Nat.le_refl lo) hlt hname (fun j' h1 h2 => h j' h1 h2) hnew

section

variable {v : Volume} {t : Nat} (ht : RootTerminated v.disk v.priv.header t) {name : List Byte} (hname : 0 ∉ name)
include ht hname

theorem fat16FindItemLoop_succ {k i : Nat} (hi : i < v.rootEntries) (item : Option FatItem) (heap : Heap) :
    fat16FindItemLoop v.disk v.priv v.priv.root name (k + 1) i item heap =
      if NameAt v name i then do
        let (item, heap) ← fat16NewItemForDir heap v.disk v.priv (v.rootItem i)
        fat16FindItemLoop v.disk v.priv v.priv.root name k (i + 1) item heap
      else fat16FindItemLoop v.disk v.priv v.priv.root name k (i + 1) item heap := by
  simp only [fat16FindItemLoop, Volume.root_item? ht hi, istrncmp_resolve_iff _ hname]
  rfl

theorem fat16FindItemLoop_ok {k i : Nat} (hend : i + k ≤ v.rootEntries)
    (hlist : ∀ j, i ≤ j → j < i + k → NameAt v name j → ¬EndlessAt v j) (item : Option FatItem) {heap : Heap}
    (hroom : FindRoom v name k i heap) :
    ∃ result heap', fat16FindItemLoop v.disk v.priv v.priv.root name k i item heap = .ok (result, heap') ∧
      Found v name i (i + k) item result := by
  induction k generalizing i item heap with
  | zero => exact ⟨item, heap, rfl, .kept (by omega)⟩
  | succ k ih =>
      have hlist' : ∀ j, i + 1 ≤ j → j < i + 1 + k → NameAt v name j → ¬EndlessAt v j :=
        fun j h1 h2 => hlist j (by omega) (by omega)
      rw [fat16FindItemLoop_succ ht hname (by omega), show i + (k + 1) = i + 1 + k by omega]
      rw [FindRoom] at hroom
      by_cases hat : NameAt v name i
      · rw [if_pos hat] at hroom ⊢
        have hend' : (v.rootItem i).isDir →
            ∃ total, fat16GetDirItems v.disk (fatDirSector v.priv (v.rootItem i)) = .ok total := by
          intro hdir
          cases hitems : fat16GetDirItems v.disk (fatDirSector v.priv (v.rootItem i)) with
          | error fault => exact absurd ⟨hdir, fault, hitems⟩ (hlist i (Nat.le_refl i) (by omega) hat)
          | ok total => exact ⟨total, rfl⟩
        obtain ⟨made, heap₁, hmade, hnew⟩ := fat16NewItemForDir_ok hroom.1 hend'
        obtain ⟨result, heap', hloop, hfound⟩ := ih (by omega) hlist' (some made) (hroom.2 _ _ hmade)
        exact ⟨result, heap', bind_ok.2 ⟨_, hmade, hloop⟩,
          hfound.step (by omega) (.inr ⟨hat, made, rfl, hnew⟩)⟩
      · rw [if_neg hat] at hroom ⊢
        obtain ⟨result, heap', hloop, hfound⟩ := ih (by omega) hlist' item hroom
        exact ⟨result, heap', hloop, hfound.step (by omega) (.inl ⟨hat, rfl⟩)⟩

/-- 名前の合う項目の中に終わりの無いディレクトリがあると、探索も終わらない。 -/
theorem fat16FindItemLoop_error {k i : Nat} (hend : i + k ≤ v.rootEntries)
    (h : ∃ j, i ≤ j ∧ j < i + k ∧ NameAt v name j ∧ EndlessAt v j) (item : Option FatItem) {heap : Heap}
    (hroom : FindRoom v name k i heap) :
    ∃ fault, fat16FindItemLoop v.disk v.priv v.priv.root name k i item heap = .error fault := by
  induction k generalizing i item heap with
  | zero =>
      obtain ⟨j, h1, h2, -⟩ := h
      omega
  | succ k ih =>
      obtain ⟨j, h1, h2, hat, hendless⟩ := h
      rw [fat16FindItemLoop_succ ht hname (by omega)]
      rw [FindRoom] at hroom
      rcases Nat.eq_or_lt_of_le h1 with rfl | hlt
      · obtain ⟨hdir, fault, hitems⟩ := hendless
        rw [if_pos hat] at hroom ⊢
        rw [fat16NewItemForDir_error hroom.1 hdir hitems]
        exact ⟨fault, rfl⟩
      · have hrest : ∃ j, i + 1 ≤ j ∧ j < i + 1 + k ∧ NameAt v name j ∧ EndlessAt v j :=
          ⟨j, hlt, by omega, hat, hendless⟩
        by_cases hi : NameAt v name i
        · rw [if_pos hi] at hroom ⊢
          cases hmade : fat16NewItemForDir heap v.disk v.priv (v.rootItem i) with
          | error fault => exact ⟨fault, rfl⟩
          | ok made => exact ih (by omega) hrest made.1 (hroom.2 _ _ hmade)
        · rw [if_neg hi] at hroom ⊢
          exact ih (by omega) hrest item hroom

end

end EnkiOs
