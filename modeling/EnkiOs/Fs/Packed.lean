import EnkiOs.Fat.Lemmas.Lookup
import EnkiOs.Fs.Lemmas
import Mathlib.Data.List.TakeWhile

/-!
# 詰まったヒープでファイルを開く

起動してから割り当てだけを行ったヒープで、ルートディレクトリのファイルを開いたときの結果を定める。
-/

namespace EnkiOs
open Machine

/-! ## 経路 -/

theorem pathSplit_of_not_mem {name : List Byte} (h : 0x2F ∉ name) : pathSplit name = (name, []) := by
  have htake : name.takeWhile (· ≠ 0x2F) = name := by
    rw [List.takeWhile_eq_self_iff]
    intro c hc
    simp only [decide_eq_true_eq]
    rintro rfl
    exact h hc
  simp only [pathSplit, htake, List.drop_eq_nil_of_le (Nat.le_succ _)]

theorem pathParsePart_nil {heap : Heap} {b : Nat} (hp : Packed heap b) (hb : b < 25600) :
    ∃ heap', pathParsePart heap [] = .ok (none, [], heap') ∧ Packed heap' b := by
  refine ⟨_, rfl, hp.kzalloc_kfree (show 0 < ENKI_MAX_PATH by decide) (by decide) ?_⟩
  show b + 1 ≤ 25600
  omega

theorem pathParsePart_name {heap : Heap} {b : Nat} (hp : Packed heap b) (hb : b + 2 ≤ 25600) {name : List Byte}
    (hne : name ≠ []) (hslash : 0x2F ∉ name) :
    ∃ heap', pathParsePart heap name = .ok (some ⟨blockAddr (b + 1), blockAddr b, name⟩, [], heap') ∧
      Packed heap' (b + 2) := by
  obtain ⟨heap₁, h1, hne1, hp1⟩ := hp.small (show 0 < ENKI_MAX_PATH by decide) (by decide) (by omega)
  obtain ⟨heap₂, h2, hne2, hp2⟩ := hp1.small (show 0 < 8 by decide) (by decide) (by omega)
  refine ⟨heap₂, ?_, hp2⟩
  simp only [pathParsePart, pathGetPart, pathSplit_of_not_mem hslash, hne, if_false, h1, hne1, bind, Except.bind, h2,
    hne2]
  rfl

theorem pathParse_packed {heap : Heap} {b : Nat} (hp : Packed heap b) (hb : b + 4 ≤ 25600) {name : List Byte}
    (hne : name ≠ []) (hslash : 0x2F ∉ name) (hlen : name.length ≤ 105) :
    ∃ heap', pathParse heap (0x30 :: 0x3A :: 0x2F :: name) =
      .ok (some ⟨blockAddr b, 0, [⟨blockAddr (b + 2), blockAddr (b + 1), name⟩]⟩, heap') ∧ Packed heap' (b + 3) := by
  obtain ⟨heap₁, h1, hne1, hp1⟩ := hp.small (show 0 < 8 by decide) (by decide) (by omega)
  obtain ⟨heap₂, h2, hp2⟩ := pathParsePart_name hp1 (by omega) hne hslash
  obtain ⟨heap₃, h3, hp3⟩ := pathParsePart_nil hp2 (by omega)
  have hrest : pathParseParts heap₂ [] = .ok ([], heap₃) := by
    rw [pathParseParts]
    split
    · rename_i h
      cases h3.symm.trans h
    · rename_i h
      cases h3.symm.trans h
      rfl
    · rename_i h
      cases h3.symm.trans h
  have hparts : pathParseParts heap₁ name = .ok ([⟨blockAddr (b + 2), blockAddr (b + 1), name⟩], heap₃) := by
    rw [pathParseParts]
    split
    · rename_i h
      cases h2.symm.trans h
    · rename_i h
      cases h2.symm.trans h
    · rename_i h
      cases h2.symm.trans h
      rw [hrest]
      rfl
  have hdrive : pathGetDrive (0x30 :: 0x3A :: 0x2F :: name) = (0, name) := by
    have hmin : 3 ≤ min (0x30 :: 0x3A :: 0x2F :: name : List Byte).length ENKI_MAX_PATH := by
      refine Nat.le_min.2 ⟨?_, by decide⟩
      simp only [List.length_cons]
      omega
    have hvalid : pathIsValid (0x30 :: 0x3A :: 0x2F :: name) = true := decide_eq_true ⟨hmin, rfl, rfl, rfl⟩
    rw [pathGetDrive, if_pos hvalid]
    rfl
  have hshort : ¬ENKI_MAX_PATH < (0x30 :: 0x3A :: 0x2F :: name : List Byte).length := by
    simp only [List.length_cons, ENKI_MAX_PATH]
    omega
  refine ⟨heap₃, ?_, hp3⟩
  simp only [pathParse, hshort, if_false, hdrive, Int.lt_irrefl, pathCreateRoot, h1, hne1, bind, Except.bind, hparts]
  rfl

/-! ## ファイルを開く -/

theorem fat16NewItemForDir_packed {v : Volume} {heap : Heap} {b : Nat} (hp : Packed heap b) (hb : b + 2 ≤ 25600)
    {item : FatDirItem} (hfile : ¬item.isDir) :
    ∃ heap', fat16NewItemForDir heap v.disk v.priv item =
      .ok (some ⟨blockAddr b, .file (some (blockAddr (b + 1), item))⟩, heap') ∧ Packed heap' (b + 2) := by
  obtain ⟨heap₁, h1, hne1, hp1⟩ := hp.small (show 0 < 8 by decide) (by decide) (by omega)
  obtain ⟨heap₂, h2, hne2, hp2⟩ := hp1.small (show 0 < FAT_DIR_ITEM_SIZE by decide) (by decide) (by omega)
  refine ⟨heap₂, ?_, hp2⟩
  simp only [fat16NewItemForDir, h1, hne1, if_false, if_neg (show ¬_ ≠ _ from hfile), fat16CloneDirItem, h2, hne2]
  rfl

theorem fopenDescriptor_packed {s : FileState} {b i : Nat} (hp : Packed s.heap b) (hb : b < 25600)
    (hslot : fileFreeSlot s ENKI_MAX_FILE_DESCRIPTORS 0 = some i) (descPrivate : Word) :
    ∃ s', fopenDescriptor s descPrivate = .ok ((i : Int) + 1, s') ∧ s'.mem = s.mem ∧ Occupied s s' i ∧
      s'.descriptor (i + 1) = s.fatFiles descPrivate ∧ Packed s'.heap (b + 1) := by
  obtain ⟨heap', h, hne, hp'⟩ := hp.small (show 0 < 16 by decide) (by decide) hb
  have hidx : ((i : Int) + 1 - 1).toNat = i := by omega
  simp only [fopenDescriptor, fileNewDescriptor, hslot, h, hne, if_false, bind, Except.bind, if_true]
  refine ⟨_, rfl, rfl, ⟨rfl, rfl, ?_, fun j hj => if_neg hj⟩, ?_, hp'⟩
  · simpa using hne
  · simp only [FileState.descriptor, hidx, if_true]

/-- 名前がただ一つの項目に合う。 -/
structure OnlyAt (v : Volume) (name : List Byte) (n j : Nat) : Prop where
  lt : j < n
  at_name : NameAt v name j
  only : ∀ j' < n, NameAt v name j' → j' = j
  file : ¬(v.rootItem j).isDir

section

variable {v : Volume} {t : Nat} (ht : RootTerminated v.disk v.priv.header t) {name : List Byte} (hname : 0 ∉ name)
include ht hname

theorem fat16FindItemLoop_skip {k i : Nat} (hend : i + k ≤ v.rootEntries)
    (hno : ∀ j, i ≤ j → j < i + k → ¬NameAt v name j) (item : Option FatItem) (heap : Heap) :
    fat16FindItemLoop v.disk v.priv v.priv.root name k i item heap = .ok (item, heap) := by
  induction k generalizing i with
  | zero => rfl
  | succ k ih =>
      rw [fat16FindItemLoop_succ ht hname (by omega), if_neg (hno i (Nat.le_refl i) (by omega))]
      exact ih (by omega) fun j h1 h2 => hno j (by omega) (by omega)

theorem fat16FindItemLoop_packed {k i j : Nat} (hend : i + k ≤ v.rootEntries) (hij : i ≤ j) (hj : OnlyAt v name (i + k) j)
    (item : Option FatItem) {heap : Heap} {b : Nat} (hp : Packed heap b) (hb : b + 2 ≤ 25600) :
    ∃ heap', fat16FindItemLoop v.disk v.priv v.priv.root name k i item heap =
      .ok (some ⟨blockAddr b, .file (some (blockAddr (b + 1), v.rootItem j))⟩, heap') ∧ Packed heap' (b + 2) := by
  induction k generalizing i with
  | zero =>
      have := hj.lt
      omega
  | succ k ih =>
      have hj' : OnlyAt v name (i + 1 + k) j := by
        rw [show i + 1 + k = i + (k + 1) by omega]
        exact hj
      rw [fat16FindItemLoop_succ ht hname (by omega)]
      rcases Nat.eq_or_lt_of_le hij with rfl | hlt
      · obtain ⟨heap', hnew, hp'⟩ := fat16NewItemForDir_packed hp hb hj.file
        rw [if_pos hj.at_name, hnew]
        refine ⟨heap', ?_, hp'⟩
        apply fat16FindItemLoop_skip ht hname (by omega)
        intro j' h1 h2 hat
        have := hj'.only j' h2 hat
        omega
      · have hno : ¬NameAt v name i := by
          intro hat
          have := hj.only i (by omega) hat
          omega
        rw [if_neg hno]
        exact ih (by omega) hlt hj'

theorem fat16Open_packed {j : Nat} (hj : OnlyAt v name v.priv.root.total.toNat j) (hle : t ≤ v.rootEntries)
    {heap : Heap} {b : Nat} (hp : Packed heap b) (hb : b + 3 ≤ 25600) :
    ∃ heap', fat16Open heap v.disk v.priv name [] .read = .ok (blockAddr b,
      some ⟨⟨blockAddr (b + 1), .file (some (blockAddr (b + 2), v.rootItem j))⟩, 0⟩, heap') ∧ Packed heap' (b + 3) := by
  have htotal : v.priv.root.total.toNat ≤ v.rootEntries := by
    rw [Volume.root_total ht, Int.toNat_natCast]
    exact Nat.le_trans (v.disk.liveItems_le _ _) hle
  obtain ⟨heap₁, h1, hne1, hp1⟩ := hp.small (show 0 < 8 by decide) (by decide) (by omega)
  have hj' : OnlyAt v name (0 + v.priv.root.total.toNat) j := by
    rw [Nat.zero_add]
    exact hj
  obtain ⟨heap₂, h2, hp2⟩ := fat16FindItemLoop_packed ht hname (by omega) (Nat.zero_le j) hj' none hp1 (by omega)
  refine ⟨heap₂, ?_, hp2⟩
  have hentry : fat16GetDirEntry heap₁ v.disk v.priv name [] =
      .ok (some ⟨blockAddr (b + 1), .file (some (blockAddr (b + 2), v.rootItem j))⟩, heap₂) := by
    simp only [fat16GetDirEntry, fat16FindItemInDir, h2, bind, Except.bind]
    rfl
  simp only [fat16Open, ne_eq, not_true_eq_false, if_false, h1, hne1, hentry, bind, Except.bind]
  rfl

/-- ルートディレクトリのファイルを開くと、空いている最初の番号が返り、そのファイルが先頭から読める。 -/
theorem fopen_packed {j : Nat} (hj : OnlyAt v name v.priv.root.total.toNat j) (hle : t ≤ v.rootEntries)
    (hne : name ≠ []) (hslash : 0x2F ∉ name) (hlen : name.length ≤ 105) {s : FileState} (hdisk : s.disk = v.disk)
    (hpriv : s.priv = some v.priv) {b : Nat} (hp : Packed s.heap b) (hb : b + 7 ≤ 25600) {i : Nat}
    (hslot : fileFreeSlot s ENKI_MAX_FILE_DESCRIPTORS 0 = some i) :
    ∃ s', fopen s (0x30 :: 0x3A :: 0x2F :: name) [0x72] = .ok ((i : Int) + 1, s') ∧
      Opened s' v (i + 1) (v.rootItem j) ∧ Packed s'.heap (b + 7) ∧ s'.mem = s.mem ∧ Occupied s s' i := by
  obtain ⟨heap₁, h1, hp1⟩ := pathParse_packed hp (by omega) hne hslash hlen
  obtain ⟨heap₂, h2, hp2⟩ := fat16Open_packed ht hname hj hle hp1 (by omega)
  have hi : i < 512 := by
    have := fileFreeSlot_lt hslot
    omega
  have hidx : ((i : Int) + 1 - 1).toNat = i := by omega
  rw [← hdisk] at h2
  obtain ⟨s₁, hs₁⟩ : ∃ s₁ : FileState, s₁ = { s with
      heap := heap₂
      fatFiles := fun a => if a = blockAddr (b + 3) then
        (some ⟨⟨blockAddr (b + 3 + 1), .file (some (blockAddr (b + 3 + 2), v.rootItem j))⟩, 0⟩ :
          Option FatFileDescriptor).getD (s.fatFiles a) else s.fatFiles a } := ⟨_, rfl⟩
  have hslot₁ : fileFreeSlot s₁ ENKI_MAX_FILE_DESCRIPTORS 0 = some i := by
    rw [fileFreeSlot_congr (show s₁.fileDescriptors = s.fileDescriptors by rw [hs₁])]
    exact hslot
  have hp₁ : Packed s₁.heap (b + 3 + 3) := by
    rw [hs₁]
    exact hp2
  obtain ⟨s', h3, hm, hocc, hdesc, hp3⟩ := fopenDescriptor_packed hp₁ (by omega) hslot₁ (blockAddr (b + 3))
  subst hs₁
  refine ⟨s', ?_, ?_, hp3, hm, { hocc with }⟩
  · refine bind_ok.2 ⟨_, h1, ?_⟩
    have hmode : fileGetModeFromStr [0x72] = .read := rfl
    simp only [hpriv] at h3
    simp only [hpriv, ne_eq, not_true_eq_false, if_false, hmode, reduceCtorEq, List.map_nil]
    exact bind_ok.2 ⟨_, h2, h3⟩
  · simp only [if_true, Option.getD_some] at hdesc
    constructor
    · rw [hocc.disk_eq, ← hdisk]
    · rw [hocc.priv_eq, ← hpriv]
    · omega
    · show (i : Int) + 1 ≤ (512 : Nat)
      omega
    · rw [hidx]
      exact hocc.used
    · rw [hdesc]
      rfl
    · rw [hdesc]

end

end EnkiOs
