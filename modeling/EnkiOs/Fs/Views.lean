import EnkiOs.Fs.Life
import EnkiOs.Fs.PathMemory
import EnkiOs.Fs.SeekTheorems
import EnkiOs.Lib.Simulation

/-!
# ファイルの見え方

開いたファイルを、番号から項目と位置への対応だけで定める。ヒープも、アドレスも、記述子の表も持たない。
-/

namespace EnkiOs
open Machine

/-! ## 呼び出し -/

inductive FileCall
  | fopen (fileName mode : List Byte)
  | fread (buf size blocks : Word) (fd : Int)
  | fseek (fd offset : Int) (mode : Nat)
  | fstat (fd : Int)
  | fclose (fd : Int)

/-- 返した値。 -/
inductive FileReply
  | code (result : Int)
  | stat (result : Except Int FileStat)

def fileCall (s : FileState) : FileCall → Except Fault (FileReply × FileState)
  | .fopen fileName mode => do
      let (fd, s) ← fopen s fileName mode
      return (.code fd, s)
  | .fread buf size blocks fd => do
      let (result, s) ← fread s buf size blocks fd
      return (.code result, s)
  | .fseek fd offset mode => do
      let (result, s) ← fseek s fd offset mode
      return (.code result, s)
  | .fstat fd => do
      let result ← fstat s fd
      return (.stat result, s)
  | .fclose fd => .ok (.code (fclose s fd).1, (fclose s fd).2)

/-! ## 一つのファイル -/

/-- 開いたファイル。`item` が `none` なのは、ディレクトリである。 -/
structure FileView where
  item : Option FatDirItem
  pos : Word

namespace FileView

/-- 位置は進まない。 -/
def read (d : Disk) (priv : FatPrivate) (view : FileView) (size blocks out : Word) (mem : Memory) : Except Fault (Int × Memory) :=
  match view.item with
  | none => .error .nullDeref
  | some item => do
      let (result, mem) ← fat16ReadLoop d priv (fat16GetFirstCluster item) size blocks.toNat view.pos.toInt out mem
      return (result.getD blocks.toInt, mem)

def seek (view : FileView) (offset : Word) (mode : Nat) : Int × FileView :=
  match view.item with
  | none => (-EINVARG, view)
  | some item =>
      let (result, pos) := seekResult item.fileSize view.pos offset mode
      (result, { view with pos := pos })

def stat (view : FileView) : Except Int FileStat :=
  match view.item with
  | none => .error (-EINVARG)
  | some item => .ok ⟨if item.attributeByte &&& FAT_FILE_READ_ONLY ≠ 0 then FILE_STAT_READ_ONLY else 0, item.fileSize⟩

end FileView

/-! ## すべてのファイル -/

/-- 名前の合う最後の項目。 -/
def FatDir.search (dir : FatDir) (name : List Byte) : Option FatDirItem :=
  ((List.range' 0 dir.total.toNat).filterMap dir.item?).reverse.find? fun entry =>
    istrncmp (byteAt (fat16FileNameResolve entry)) (byteAt name) ENKI_MAX_PATH = 0

/-- 読むことのできる項目。 -/
def FatDirItem.asFile (entry : FatDirItem) : Option FatDirItem :=
  if entry.attributeByte &&& FAT_FILE_SUBDIRECTORY ≠ 0 then none else some entry

structure FileViews where
  opened : Int → Option FileView
  mem : Memory

namespace FileViews

def set (f : FileViews) (fd : Int) (view : Option FileView) : FileViews :=
  { f with opened := fun i => if i = fd then view else f.opened i }

/-- 空いている最初の番号。 -/
def freeSlot (f : FileViews) : Option Nat :=
  (List.range' 0 ENKI_MAX_FILE_DESCRIPTORS).find? fun i => (f.opened ((i : Int) + 1)).isNone

/-- 経路の最初の部分を、ルートディレクトリから探す。 -/
def fopen (priv : FatPrivate) (f : FileViews) (fileName mode : List Byte) : Int × FileViews :=
  let (drive, path) := pathGetDrive fileName
  if ENKI_MAX_PATH < fileName.length ∨ drive < 0 then (-EINVARG, f)
  else
    match pathComponents path with
    | [] => (-EINVARG, f)
    | name :: _ =>
        if drive ≠ 0 then (- EIO, f)
        else if fileGetModeFromStr mode = .invalid then (-EINVARG, f)
        else
          match f.freeSlot with
          | none => (0, f)
          | some i => ((i : Int) + 1, f.set ((i : Int) + 1) (some ⟨(priv.root.search name).bind FatDirItem.asFile, 0⟩))

def fread (d : Disk) (priv : FatPrivate) (f : FileViews) (buf size blocks : Word) (fd : Int) : Except Fault (Int × FileViews) :=
  if size = 0 ∨ blocks = 0 then .ok (-EINVARG, f)
  else
    match f.opened fd with
    | none => .ok (-EINVARG, f)
    | some view => do
        let (result, mem) ← view.read d priv size blocks buf f.mem
        return (result, { f with mem := mem })

def fseek (f : FileViews) (fd offset : Int) (mode : Nat) : Int × FileViews :=
  match f.opened fd with
  | none => (- EIO, f)
  | some view =>
      let (result, view) := view.seek (BitVec.ofInt 32 offset) mode
      (result, f.set fd (some view))

def fstat (f : FileViews) (fd : Int) : Except Int FileStat :=
  match f.opened fd with
  | none => .error (- EIO)
  | some view => view.stat

def fclose (f : FileViews) (fd : Int) : Int × FileViews :=
  match f.opened fd with
  | none => (- EIO, f)
  | some _ => (0, f.set fd none)

def call (d : Disk) (priv : FatPrivate) (f : FileViews) : FileCall → Except Fault (FileReply × FileViews)
  | .fopen fileName mode => .ok (.code (f.fopen priv fileName mode).1, (f.fopen priv fileName mode).2)
  | .fread buf size blocks fd => do
      let (result, f) ← f.fread d priv buf size blocks fd
      return (.code result, f)
  | .fseek fd offset mode => .ok (.code (f.fseek fd offset mode).1, (f.fseek fd offset mode).2)
  | .fstat fd => .ok (.stat (f.fstat fd), f)
  | .fclose fd => .ok (.code (f.fclose fd).1, (f.fclose fd).2)

/-- 何も開いていない。 -/
def start (mem : Memory) : FileViews := ⟨fun _ => none, mem⟩

end FileViews

/-! ## 記述子の見え方 -/

def FatItem.asFile (item : FatItem) : Option FatDirItem :=
  match item.type with
  | .file (some (_, entry)) => some entry
  | _ => none

def FatFileDescriptor.view (content : FatFileDescriptor) : FileView := ⟨content.item.asFile, content.pos⟩

variable {d : Disk} {priv : FatPrivate} {content : FatFileDescriptor} {heap heap' : Heap} {made : FatItem}

theorem FatItem.Complete.cases {item : FatItem} (hc : item.Complete) :
    (∃ addr entry, item.type = .file (some (addr, entry)) ∧ item.asFile = some entry) ∨
      item.type = .dir none ∧ item.asFile = none := by
  obtain ⟨addr, type⟩ := item
  cases type with
  | dir dir =>
      cases dir with
      | none => exact .inr ⟨rfl, rfl⟩
      | some dir => exact hc.elim
  | file item =>
      cases item with
      | none => exact hc.elim
      | some item => exact .inl ⟨item.1, item.2, rfl, rfl⟩

theorem fat16Read_view (hc : content.item.Complete) (size blocks out : Word) (mem : Memory) :
    fat16Read d priv content size blocks out mem = content.view.read d priv size blocks out mem := by
  rw [fat16Read, FileView.read, FatFileDescriptor.view, FatItem.dirItem]
  rcases hc.cases with ⟨addr, entry, htype, hview⟩ | ⟨htype, hview⟩
  · simp only [htype, hview]
    rfl
  · simp only [htype, hview]
    rfl

theorem fat16Seek_view (hc : content.item.Complete) (offset : Word) (mode : Nat) :
    fat16Seek content offset mode =
      .ok ((content.view.seek offset mode).1, { content with pos := (content.view.seek offset mode).2.pos }) := by
  rcases hc.cases with ⟨addr, entry, htype, hview⟩ | ⟨htype, hview⟩
  · have hitem : content.item.dirItem = .ok entry := by rw [FatItem.dirItem, htype]
    rw [fat16Seek_eq hitem]
    simp only [FileView.seek, FatFileDescriptor.view, hview]
  · simp only [fat16Seek, FileView.seek, FatFileDescriptor.view, htype, hview]

theorem fat16Stat_view (hc : content.item.Complete) : fat16Stat content = .ok content.view.stat := by
  rcases hc.cases with ⟨addr, entry, htype, hview⟩ | ⟨htype, hview⟩
  · simp only [fat16Stat, FileView.stat, FatFileDescriptor.view, htype, hview]
  · simp only [fat16Stat, FileView.stat, FatFileDescriptor.view, htype, hview]

/-- 動くのは位置だけである。 -/
theorem FileView.seek_eq (view : FileView) (offset : Word) (mode : Nat) :
    (view.seek offset mode).2 = { view with pos := (view.seek offset mode).2.pos } := by
  rw [FileView.seek]
  split
  · rfl
  · rfl

/-! ## 探索 -/

theorem fat16NewItemForDir_view {entry : FatDirItem} (h : fat16NewItemForDir heap d priv entry = .ok (some made, heap'))
    (hc : made.Complete) : made.asFile = entry.asFile := by
  simp only [fat16NewItemForDir] at h
  rw [FatDirItem.asFile]
  split at h
  · cases h
  · split at h
    · rename_i hdir
      obtain ⟨⟨dir, heap₁⟩, -, h⟩ := bind_ok.1 h
      cases h
      rw [if_pos hdir]
      rfl
    · rename_i hfile
      rw [if_neg hfile]
      simp only [fat16CloneDirItem] at h
      split at h
      · cases h
        exact hc.elim
      · cases h
        rfl

/-- 見つけた項目は、名前の合う最後の項目のものである。 -/
theorem fat16FindItemLoop_view {dir : FatDir} {name : List Byte} {k i : Nat} {start : Option FatItem}
    (h : fat16FindItemLoop d priv dir name k i start heap = .ok (some made, heap')) (hc : made.Complete) :
    match ((List.range' i k).filterMap dir.item?).reverse.find? fun entry =>
        istrncmp (byteAt (fat16FileNameResolve entry)) (byteAt name) ENKI_MAX_PATH = 0 with
    | some entry => made.asFile = entry.asFile
    | none => start = some made := by
  induction k generalizing i start heap with
  | zero =>
      cases h
      rfl
  | succ k ih =>
      rw [fat16FindItemLoop] at h
      split at h
      · cases h
      · rename_i entry hentry
        rw [List.range'_succ, List.filterMap_cons, hentry]
        simp only [List.reverse_cons, List.find?_append]
        split at h
        · rename_i hname
          obtain ⟨⟨item, heap₁⟩, hitem, h⟩ := bind_ok.1 h
          have hrest := ih h
          -- 後の項目が合わなければ、この項目が最後である。
          split at hrest
          · rename_i entry' hfind
            rw [hfind]
            exact hrest
          · rename_i hfind
            rw [hfind, Option.none_or, List.find?_singleton, if_pos (decide_eq_true hname)]
            subst hrest
            exact fat16NewItemForDir_view hitem hc
        · rename_i hname
          have hrest := ih h
          rw [List.find?_singleton, if_neg (by simpa using hname), Option.or_none]
          exact hrest

/-- 経路がルートディレクトリの項目で終わるなら、開いた項目は、名前の合う最後の項目である。 -/
theorem fat16Open_view {part : List Byte} {mode : FileMode} {addr : Word}
    (h : fat16Open heap d priv part [] mode = .ok (addr, some content, heap')) (hc : content.item.Complete) :
    content.view = ⟨(priv.root.search part).bind FatDirItem.asFile, 0⟩ := by
  simp only [fat16Open] at h
  split at h
  · cases h
  · split at h
    · cases h
    · obtain ⟨⟨item, heap₁⟩, hitem, h⟩ := bind_ok.1 h
      cases item with
      | none => cases h
      | some item =>
          cases h
          obtain ⟨⟨root, heap₂⟩, hroot, hwalk⟩ := bind_ok.1 hitem
          cases root with
          | none => cases hwalk
          | some root =>
              cases hwalk
              have hview := fat16FindItemLoop_view hroot hc
              rw [FatFileDescriptor.view, FatDir.search]
              split at hview
              · rename_i entry hfind
                rw [hfind, Option.bind_some, hview]
              · cases hview

/-- 探索の割り当てに失敗が無ければ、記述子ができるのは、経路がルートディレクトリの項目で終わるときだけである。 -/
theorem fat16Open_root {part : List Byte} {next : List (List Byte)} {mode : FileMode} {addr : Word}
    (hcomplete : ∀ item heap', fat16FindItemInDir (kzalloc heap 8).2 d priv priv.root part = .ok (some item, heap') →
      item.Complete)
    (h : fat16Open heap d priv part next mode = .ok (addr, some content, heap')) : next = [] := by
  cases next with
  | nil => rfl
  | cons p rest =>
      simp only [fat16Open] at h
      split at h
      · cases h
      · split at h
        · cases h
        · obtain ⟨⟨item, heap₁⟩, hitem, h⟩ := bind_ok.1 h
          obtain ⟨⟨root, heap₂⟩, hroot, hwalk⟩ := bind_ok.1 hitem
          cases root with
          | none =>
              cases hwalk
              cases h
          | some root =>
              obtain ⟨raddr, type⟩ := root
              rcases (hcomplete _ heap₂ hroot).cases with ⟨copy, entry, htype, -⟩ | ⟨htype, -⟩
              · cases htype
                cases hwalk
                cases h
              · cases htype
                cases hwalk

/-- 読み取った経路の部分は、文字の並びだけで決まる。 -/
theorem pathParseParts_names {path : List Byte} {parts : List PathPart} (h : pathParseParts heap path = .ok (parts, heap')) :
    parts.map PathPart.name = pathComponents path := by
  induction hn : path.length using Nat.strongRecOn generalizing path parts heap with
  | ind n ih =>
      subst hn
      rw [pathComponents_eq]
      cases hpart : pathParsePart heap path with
      | error fault =>
          rw [pathParseParts] at h
          split at h
          · cases h
          · rename_i heq
            cases heq.symm.trans hpart
          · rename_i heq
            cases heq.symm.trans hpart
      | ok read =>
          obtain ⟨part, rest, heap₁⟩ := read
          have hnone := pathParsePart_none_iff hpart
          cases part with
          | none =>
              cases (pathParseParts_end hpart).symm.trans h
              rw [if_pos (hnone.1 rfl)]
              rfl
          | some part =>
              rw [pathParseParts_next hpart] at h
              obtain ⟨⟨parts, heap₂⟩, hparts, h⟩ := bind_ok.1 h
              cases h
              have hne : (pathSplit path).1 ≠ [] := fun hnil => by cases hnone.2 hnil
              have hdec := pathParsePart_decreases hpart
              have hread : part.name = (pathSplit path).1 ∧ rest = (pathSplit path).2 := by
                obtain ⟨⟨got, rest₁, heap₃⟩, hget, hpart⟩ := bind_ok.1 hpart
                simp only [pathGetPart, if_neg hne] at hget
                split at hget
                · cases hget
                · cases hget
                  simp only at hpart
                  split at hpart
                  · cases hpart
                  · cases hpart
                    exact ⟨rfl, rfl⟩
              rw [if_neg hne, List.map_cons, ih _ hdec hparts rfl, hread.1, hread.2]

end EnkiOs
