import EnkiOs.Fat.Basic

/-!
# 経路とファイル

`kernel/fs/path.c` と `kernel/fs/file.c`。文字列は、終わりの 0 の手前までのバイトの並びで渡す。
ファイルシステムは FAT16 だけ、ディスクは一台だけなので、記述子の `fs` と `disk` は持たない。
-/

namespace EnkiOs
open Machine

/-! ## 経路 -/

/-- `struct path_part`。`name` は `part` の指す文字列である。 -/
structure PathPart where
  addr : Word
  part : Word
  name : List Byte

/-- `struct path_root`。`parts` は `first` から `next` をたどった並びである。 -/
structure PathRoot where
  addr : Word
  driveNo : Int
  parts : List PathPart

def isdigit (c : Byte) : Bool := 48 ≤ c.toInt ∧ c.toInt ≤ 57

def todigit (c : Byte) : Int := c.toInt - 48

def pathIsValid (path : List Byte) : Bool :=
  3 ≤ min path.length ENKI_MAX_PATH ∧ isdigit (byteAt path 0) ∧ byteAt path 1 = 0x3A ∧ byteAt path 2 = 0x2F

/-- ドライブの番号と、残りの経路を返す。 -/
def pathGetDrive (path : List Byte) : Int × List Byte :=
  if pathIsValid path then (todigit (byteAt path 0), path.drop 3) else (-EBADPATH, path)

/-- 割り当ての失敗は調べずに、空のポインタへ書く。 -/
def pathCreateRoot (heap : Heap) (driveNo : Int) : Except Fault (PathRoot × Heap) :=
  let (root, heap) := kzalloc heap 8
  if root = 0 then .error .nullDeref else .ok (⟨root, driveNo, []⟩, heap)

/-- 区切りの手前までの文字と、区切りを一つだけ除いた残り。 -/
def pathSplit (path : List Byte) : List Byte × List Byte :=
  let part := path.takeWhile (· ≠ 0x2F)
  (part, path.drop (part.length + 1))

theorem pathSplit_decreases {path : List Byte} (h : (pathSplit path).1 ≠ []) :
    (pathSplit path).2.length < path.length := by
  cases path with
  | nil => exact absurd rfl h
  | cons c path =>
      simp only [pathSplit, List.length_drop, List.length_cons]
      omega

def pathGetPart (heap : Heap) (path : List Byte) :
    Except Fault (Option (Word × List Byte) × List Byte × Heap) :=
  let (part, heap) := kzalloc heap ENKI_MAX_PATH
  let (name, rest) := pathSplit path
  if name = [] then .ok (none, rest, kfree heap part)
  else if part = 0 then .error .nullDeref
  else .ok (some (part, name), rest, heap)

/-- 何も読めなかったら `none` を返す。 -/
def pathParsePart (heap : Heap) (path : List Byte) :
    Except Fault (Option PathPart × List Byte × Heap) := do
  let (part, path, heap) ← pathGetPart heap path
  match part with
  | none => return (none, path, heap)
  | some (partStr, name) =>
      let (addr, heap) := kzalloc heap 8
      if addr = 0 then throw .nullDeref
      return (some ⟨addr, partStr, name⟩, path, heap)

theorem pathParsePart_decreases {heap heap' : Heap} {path rest : List Byte} {part : PathPart}
    (h : pathParsePart heap path = .ok (some part, rest, heap')) : rest.length < path.length := by
  obtain ⟨⟨got, rest', heap₁⟩, hget, h⟩ := bind_ok.1 h
  cases got with
  | none => cases h
  | some got =>
      have hrest : rest = rest' := by
        simp only at h
        split at h <;> cases h
        rfl
      simp only [pathGetPart] at hget
      split at hget
      · cases hget
      · rename_i hne
        split at hget
        · cases hget
        · cases hget
          rw [hrest]
          exact pathSplit_decreases hne

/-- 部分が読めなくなるまで、順に読む。 -/
def pathParseParts (heap : Heap) (path : List Byte) : Except Fault (List PathPart × Heap) :=
  match _h : pathParsePart heap path with
  | .error fault => .error fault
  | .ok (none, _, heap) => .ok ([], heap)
  | .ok (some part, rest, heap) => do
      let (parts, heap) ← pathParseParts heap rest
      return (part :: parts, heap)
termination_by path.length
decreasing_by exact pathParsePart_decreases _h

/-- 経路が長すぎるか、ドライブの指定が正しくなければ `none` を返す。 -/
def pathParse (heap : Heap) (path : List Byte) : Except Fault (Option PathRoot × Heap) := do
  if ENKI_MAX_PATH < path.length then return (none, heap)
  let (drive, path) := pathGetDrive path
  if drive < 0 then return (none, heap)
  let (root, heap) ← pathCreateRoot heap drive
  let (parts, heap) ← pathParseParts heap path
  return (some { root with parts := parts }, heap)

def pathFree (heap : Heap) (root : PathRoot) : Heap :=
  kfree (root.parts.foldl (fun heap part => kfree (kfree heap part.part) part.addr) heap) root.addr

/-! ## ファイルの記述子 -/

structure FileDescriptor where
  index : Int
  privateData : Word

/-- ファイルに関わるカーネルの状態。記述子の内容は、アドレスごとに持つ。`priv` が `none` なのは、ディスクに
ファイルシステムが見つからなかったときである。 -/
structure FileState where
  heap : Heap
  mem : Memory
  disk : Disk
  priv : Option FatPrivate
  fatFiles : Word → FatFileDescriptor
  files : Word → FileDescriptor
  fileDescriptors : Nat → Word

/-- `file_descriptors[desc->index-1] = 0` -/
def fileFreeDescriptor (s : FileState) (desc : Word) : FileState :=
  let i := ((s.files desc).index - 1).toNat
  { s with
    fileDescriptors := fun j => if j = i then 0 else s.fileDescriptors j
    heap := kfree s.heap desc }

/-- 空いている最初の番号。残りの回数と `i` を持つ。 -/
def fileFreeSlot (s : FileState) : Nat → Nat → Option Nat
  | 0, _ => none
  | k + 1, i => if s.fileDescriptors i = 0 then some i else fileFreeSlot s k (i + 1)

/-- 割り当ての失敗は調べずに、空のポインタへ書く。空いた番号が無ければ `none` を返す。 -/
def fileNewDescriptor (s : FileState) : Except Fault (Option Word × FileState) :=
  match fileFreeSlot s ENKI_MAX_FILE_DESCRIPTORS 0 with
  | none => .ok (none, s)
  | some i =>
      let (desc, heap) := kzalloc s.heap 16
      if desc = 0 then .error .nullDeref
      else .ok (some desc, { s with
        heap := heap
        files := fun a => if a = desc then ⟨i + 1, 0⟩ else s.files a
        fileDescriptors := fun j => if j = i then desc else s.fileDescriptors j })

/-- 記述子が無ければ 0 を返す。 -/
def fileGetDescriptor (s : FileState) (fd : Int) : Word :=
  if fd ≤ 0 ∨ ENKI_MAX_FILE_DESCRIPTORS ≤ fd then 0 else s.fileDescriptors (fd - 1).toNat

/-- 先頭の一文字だけを比べる。 -/
def fileGetModeFromStr (s : List Byte) : FileMode :=
  if byteAt s 0 = 0x72 then .read
  else if byteAt s 0 = 0x77 then .write
  else if byteAt s 0 = 0x61 then .append
  else .invalid

/-! ## ファイルの操作 -/

/-- `fopen` の後半。記述子の番号を返し、番号が足りなければ 0 を返す。 -/
def fopenDescriptor (s : FileState) (descPrivate : Word) : Except Fault (Int × FileState) := do
  let (desc, s) ← fileNewDescriptor s
  match desc with
  | none => return (0, s)
  | some desc =>
      let index := (s.files desc).index
      return (index, { s with
        files := fun a => if a = desc then { s.files a with privateData := descPrivate } else s.files a })

/-- `desc_private < 0` はポインタの比較なので、成り立たない。`fat16_open` のエラーも、そのまま記述子に入る。 -/
def fopen (s : FileState) (fileName mode : List Byte) : Except Fault (Int × FileState) := do
  let (root, heap) ← pathParse s.heap fileName
  let s := { s with heap := heap }
  match root with
  | none => return (-EINVARG, s)
  | some root =>
    match root.parts with
    | [] => return (-EINVARG, s)
    | first :: next =>
      if root.driveNo ≠ 0 then return (- EIO, s)
      match s.priv with
      | none => return (- EIO, s)
      | some priv =>
        let fmode := fileGetModeFromStr mode
        if fmode = .invalid then return (-EINVARG, s)
        let (descPrivate, content, heap) ← fat16Open s.heap s.disk priv first.name (next.map (·.name)) fmode
        let s := { s with
          heap := heap
          fatFiles := fun a => if a = descPrivate then content.getD (s.fatFiles a) else s.fatFiles a }
        fopenDescriptor s descPrivate

/-- `priv` が無いのに記述子があることはない。 -/
def fread (s : FileState) (buf size blocks : Word) (fd : Int) : Except Fault (Int × FileState) := do
  if size = 0 ∨ blocks = 0 ∨ fd < 1 then return (-EINVARG, s)
  let desc := fileGetDescriptor s fd
  if desc = 0 then return (-EINVARG, s)
  match s.priv with
  | none => throw .nullDeref
  | some priv =>
      let (result, mem) ← fat16Read s.disk priv (s.fatFiles (s.files desc).privateData) size blocks buf s.mem
      return (result, { s with mem := mem })

def fclose (s : FileState) (fd : Int) : Int × FileState :=
  let desc := fileGetDescriptor s fd
  if desc = 0 then (- EIO, s)
  else
    let private_ := (s.files desc).privateData
    let (result, heap) := fat16Close s.heap private_ (s.fatFiles private_)
    let s := { s with heap := heap }
    if result = 0 then (0, fileFreeDescriptor s desc) else (0, s)

def fseek (s : FileState) (fd : Int) (offset : Int) (mode : Nat) : Except Fault (Int × FileState) := do
  let desc := fileGetDescriptor s fd
  if desc = 0 then return (- EIO, s)
  let private_ := (s.files desc).privateData
  let (result, content) ← fat16Seek (s.fatFiles private_) (BitVec.ofInt 32 offset) mode
  return (result, { s with fatFiles := fun a => if a = private_ then content else s.fatFiles a })

def fstat (s : FileState) (fd : Int) : Except Fault (Except Int FileStat) :=
  let desc := fileGetDescriptor s fd
  if desc = 0 then .ok (.error (- EIO)) else fat16Stat (s.fatFiles (s.files desc).privateData)

end EnkiOs
