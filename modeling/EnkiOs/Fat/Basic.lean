import EnkiOs.Disk.Basic
import EnkiOs.Heap.Basic
import EnkiOs.Lib.Memory

/-!
# FAT16

`kernel/fs/fat16.c`。ディスクから読むバイトは `diskStreamRead` が返すもので、構造体の項目はそのバイトから取り出す。
ヒープに置く構造体は、アドレスと内容の組で持つ。

流れの位置は、どの読み取りの前にも `disk_stream_seek` で決め直すので、状態には持たない。
-/

namespace EnkiOs
open Machine

abbrev ENKI_FAT16_SIGNATURE : Byte := 0x29
abbrev ENKI_FAT16_ENTRY_SIZE : Int := 0x02

abbrev FAT_FILE_READ_ONLY : Byte := 0x01
abbrev FAT_FILE_VOLUME_LABEL : Byte := 0x08
abbrev FAT_FILE_SUBDIRECTORY : Byte := 0x10

/-! ## データの形 -/

/-- `struct fat_h` のうち使う項目。 -/
structure FatHeader where
  sectPerCluster : Byte
  reservedSectors : BitVec 16
  numberOfFat : Byte
  rootEntries : BitVec 16
  sectorsPerFat : BitVec 16
  extBootSignature : Byte

/-- `sizeof(struct fat_h)` -/
abbrev FAT_HEADER_SIZE : Nat := 62

def FatHeader.ofBytes (bytes : List Byte) : FatHeader where
  sectPerCluster := byteAt bytes 13
  reservedSectors := halfAt bytes 14
  numberOfFat := byteAt bytes 16
  rootEntries := halfAt bytes 17
  sectorsPerFat := halfAt bytes 22
  extBootSignature := byteAt bytes 38

/-- `sizeof(struct fat_dir_item)` -/
abbrev FAT_DIR_ITEM_SIZE : Nat := 32

/-- `struct fat_dir_item`。写しは全体を写すので、32 バイトのまま持つ。 -/
structure FatDirItem where
  bytes : List Byte
  length_eq : bytes.length = FAT_DIR_ITEM_SIZE
deriving DecidableEq

namespace FatDirItem

variable (item : FatDirItem)

def name : List Byte := item.bytes.take 8
def ext : List Byte := (item.bytes.drop 8).take 3
def attributeByte : Byte := byteAt item.bytes 11
def highFirstCluster : BitVec 16 := halfAt item.bytes 20
def lowFirstCluster : BitVec 16 := halfAt item.bytes 26
def fileSize : Word := wordAt item.bytes 28

theorem eq_of_bytes {a b : FatDirItem} (h : a.bytes = b.bytes) : a = b := by
  cases a
  cases b
  cases h
  rfl

end FatDirItem

/-- `struct fat_dir`。`bytes` は `item` の指す配列の内容である。 -/
structure FatDir where
  item : Word
  bytes : List Byte
  total : Int
  sectorPos : Int
  sectorEnd : Int

/-- `dir->item[i]`。配列の外なら値が無い。 -/
def FatDir.item? (dir : FatDir) (i : Nat) : Option FatDirItem :=
  let bytes := (dir.bytes.drop (FAT_DIR_ITEM_SIZE * i)).take FAT_DIR_ITEM_SIZE
  if h : bytes.length = FAT_DIR_ITEM_SIZE then some ⟨bytes, h⟩ else none

/-- `struct fat_item` の共用体の側。`none` は空のポインタである。 -/
inductive FatItemType
  | dir (dir : Option (Word × FatDir))
  | file (item : Option (Word × FatDirItem))

structure FatItem where
  addr : Word
  type : FatItemType

structure FatFileDescriptor where
  item : FatItem
  pos : Word

structure FatPrivate where
  header : FatHeader
  root : FatDir
  clusterRead : Word
  fatRead : Word
  dirRead : Word

/-! ## ディレクトリの読み取り -/

def fat16SectorToAbs (d : Disk) (sector : Int) : Int := i32 (sector * d.sectorSize)

/-- `fat16_get_dir_items` の繰り返し。回数を使い切るのは、位置が一周して元に戻ったときである。 -/
def fat16GetDirItemsLoop (d : Disk) : Nat → Int → Int → Except Fault Int
  | 0, _, _ => .error .hang
  | fuel + 1, pos, i =>
      let item := diskStreamRead d pos FAT_DIR_ITEM_SIZE
      if item.result ≠ 0 then .ok (- EIO)
      else if byteAt item.bytes 0 = 0x00 then .ok i
      else if byteAt item.bytes 0 = 0xE5 then fat16GetDirItemsLoop d fuel item.pos i
      else fat16GetDirItemsLoop d fuel item.pos (i + 1)

/-- 位置は 32 ずつ進み、`2^27` 回で一周する。 -/
def fat16GetDirItems (d : Disk) (dirSectorStart : Word) : Except Fault Int :=
  let dirStart := (dirSectorStart * BitVec.ofInt 32 d.sectorSize).toInt
  let seek := diskStreamSeek dirStart
  if seek.1 ≠ 0 then .ok (- EIO) else fat16GetDirItemsLoop d (2 ^ 27) seek.2 0

/-- 成功なら `dir_out` の内容を、失敗なら状態コードを返す。 -/
def fat16GetRoot (heap : Heap) (d : Disk) (header : FatHeader) :
    Except Fault (Except Int FatDir × Heap) := do
  let rootPos : Int := header.numberOfFat.toNat * header.sectorsPerFat.toNat + header.reservedSectors.toNat
  let rootEntries := header.rootEntries.toNat
  let rootSize := rootEntries * FAT_DIR_ITEM_SIZE
  let totalItems ← fat16GetDirItems d (BitVec.ofInt 32 rootPos)
  let (dir, heap) := kzalloc heap rootSize
  if dir = 0 then return (.error (-ENOMEM), heap)
  let seek := diskStreamSeek (fat16SectorToAbs d rootPos)
  if seek.1 ≠ 0 then return (.error (- EIO), kfree heap dir)
  let read := diskStreamRead d seek.2 rootSize
  if read.result ≠ 0 then return (.error (- EIO), kfree heap dir)
  return (.ok
    { item := dir
      bytes := read.bytes
      total := totalItems
      sectorPos := rootPos
      sectorEnd := rootPos + Int.tdiv rootSize d.sectorSize }, heap)

/-! ## ファイルシステムの認識 -/

/-- 割り当ての失敗は調べずに、空のポインタへ書く。 -/
def diskStreamNew (heap : Heap) : Except Fault (Word × Heap) :=
  let (stream, heap) := kzalloc heap 8
  if stream = 0 then .error .nullDeref else .ok (stream, heap)

/-- 成功なら `fs_private` の内容を、失敗なら状態コードを返す。 -/
def fat16Resolve (heap : Heap) (d : Disk) : Except Fault (Except Int FatPrivate × Heap) := do
  let (priv, heap) := kzalloc heap 92
  if priv = 0 then throw .nullDeref
  let (clusterRead, heap) ← diskStreamNew heap
  let (fatRead, heap) ← diskStreamNew heap
  let (dirRead, heap) ← diskStreamNew heap
  let (stream, heap) ← diskStreamNew heap
  let read := diskStreamRead d 0 FAT_HEADER_SIZE
  if read.result ≠ 0 then return (.error (- EIO), kfree (kfree heap stream) priv)
  let header := FatHeader.ofBytes read.bytes
  if header.extBootSignature ≠ ENKI_FAT16_SIGNATURE then
    return (.error (-EFSNOTUS), kfree (kfree heap stream) priv)
  let (root, heap) ← fat16GetRoot heap d header
  match root with
  | .error _ => return (.error (- EIO), kfree (kfree heap stream) priv)
  | .ok root => return (.ok { header, root, clusterRead, fatRead, dirRead }, heap)

/-! ## 名前 -/

/-- 空白か 0 の手前まで、多くても `size` バイトを写す。 -/
def fat16FmtStr (bytes : List Byte) (size : Nat) : List Byte :=
  (bytes.take size).takeWhile fun c => c ≠ 0x00 ∧ c ≠ 0x20

/-- 例: `"TEST    TXT"` は `"TEST.TXT"` になる。`out` の残りは 0 である。 -/
def fat16FileNameResolve (item : FatDirItem) : List Byte :=
  let name := fat16FmtStr item.name 8
  if byteAt item.ext 0 ≠ 0x00 ∧ byteAt item.ext 0 ≠ 0x20 then name ++ 0x2E :: fat16FmtStr item.ext 3
  else name

/-- `char` は符号つきである。 -/
def tolower (c : Byte) : Byte := if 64 < c.toInt ∧ c.toInt < 91 then c + 32 else c

/-- `istrncmp` の繰り返し。`a` と `b` は直前に比べた文字である。終わりの 0 では止まらない。 -/
def istrncmpLoop (s1 s2 : Nat → Byte) : Nat → Nat → Int → Int → Int
  | 0, _, a, b => a - b
  | n + 1, i, a, b =>
      if a = b then istrncmpLoop s1 s2 n (i + 1) (tolower (s1 i)).toInt (tolower (s2 i)).toInt
      else a - b

/-- 文字列は、終わりの後ろに 0 の続くバッファとして渡す。 -/
def istrncmp (s1 s2 : Nat → Byte) (n : Nat) : Int := istrncmpLoop s1 s2 n 0 0 0

/-! ## FAT の鎖 -/

def fat16GetFirstFatSector (priv : FatPrivate) : Word := priv.header.reservedSectors.zeroExtend 32

def fat16GetFatEntry (d : Disk) (priv : FatPrivate) (cluster : Int) : Int :=
  if priv.fatRead = 0 then 0
  else
    let fatTablePos := fat16GetFirstFatSector priv * BitVec.ofInt 32 d.sectorSize
    let seek := diskStreamSeek
      (fatTablePos + BitVec.ofInt 32 (i32 (cluster * ENKI_FAT16_ENTRY_SIZE))).toInt
    if seek.1 < 0 then seek.1
    else
      let read := diskStreamRead d seek.2 2
      if read.result < 0 then read.result else (halfAt read.bytes 0).toNat

def fat16ClusterSize (d : Disk) (priv : FatPrivate) : Int :=
  priv.header.sectPerCluster.toNat * d.sectorSize

/-- `switch (entry)` で列挙される値。 -/
def fat16IsStop (entry : Int) : Bool :=
  entry = 0x00 ∨ entry = 0xFF0 ∨ entry = 0xFF6 ∨ entry = 0xFF7 ∨ entry = 0xFF8 ∨ entry = 0xFFF

/-- `fat16_get_cluster_offset` の繰り返し。残りの回数を持つ。 -/
def fat16ClusterLoop (d : Disk) (priv : FatPrivate) : Nat → Int → Int
  | 0, clusterTarget => clusterTarget
  | k + 1, clusterTarget =>
      let entry := fat16GetFatEntry d priv clusterTarget
      if fat16IsStop entry then - EIO else fat16ClusterLoop d priv k entry

/-- `offset` は `int` で受け取る。 -/
def fat16GetClusterOffset (d : Disk) (priv : FatPrivate) (clusterStart offset : Int) :
    Except Fault Int :=
  let clusterSize := fat16ClusterSize d priv
  if clusterSize = 0 then .error .divide
  else .ok (fat16ClusterLoop d priv (Int.tdiv (i32 offset) clusterSize).toNat clusterStart)

def fat16GetFirstCluster (item : FatDirItem) : Word :=
  (item.highFirstCluster ||| item.lowFirstCluster).zeroExtend 32

def fat16ClusterToSector (priv : FatPrivate) (cluster : Int) : Int :=
  i32 (priv.root.sectorEnd + i32 (i32 (cluster - 2) * priv.header.sectPerCluster.toNat))

/-! ## ファイルの読み取り -/

/-- 結果のコードと、`out` の先頭から順に書いたバイト。 -/
structure ClusterRead where
  result : Int
  bytes : List Byte

/-- 一つのクラスタから読むバイトの数。 -/
def fat16ToRead (clusterSize total : Int) : Int := if total > clusterSize then clusterSize else total

theorem fat16ToRead_decreases {d : Disk} {priv : FatPrivate} {clusterStart offset target total : Int}
    (ht : fat16GetClusterOffset d priv clusterStart offset = .ok target)
    (h : total - fat16ToRead (fat16ClusterSize d priv) total > 0) :
    (total - fat16ToRead (fat16ClusterSize d priv) total).toNat < total.toNat := by
  have hne : fat16ClusterSize d priv ≠ 0 := by
    intro h0
    simp [fat16GetClusterOffset, h0] at ht
  have hnn : 0 ≤ fat16ClusterSize d priv := by
    rw [fat16ClusterSize, d.sectorSize_eq, ENKI_SECTOR_SIZE]
    omega
  simp only [fat16ToRead] at *
  split at h <;> rename_i hc <;> simp only [hc, if_true, if_false] at * <;> omega

def fat16ReadInternalStream (d : Disk) (priv : FatPrivate) (cluster offset total : Int) :
    Except Fault ClusterRead :=
  let clusterSize := fat16ClusterSize d priv
  match _ht : fat16GetClusterOffset d priv cluster offset with
  | .error fault => .error fault
  | .ok clusterTarget =>
      if clusterTarget < 0 then .ok ⟨clusterTarget, []⟩
      else
        let clusterOffset := Int.tmod offset clusterSize
        let startSector := fat16ClusterToSector priv clusterTarget
        let startPos := i32 (i32 (startSector * d.sectorSize) + clusterOffset)
        let toRead := fat16ToRead clusterSize total
        let seek := diskStreamSeek startPos
        if seek.1 ≠ 0 then .ok ⟨seek.1, []⟩
        else
          let read := diskStreamRead d seek.2 toRead
          if read.result ≠ 0 then .ok ⟨read.result, read.bytes⟩
          else if _h : total - toRead > 0 then do
            let rest ← fat16ReadInternalStream d priv cluster (i32 (offset + toRead)) (total - toRead)
            return ⟨rest.result, read.bytes ++ rest.bytes⟩
          else .ok ⟨read.result, read.bytes⟩
termination_by total.toNat
decreasing_by exact fat16ToRead_decreases _ht _h

def fat16ReadInternal (d : Disk) (priv : FatPrivate) (startCluster : Word) (offset total : Int) :
    Except Fault ClusterRead :=
  fat16ReadInternalStream d priv startCluster.toInt offset total

/-! ## ディレクトリの項目 -/

def fat16CloneDirItem (heap : Heap) (item : FatDirItem) : Option (Word × FatDirItem) × Heap :=
  let (copy, heap) := kzalloc heap FAT_DIR_ITEM_SIZE
  if copy = 0 then (none, heap) else (some (copy, item), heap)

/-- 配列を解放するのは、配列が無いときだけである。 -/
def fat16FreeDir (heap : Heap) (dir : Option (Word × FatDir)) : Heap :=
  match dir with
  | none => heap
  | some (addr, dir) =>
      let heap := if dir.item = 0 then kfree heap dir.item else heap
      kfree heap addr

def fat16FatItemFree (heap : Heap) (item : FatItem) : Heap :=
  match item.type with
  | .dir dir => kfree (fat16FreeDir heap dir) item.addr
  | .file none => kfree (kfree heap 0) item.addr
  | .file (some (addr, _)) => kfree (kfree heap addr) item.addr

/-- 配列の割り当てに成功したときに、解放して空のポインタを返す。続きへ進むのは、割り当てに失敗したときである。 -/
def fat16LoadFatDir (heap : Heap) (d : Disk) (priv : FatPrivate) (item : FatDirItem) :
    Except Fault (Option (Word × FatDir) × Heap) := do
  if item.attributeByte &&& FAT_FILE_SUBDIRECTORY = 0 then return (none, heap)
  let (addr, heap) := kzalloc heap 16
  if addr = 0 then return (none, heap)
  let cluster := fat16GetFirstCluster item
  let sector := fat16ClusterToSector priv cluster.toInt
  let total ← fat16GetDirItems d (BitVec.ofInt 32 sector)
  let size := i32 (total * FAT_DIR_ITEM_SIZE)
  let (items, heap) := kzalloc heap (BitVec.ofInt 32 size).toNat
  let dir : FatDir := { item := items, bytes := [], total := total, sectorPos := 0, sectorEnd := 0 }
  if items ≠ 0 then return (none, fat16FreeDir heap (some (addr, dir)))
  let read ← fat16ReadInternal d priv cluster 0 size
  let dir := { dir with bytes := read.bytes }
  let heap := if read.result ≠ 0 then fat16FreeDir heap (some (addr, dir)) else heap
  return (some (addr, dir), heap)

def fat16NewItemForDir (heap : Heap) (d : Disk) (priv : FatPrivate) (item : FatDirItem) :
    Except Fault (Option FatItem × Heap) := do
  let (f, heap) := kzalloc heap 8
  if f = 0 then return (none, heap)
  if item.attributeByte &&& FAT_FILE_SUBDIRECTORY ≠ 0 then
    let (dir, heap) ← fat16LoadFatDir heap d priv item
    return (some ⟨f, .dir dir⟩, heap)
  else
    let (copy, heap) := fat16CloneDirItem heap item
    return (some ⟨f, .file copy⟩, heap)

/-- `fat16_find_item_in_dir` の繰り返し。残りの回数と `i`、`item` を持つ。名前が合っても止まらない。 -/
def fat16FindItemLoop (d : Disk) (priv : FatPrivate) (dir : FatDir) (name : List Byte) :
    Nat → Nat → Option FatItem → Heap → Except Fault (Option FatItem × Heap)
  | 0, _, item, heap => .ok (item, heap)
  | k + 1, i, item, heap =>
      match dir.item? i with
      | none => .error .outOfBounds
      | some entry =>
          if istrncmp (byteAt (fat16FileNameResolve entry)) (byteAt name) ENKI_MAX_PATH = 0 then do
            let (item, heap) ← fat16NewItemForDir heap d priv entry
            fat16FindItemLoop d priv dir name k (i + 1) item heap
          else fat16FindItemLoop d priv dir name k (i + 1) item heap

def fat16FindItemInDir (heap : Heap) (d : Disk) (priv : FatPrivate) (dir : FatDir) (name : List Byte) :
    Except Fault (Option FatItem × Heap) :=
  fat16FindItemLoop d priv dir name dir.total.toNat 0 none heap

/-- `fat16_get_dir_entry` の繰り返し。`current` が空になっても、調べずに種類を読む。 -/
def fat16WalkPath (d : Disk) (priv : FatPrivate) :
    List (List Byte) → Option FatItem → Heap → Except Fault (Option FatItem × Heap)
  | [], current, heap => .ok (current, heap)
  | part :: rest, current, heap =>
      match current with
      | none => .error .nullDeref
      | some ⟨_, .file _⟩ => .ok (none, heap)
      | some ⟨_, .dir none⟩ => .error .nullDeref
      | some ⟨addr, .dir (some (dirAddr, dir))⟩ => do
          let (tmp, heap) ← fat16FindItemInDir heap d priv dir part
          fat16WalkPath d priv rest tmp (fat16FatItemFree heap ⟨addr, .dir (some (dirAddr, dir))⟩)

/-- 経路は、最初の部分と残りの部分に分けて渡す。 -/
def fat16GetDirEntry (heap : Heap) (d : Disk) (priv : FatPrivate) (part : List Byte)
    (next : List (List Byte)) : Except Fault (Option FatItem × Heap) := do
  let (root, heap) ← fat16FindItemInDir heap d priv priv.root part
  match root with
  | none => return (none, heap)
  | some root => fat16WalkPath d priv next (some root) heap

/-! ## 開いたファイルの操作 -/

/-- `FILE_MODE` -/
inductive FileMode
  | read
  | write
  | append
  | invalid
deriving DecidableEq, Repr

abbrev SEEK_SET : Nat := 0
abbrev SEEK_CUR : Nat := 1
abbrev SEEK_END : Nat := 2

/-- 返すのは記述子のアドレスか、状態コードをポインタに変換した値である。記述子の内容も合わせて返す。 -/
def fat16Open (heap : Heap) (d : Disk) (priv : FatPrivate) (part : List Byte) (next : List (List Byte))
    (mode : FileMode) : Except Fault (Word × Option FatFileDescriptor × Heap) := do
  if mode ≠ .read then return (BitVec.ofInt 32 (-ERDONLY), none, heap)
  let (descriptor, heap) := kzalloc heap 8
  if descriptor = 0 then return (BitVec.ofInt 32 (-ENOMEM), none, heap)
  let (item, heap) ← fat16GetDirEntry heap d priv part next
  match item with
  | none => return (BitVec.ofInt 32 (- EIO), none, kfree heap descriptor)
  | some item => return (descriptor, some ⟨item, 0⟩, heap)

/-- `fat_desc->item->item`。種類は調べない。 -/
def FatItem.dirItem (item : FatItem) : Except Fault FatDirItem :=
  match item.type with
  | .file (some (_, dirItem)) => .ok dirItem
  | .file none => .error .nullDeref
  | .dir none => .error .nullDeref
  | .dir (some _) => .error .wrongItem

/-- `fat16_read` の繰り返し。残りの回数と `offset`、`out` を持つ。 -/
def fat16ReadLoop (d : Disk) (priv : FatPrivate) (cluster size : Word) :
    Nat → Int → Word → Memory → Except Fault (Option Int × Memory)
  | 0, _, _, mem => .ok (none, mem)
  | k + 1, offset, out, mem => do
      let read ← fat16ReadInternal d priv cluster offset size.toInt
      let mem := mem.write out read.bytes
      if read.result < 0 then return (some read.result, mem)
      fat16ReadLoop d priv cluster size k (i32 (offset + size.toNat)) (out + size) mem

/-- 成功なら `blocks` を返す。 -/
def fat16Read (d : Disk) (priv : FatPrivate) (desc : FatFileDescriptor) (size blocks out : Word)
    (mem : Memory) : Except Fault (Int × Memory) := do
  let item ← desc.item.dirItem
  let (result, mem) ← fat16ReadLoop d priv (fat16GetFirstCluster item) size blocks.toNat desc.pos.toInt out mem
  return (result.getD blocks.toInt, mem)

def fat16FreeFileDescriptor (heap : Heap) (desc : Word) (content : FatFileDescriptor) : Heap :=
  kfree (fat16FatItemFree heap content.item) desc

def fat16Close (heap : Heap) (desc : Word) (content : FatFileDescriptor) : Int × Heap :=
  (0, fat16FreeFileDescriptor heap desc content)

/-- 結果のコードと、記述子の新しい内容を返す。 -/
def fat16Seek (desc : FatFileDescriptor) (offset : Word) (mode : Nat) :
    Except Fault (Int × FatFileDescriptor) :=
  match desc.item.type with
  | .dir _ => .ok (-EINVARG, desc)
  | .file none => .error .nullDeref
  | .file (some (_, item)) =>
      if item.fileSize ≤ offset then .ok (- EIO, desc)
      else if mode = SEEK_SET then .ok (0, { desc with pos := offset })
      else if mode = SEEK_CUR then .ok (0, { desc with pos := desc.pos + offset })
      else if mode = SEEK_END then .ok (-EUNIMP, desc)
      else .ok (-EINVARG, desc)

structure FileStat where
  flags : Word
  fileSize : Word

abbrev FILE_STAT_READ_ONLY : Word := 0b00000001

def fat16Stat (desc : FatFileDescriptor) : Except Fault (Except Int FileStat) :=
  match desc.item.type with
  | .dir _ => .ok (.error (-EINVARG))
  | .file none => .error .nullDeref
  | .file (some (_, item)) =>
      let flags := if item.attributeByte &&& FAT_FILE_READ_ONLY ≠ 0 then FILE_STAT_READ_ONLY else 0
      .ok (.ok ⟨flags, item.fileSize⟩)

end EnkiOs
