import EnkiOs.Heap.Basic
import EnkiOs.Lib.Memory

/-!
# ページング

`kernel/memory/paging.c`。ページディレクトリとページテーブルは、アドレスから語への関数 `Words` に置く。
`struct paging_page_dir` のただ一つの項目 `entries` は、そのアドレスの語である。
-/

namespace EnkiOs
open Machine

abbrev PAGING_ACCESS_FROM_ALL : Word := 0b00000100
abbrev PAGING_IS_WRITEABLE : Word := 0b00000010
abbrev PAGING_IS_PRESENT : Word := 0b00000001

abbrev PAGING_TOTAL_ENTRIES_PER_TABLE : Nat := 1024
abbrev PAGING_PAGE_SIZE : Word := 4096

/-- `&table[i]`。要素は 4 バイトである。 -/
def entryAddr (table : Word) (i : Word) : Word := table + 4 * i

/-! ## 作成と解放 -/

/-- テーブルの繰り返し。残りの回数と `j` を持つ。 -/
def pagingFillTable (flags entry offset : Word) : Nat → Nat → Words → Words
  | 0, _, words => words
  | k + 1, j, words =>
      let val := (offset + BitVec.ofNat 32 j * PAGING_PAGE_SIZE) ||| flags
      pagingFillTable flags entry offset k (j + 1) (words.set (entryAddr entry (BitVec.ofNat 32 j)) val)

/-- ディレクトリの繰り返し。残りの回数と `i`、`offset` を持つ。割り当ての失敗は調べずに、空のポインタへ書く。 -/
def pagingNewLoop (flags entries : Word) : Nat → Nat → Word → Heap → Words → Except Fault (Heap × Words)
  | 0, _, _, heap, words => .ok (heap, words)
  | k + 1, i, offset, heap, words =>
      let (entry, heap) := kzalloc heap (4 * PAGING_TOTAL_ENTRIES_PER_TABLE)
      if entry = 0 then .error .nullDeref
      else
        let words := pagingFillTable flags entry offset PAGING_TOTAL_ENTRIES_PER_TABLE 0 words
        let offset := offset + BitVec.ofNat 32 PAGING_TOTAL_ENTRIES_PER_TABLE * PAGING_PAGE_SIZE
        let words := words.set (entryAddr entries (BitVec.ofNat 32 i)) (entry ||| flags ||| PAGING_IS_WRITEABLE)
        pagingNewLoop flags entries k (i + 1) offset heap words

def pagingNew (heap : Heap) (words : Words) (flags : Byte) : Except Fault (Word × Heap × Words) := do
  let flags := flags.setWidth 32
  let (entries, heap) := kzalloc heap (4 * PAGING_TOTAL_ENTRIES_PER_TABLE)
  if entries = 0 then throw .nullDeref
  let (heap, words) ← pagingNewLoop flags entries PAGING_TOTAL_ENTRIES_PER_TABLE 0 0 heap words
  let (pageDir, heap) := kzalloc heap 4
  if pageDir = 0 then throw .nullDeref
  return (pageDir, heap, words.set pageDir entries)

/-- 解放の繰り返し。残りの回数と `i` を持つ。 -/
def pagingFreeLoop (words : Words) (entries : Word) : Nat → Nat → Heap → Heap
  | 0, _, heap => heap
  | k + 1, i, heap =>
      let entry := words (entryAddr entries (BitVec.ofNat 32 i))
      pagingFreeLoop words entries k (i + 1) (kfree heap (entry &&& 0xFFFFF000))

def pagingFree (heap : Heap) (words : Words) (dir : Word) : Heap :=
  let heap := pagingFreeLoop words (words dir) 1024 0 heap
  let heap := kfree heap (words dir)
  kfree heap dir

/-! ## アドレスの計算 -/

def pagingIsAligned (addr : Word) : Bool := addr % PAGING_PAGE_SIZE = 0

/-- ディレクトリの番号とテーブルの番号。 -/
def pagingGetIndices (virtAddr : Word) : Except Int (Word × Word) :=
  if ¬ pagingIsAligned virtAddr then .error (-EINVARG)
  else
    let span := BitVec.ofNat 32 PAGING_TOTAL_ENTRIES_PER_TABLE * PAGING_PAGE_SIZE
    .ok (virtAddr / span, virtAddr % span / PAGING_PAGE_SIZE)

def pagingAlignAddress (addr : Word) : Word :=
  if addr % PAGING_PAGE_SIZE ≠ 0 then addr + PAGING_PAGE_SIZE - addr % PAGING_PAGE_SIZE else addr

def pagingAlignToLower (addr : Word) : Word := addr - addr % PAGING_PAGE_SIZE

/-! ## 項目の読み書き -/

/-- 番号の組の指す項目のアドレス。 -/
def pagingEntry (words : Words) (dir : Word) (idx : Word × Word) : Word :=
  entryAddr (words (entryAddr dir idx.1) &&& 0xFFFFF000) idx.2

def pagingSet (words : Words) (dir virtAddr val : Word) : Int × Words :=
  if ¬ pagingIsAligned virtAddr then (-EINVARG, words)
  else
    match pagingGetIndices virtAddr with
    | .error result => (result, words)
    | .ok idx => (0, words.set (pagingEntry words dir idx) val)

/-- `paging_get_indices` の結果は調べない。揃っていないアドレスでは、番号は 0 のままである。 -/
def pagingGet (words : Words) (dir virtAddr : Word) : Word :=
  match pagingGetIndices virtAddr with
  | .error _ => words (pagingEntry words dir (0, 0))
  | .ok idx => words (pagingEntry words dir idx)

def pagingGetPhysAddr (words : Words) (dir virtAddr : Word) : Word :=
  let virtAligned := pagingAlignToLower virtAddr
  let offset := virtAddr - virtAligned
  (pagingGet words dir virtAligned &&& 0xFFFFF000) + offset

/-! ## 範囲の割り付け -/

def pagingMap (words : Words) (dir virtAddr physAddr flags : Word) : Int × Words :=
  if virtAddr % PAGING_PAGE_SIZE ≠ 0 ∨ physAddr % PAGING_PAGE_SIZE ≠ 0 then (-EINVARG, words)
  else pagingSet words (words dir) virtAddr (physAddr ||| flags)

/-- 残りの回数と、ここまでの `result` を持つ。 -/
def pagingMapLoop (dir flags : Word) : Nat → Word → Word → Int → Words → Int × Words
  | 0, _, _, result, words => (result, words)
  | k + 1, virtAddr, physAddr, _, words =>
      let (result, words) := pagingMap words dir virtAddr physAddr flags
      if result < 0 then (result, words)
      else pagingMapLoop dir flags k (virtAddr + PAGING_PAGE_SIZE) (physAddr + PAGING_PAGE_SIZE) result words

def pagingMapRange (words : Words) (dir virtAddr physAddr : Word) (pageCount : Int) (flags : Word) : Int × Words :=
  pagingMapLoop dir flags pageCount.toNat virtAddr physAddr 0 words

/-- ポインタの差は `int` なので、`2^31` 以上離れた範囲の枚数は負になる。 -/
def pagingMapTo (words : Words) (dir virtAddr physAddr physEnd flags : Word) : Int × Words :=
  if virtAddr % PAGING_PAGE_SIZE ≠ 0 ∨ physAddr % PAGING_PAGE_SIZE ≠ 0 then (-EINVARG, words)
  else if physEnd % PAGING_PAGE_SIZE ≠ 0 ∨ physEnd < physAddr then (-EINVARG, words)
  else
    let pages := Int.tdiv (physEnd - physAddr).toInt PAGING_PAGE_SIZE.toInt
    pagingMapRange words dir virtAddr physAddr pages flags

end EnkiOs
