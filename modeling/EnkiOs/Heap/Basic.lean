import EnkiOs.Status

/-!
# ヒープ

`kernel/memory/heap.c` と `kernel/memory/kheap.c` のうち、表を扱う部分。

ブロックの表 `table->entries` は、番号からバイトへの関数で持つ。番号は表の外（負の番号と `length` 以上の番号）も
取れる。C の添字には境界の検査がなく、表の外の読み書きも隣のメモリに対してそのまま行われるからである。
-/

namespace EnkiOs
open Machine

abbrev HEAP_BLOCK_TABLE_ENTRY_FREE : Byte := 0x00
abbrev HEAP_BLOCK_TABLE_ENTRY_TAKEN : Byte := 0x01
abbrev HEAP_BLOCK_HAS_NEXT : Byte := 0b10000000
abbrev HEAP_BLOCK_IS_FIRST : Byte := 0b01000000

structure HeapTable where
  entries : Int → Byte
  length : Word

structure Heap where
  table : HeapTable
  startAddr : Word

/-- `table->entries[i] = entry` -/
def HeapTable.set (t : HeapTable) (i : Int) (entry : Byte) : HeapTable :=
  { t with entries := fun j => if j = i then entry else t.entries j }

/-! ## 作成 -/

def heapValidateTable (startAddr endAddr : Word) (table : HeapTable) : Int :=
  let tableSize := endAddr - startAddr
  let totalBlocks := tableSize / BitVec.ofNat 32 ENKI_HEAP_BLOCK_SIZE
  if table.length ≠ totalBlocks then -EINVARG else 0

def heapValidateAlign (ptr : Word) : Bool :=
  ptr % BitVec.ofNat 32 ENKI_HEAP_BLOCK_SIZE = 0

/-- `memset(table->entries, HEAP_BLOCK_TABLE_ENTRY_FREE, table->length)` -/
def HeapTable.clear (t : HeapTable) : HeapTable :=
  { t with entries := fun j =>
      if 0 ≤ j ∧ j < t.length.toNat then HEAP_BLOCK_TABLE_ENTRY_FREE else t.entries j }

/-- 結果のコードと、`heap` の指す先の新しい内容を返す。 -/
def heapCreate (heap : Heap) (startAddr endAddr : Word) (table : HeapTable) : Int × Heap :=
  if ¬ heapValidateAlign startAddr ∨ ¬ heapValidateAlign endAddr then (-EINVARG, heap)
  else
    let result := heapValidateTable startAddr endAddr table
    if result < 0 then (result, { table := table, startAddr := startAddr })
    else (result, { table := table.clear, startAddr := startAddr })

/-! ## 割り当てる場所の探索 -/

def heapAlignVal (val : Word) : Word :=
  let blockSize := BitVec.ofNat 32 ENKI_HEAP_BLOCK_SIZE
  if val % blockSize = 0 then val
  else
    let val := val - val % blockSize
    val + blockSize

def heapGetEntryType (entry : Byte) : Byte := entry &&& 0x0F

/-- `heap_get_start_block` の繰り返し。残りの回数と `i`、`current`、`start` を持つ。 -/
def heapScan (table : HeapTable) (totalBlocks : Word) : Nat → Nat → Int → Int → Int
  | 0, _, _, start => start
  | k + 1, i, current, start =>
      if heapGetEntryType (table.entries i) ≠ HEAP_BLOCK_TABLE_ENTRY_FREE then
        heapScan table totalBlocks k (i + 1) 0 (-1)
      else
        let start := if start = -1 then i32 i else start
        let current := i32 (current + 1)
        if BitVec.ofInt 32 current = totalBlocks then start
        else heapScan table totalBlocks k (i + 1) current start

def heapGetStartBlock (heap : Heap) (totalBlocks : Word) : Int :=
  let start := heapScan heap.table totalBlocks heap.table.length.toNat 0 0 (-1)
  if start = -1 then -ENOMEM else start

/-! ## 番号とアドレスの変換 -/

def heapBlockToAddress (heap : Heap) (block : Int) : Word :=
  heap.startAddr + BitVec.ofInt 32 (i32 (block * ENKI_HEAP_BLOCK_SIZE))

/-- 差を `int` に変換してから割る。差が `2^31` 以上のときは負の番号になる。 -/
def heapAddressToBlock (heap : Heap) (addr : Word) : Int :=
  Int.tdiv (addr - heap.startAddr).toInt ENKI_HEAP_BLOCK_SIZE

/-! ## 表への記録 -/

/-- `heap_mark_blocks_taken` の繰り返し。残りの回数と `i`、`entry` を持つ。 -/
def heapMarkTakenLoop (endBlock : Int) : Nat → Int → Byte → HeapTable → HeapTable
  | 0, _, _, table => table
  | k + 1, i, entry, table =>
      let table := table.set i entry
      let entry := HEAP_BLOCK_TABLE_ENTRY_TAKEN
      let entry := if i ≠ endBlock - 1 then entry ||| HEAP_BLOCK_HAS_NEXT else entry
      heapMarkTakenLoop endBlock k (i + 1) entry table

def heapMarkBlocksTaken (heap : Heap) (startBlock totalBlocks : Int) : Heap :=
  let endBlock := i32 (startBlock + totalBlocks - 1)
  let entry := HEAP_BLOCK_TABLE_ENTRY_TAKEN ||| HEAP_BLOCK_IS_FIRST
  let entry := if totalBlocks > 1 then entry ||| HEAP_BLOCK_HAS_NEXT else entry
  { heap with table :=
      heapMarkTakenLoop endBlock (endBlock + 1 - startBlock).toNat startBlock entry heap.table }

/-- `heap_mark_blocks_free` の繰り返し。 -/
def heapMarkFreeLoop : Nat → Int → HeapTable → HeapTable
  | 0, _, table => table
  | k + 1, i, table =>
      let entry := table.entries i
      let table := table.set i HEAP_BLOCK_TABLE_ENTRY_FREE
      if entry &&& HEAP_BLOCK_HAS_NEXT = 0 then table
      else heapMarkFreeLoop k (i + 1) table

def heapMarkBlocksFree (heap : Heap) (startBlock : Int) : Heap :=
  { heap with table :=
      heapMarkFreeLoop (heap.table.length.toInt - startBlock).toNat startBlock heap.table }

/-! ## 割り当てと解放 -/

/-- 返すアドレスが 0 なら失敗である。 -/
def heapMallocBlocks (heap : Heap) (totalBlocks : Word) : Word × Heap :=
  let startBlock := heapGetStartBlock heap totalBlocks
  if startBlock < 0 then (0, heap)
  else (heapBlockToAddress heap startBlock, heapMarkBlocksTaken heap startBlock totalBlocks.toInt)

def heapMalloc (heap : Heap) (size : Word) : Word × Heap :=
  let aligned := heapAlignVal size
  let totalBlocks := aligned / BitVec.ofNat 32 ENKI_HEAP_BLOCK_SIZE
  heapMallocBlocks heap totalBlocks

def heapFree (heap : Heap) (addr : Word) : Heap :=
  heapMarkBlocksFree heap (heapAddressToBlock heap addr)

/-! ## カーネルのヒープ -/

def kheapInit (heap : Heap) (table : HeapTable) : Int × Heap :=
  let totalEntries := ENKI_HEAP_SIZE_BYTES / BitVec.ofNat 32 ENKI_HEAP_BLOCK_SIZE
  heapCreate heap ENKI_HEAP_ADDRESS (ENKI_HEAP_ADDRESS + ENKI_HEAP_SIZE_BYTES)
    { table with length := totalEntries }

/-- カーネルのヒープからの割り当て。ゼロで埋める先は、割り当てた領域を持つ側で表す。 -/
def kzalloc (heap : Heap) (size : Nat) : Word × Heap := heapMalloc heap (BitVec.ofNat 32 size)

def kfree (heap : Heap) (ptr : Word) : Heap := heapFree heap ptr

end EnkiOs
