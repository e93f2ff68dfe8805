import EnkiOs.Lib.Calls
import EnkiOs.Task.CopyStr

/-!
# 一つのメモリでの写し

タスクの表も、ヒープの表も、文字列のバイトも、同じメモリにある。文字列が表の上にあれば、写す間だけ書き換えられている項目も、
そのまま読まれる。ここでは `copy_str_from_task` を、語とバイトを分けずに、一つのメモリの上の手続きとして書く。
-/

namespace EnkiOs
open Machine

abbrev ENKI_HEAP_TABLE_ADDRESS : Word := 0x00007E00

/-- メモリにあるカーネルのヒープ。表の位置と大きさは、起動の後は変わらない。 -/
def heapOf (mem : Memory) : Heap where
  table :=
    { entries := fun i => mem (ENKI_HEAP_TABLE_ADDRESS + BitVec.ofInt 32 i)
      length := ENKI_HEAP_SIZE_BYTES / BitVec.ofNat 32 ENKI_HEAP_BLOCK_SIZE }
  startAddr := ENKI_HEAP_ADDRESS

/-- ヒープの表を置いたメモリ。 -/
def Heap.toMemory (h : Heap) : Memory := fun x => h.table.entries (x - ENKI_HEAP_TABLE_ADDRESS).toInt

def kzallocInMemory (mem : Memory) (size : Word) : Word × Memory :=
  let (ptr, heap) := kzalloc (heapOf mem) size.toNat
  if ptr = 0 then (0, heap.toMemory) else (ptr, heap.toMemory.zero ptr size.toNat)

def pagingSetMem (mem : Memory) (dir virtAddr val : Word) : Int × Memory :=
  if ¬ pagingIsAligned virtAddr then (-EINVARG, mem)
  else
    match pagingGetIndices virtAddr with
    | .error result => (result, mem)
    | .ok idx => (0, mem.setWord (pagingEntry mem.word dir idx) val)

def pagingMapMem (mem : Memory) (dir virtAddr physAddr flags : Word) : Int × Memory :=
  if virtAddr % PAGING_PAGE_SIZE ≠ 0 ∨ physAddr % PAGING_PAGE_SIZE ≠ 0 then (-EINVARG, mem)
  else pagingSetMem mem (mem.word dir) virtAddr (physAddr ||| flags)

/-- 一時の領域への写し。`task->page_dir` は記録の先頭の語である。変換は、切り替えたときの表で決まる。 -/
def copyToTmpMem (mem : Memory) (task tmp virtAddr : Word) (max : Int) : Except Fault (Int × Memory) := do
  if task = 0 then throw .nullDeref
  let taskDir := mem.word (mem.word task)
  let oldEntry := pagingGet mem.word taskDir tmp
  let (_, mem) := pagingMapMem mem (mem.word task) tmp tmp tmpFlags
  let mem ← strncpy (pageTranslate mem.word (mem.word (mem.word task))) tmp virtAddr max mem
  return pagingSetMem mem taskDir tmp oldEntry

def copyStrFromTaskMem (mem : Memory) (task virtAddr physAddr : Word) (max : Int) : Except Fault (Int × Memory) := do
  if PAGING_PAGE_SIZE.toInt ≤ max then return (-EINVARG, mem)
  let (tmp, mem) := kzallocInMemory mem (BitVec.ofInt 32 max)
  if tmp = 0 then return (-ENOMEM, mem)
  let (result, mem) ← copyToTmpMem mem task tmp virtAddr max
  if result < 0 then return (- EIO, (kfree (heapOf mem) tmp).toMemory)
  let mem ← strncpy .ok physAddr tmp max mem
  return (0, mem)

/-! ## ヒープの表 -/

theorem heapOf_kernelHeap (mem : Memory) : KernelHeap (heapOf mem) := ⟨rfl, rfl⟩

theorem heapOf_toMemory (mem : Memory) : (heapOf mem).toMemory = mem := by
  funext x
  show mem (ENKI_HEAP_TABLE_ADDRESS + BitVec.ofInt 32 (x - ENKI_HEAP_TABLE_ADDRESS).toInt) = mem x
  rw [BitVec.ofInt_toInt, BitVec.add_comm, BitVec.sub_add_cancel]

/-- 領域 `tmp` のブロックを記録する、ヒープの表のバイト。 -/
def blockByte (tmp : Word) : Word := ENKI_HEAP_TABLE_ADDRESS + BitVec.ofNat 32 ((tmp - ENKI_HEAP_ADDRESS).toNat / 4096)

/-- 一ページまでの割り当ては、領域をゼロで埋め、表の一バイトを変える。 -/
theorem kzallocInMemory_cases (mem : Memory) {size : Word} (hpos : 0 < size.toNat) (hle : size.toNat ≤ 4096) :
    kzallocInMemory mem size = (0, mem) ∨ ∃ b < 25600, (heapOf mem).table.freeAt b = true ∧
      kzalloc (heapOf mem) size.toNat = (blockAddr b, heapMarkBlocksTaken (heapOf mem) b 1) ∧
      (kzallocInMemory mem size).1 = blockAddr b ∧
      ∀ x, x ≠ blockByte (blockAddr b) → (kzallocInMemory mem size).2 x = mem.zero (blockAddr b) size.toNat x := by
  rcases (heapOf_kernelHeap mem).kzalloc_small hpos hle with h0 | ⟨b, hb, hfree, heq⟩
  · left
    simp only [kzallocInMemory, h0, if_true, heapOf_toMemory]
  · right
    have hne := blockAddr_ne_zero (Nat.le_of_lt hb)
    have hkept : ∀ x, x ≠ blockByte (blockAddr b) → (heapMarkBlocksTaken (heapOf mem) b 1).toMemory x = mem x := by
      intro x hbyte
      have hidx : (x - ENKI_HEAP_TABLE_ADDRESS).toInt ≠ b := by
        intro he
        apply hbyte
        rw [blockByte, blockAddr_sub (Nat.le_of_lt hb), Nat.mul_div_cancel_left _ (by decide), ← BitVec.ofInt_natCast, ← he,
          BitVec.ofInt_toInt, BitVec.add_comm, BitVec.sub_add_cancel]
      have hmark := markTaken_entries (h := heapOf mem) (s := b) (m := 1) (by omega) (x - ENKI_HEAP_TABLE_ADDRESS).toInt
      rw [if_neg (by omega)] at hmark
      exact hmark.trans (congrFun (heapOf_toMemory mem) x)
    refine ⟨b, hb, hfree, heq, ?_⟩
    simp only [kzallocInMemory, heq, if_neg hne, true_and]
    intro x hbyte
    rw [Memory.zero, Memory.zero, Memory.write, Memory.write, hkept x hbyte]

theorem blockByte_off_page {b : Nat} (hb : b < 25600) : pageOf (blockByte (blockAddr b)) ≠ pageOf (blockAddr b) := by
  rw [blockByte, blockAddr_sub (Nat.le_of_lt hb), Nat.mul_div_cancel_left _ (by decide), pageOf, pageOf,
    blockAddr_toNat (Nat.le_of_lt hb), BitVec.toNat_add, BitVec.toNat_ofNat, show (ENKI_HEAP_TABLE_ADDRESS).toNat = 0x7E00 from rfl,
    Nat.mod_eq_of_lt (show b < 2 ^ 32 by omega), Nat.mod_eq_of_lt (by omega)]
  omega

/-- ゼロで埋めるのは、領域のページの中だけである。 -/
theorem zero_off_page {tmp x : Word} (htmp : PageAligned tmp) {n : Nat} (hn : n ≤ 4096) (hpage : pageOf x ≠ pageOf tmp)
    (mem : Memory) : mem.zero tmp n x = mem x := by
  have hfar := far_of_pageOf_ne htmp hpage
  exact Memory.write_other _ _ (by rw [List.length_replicate]; omega)

/-! ## 項目のバイト -/

theorem entry_byte_page {p : Word} (hp : PageAligned p) {i k : Nat} (hi : i < 1024) (hk : k < 4) :
    pageOf (entryAddr p (BitVec.ofNat 32 i) + BitVec.ofNat 32 k) = pageOf p := by
  have hat := entryAddr_toNat hp hi
  have hlt := p.isLt
  simp only [PageAligned] at hp
  rw [pageOf, pageOf, BitVec.toNat_add, hat, BitVec.toNat_ofNat]
  omega

theorem byte_of_sub_lt {a x : Word} {n : Nat} (h : (x - a).toNat < n) : ∃ k < n, x = a + BitVec.ofNat 32 k := by
  refine ⟨(x - a).toNat, h, ?_⟩
  rw [BitVec.ofNat_toNat, BitVec.setWidth_eq, BitVec.add_comm, BitVec.sub_add_cancel]

/-! ## タスクの表 -/

/-- タスクの記録の `page_dir`、ディレクトリの記録、ディレクトリ、テーブルのどれかのバイトである。 -/
def TableByte (task dir entries : Word) (table : Nat → Word) (x : Word) : Prop :=
  (x - task).toNat < 4 ∨ (x - dir).toNat < 4 ∨ pageOf x = pageOf entries ∨ ∃ i < 1024, pageOf x = pageOf (table i)

/-- タスクの記録は、1024 個の異なるテーブルを持つディレクトリを指し、テーブルの上にはない。 -/
structure TaskTables (mem : Memory) (task dir entries : Word) (table : Nat → Word) : Prop where
  page_dir : mem.word task = dir
  pageDir : PageDir mem.word dir entries table
  record : ∀ x, (x - task).toNat < 4 → ∀ i < 1024, pageOf x ≠ pageOf (table i)

/-! ## 項目の読み取り -/

theorem PageDir.congr {words words' : Words} {dir entries : Word} {table : Nat → Word}
    (h : PageDir words dir entries table) (hdir : words' dir = words dir)
    (hdirs : ∀ i < 1024, words' (entryAddr entries (BitVec.ofNat 32 i)) = words (entryAddr entries (BitVec.ofNat 32 i))) :
    PageDir words' dir entries table where
  dir_eq := hdir.trans h.dir_eq
  dirEntry := by
    intro i hi
    rw [hdirs i hi]
    exact h.dirEntry i hi
  dir_aligned := h.dir_aligned
  entries_aligned := h.entries_aligned
  table_aligned := h.table_aligned
  table_inj := h.table_inj
  table_ne_entries := h.table_ne_entries
  table_ne_dir := h.table_ne_dir

theorem PageDir.translate_congr {words words' : Words} {dir entries : Word} {table : Nat → Word}
    (h : PageDir words dir entries table) (h' : PageDir words' dir entries table)
    (hdirs : ∀ i < 1024, words' (entryAddr entries (BitVec.ofNat 32 i)) = words (entryAddr entries (BitVec.ofNat 32 i)))
    (hslots : ∀ n < 2 ^ 20, words' (pageSlot table n) = words (pageSlot table n)) :
    pageTranslate words' entries = pageTranslate words entries := by
  funext a
  have hlt := pageOf_lt a
  rw [h'.translate_eq, h.translate_eq, dirSlot, hdirs _ (by omega), hslots _ hlt]

section

variable {mem mem' : Memory} {task dir entries : Word} {table : Nat → Word}

/-- `slot` の項目を `val` に書き換えたほかは、表のバイトが同じである。 -/
structure Patched (mem mem' : Memory) (task dir entries : Word) (table : Nat → Word) (slot val : Word) : Prop where
  bytes : ∀ x, TableByte task dir entries table x → 4 ≤ (x - slot).toNat → mem' x = mem x
  word : mem'.word slot = val

theorem slot_byte_page (hdir : PageDir mem.word dir entries table) {n : Nat} (hn : n < 2 ^ 20) {x : Word}
    (hx : (x - pageSlot table n).toNat < 4) : pageOf x = pageOf (table (n / 1024)) := by
  obtain ⟨k, hk, rfl⟩ := byte_of_sub_lt hx
  exact entry_byte_page (hdir.table_aligned _ (by omega)) (Nat.mod_lt n (by decide)) hk

theorem pageOf_ne_of_aligned {a b : Word} (ha : PageAligned a) (hb : PageAligned b) (hne : a ≠ b) : pageOf a ≠ pageOf b := by
  intro he
  apply hne
  apply BitVec.eq_of_toNat_eq
  simp only [PageAligned, pageOf] at *
  omega

variable {slot val : Word} {n : Nat}

/-- テーブルの外の語は、書き換えられていない。 -/
theorem Patched.word_off_tables (hdir : PageDir mem.word dir entries table) (hn : n < 2 ^ 20)
    (h : Patched mem mem' task dir entries table (pageSlot table n) val) {a : Word}
    (hbyte : ∀ k < 4, TableByte task dir entries table (a + BitVec.ofNat 32 k))
    (hoff : ∀ k < 4, pageOf (a + BitVec.ofNat 32 k) ≠ pageOf (table (n / 1024))) : mem'.word a = mem.word a := by
  apply Memory.AgreeOn.word
  intro k hk
  apply h.bytes _ (hbyte k hk)
  by_contra hlt
  exact hoff k hk (slot_byte_page hdir hn (by omega))

variable (ht : TaskTables mem task dir entries table) (hn : n < 2 ^ 20)
  (h : Patched mem mem' task dir entries table (pageSlot table n) val)
include ht hn h

theorem Patched.task_word : mem'.word task = dir := by
  rw [h.word_off_tables ht.pageDir hn, ht.page_dir]
  · intro k hk
    exact .inl (by rw [toNat_add_ofNat_sub _ (by omega)]; exact hk)
  · intro k hk
    exact ht.record _ (by rw [toNat_add_ofNat_sub _ (by omega)]; exact hk) _ (by omega)

theorem Patched.dir_word : mem'.word dir = entries := by
  rw [h.word_off_tables ht.pageDir hn, ht.pageDir.dir_eq]
  · intro k hk
    exact .inr (.inl (by rw [toNat_add_ofNat_sub _ (by omega)]; exact hk))
  · intro k hk
    rw [pageOf_add ht.pageDir.dir_aligned (by omega)]
    exact pageOf_ne_of_aligned ht.pageDir.dir_aligned (ht.pageDir.table_aligned _ (by omega))
      (ht.pageDir.table_ne_dir _ (by omega)).symm

theorem Patched.entry_word {i : Nat} (hi : i < 1024) :
    mem'.word (entryAddr entries (BitVec.ofNat 32 i)) = mem.word (entryAddr entries (BitVec.ofNat 32 i)) := by
  have hpage : ∀ k < 4, pageOf (entryAddr entries (BitVec.ofNat 32 i) + BitVec.ofNat 32 k) = pageOf entries :=
    fun k hk => entry_byte_page ht.pageDir.entries_aligned hi hk
  apply h.word_off_tables ht.pageDir hn
  · exact fun k hk => .inr (.inr (.inl (hpage k hk)))
  · intro k hk
    rw [hpage k hk]
    exact pageOf_ne_of_aligned ht.pageDir.entries_aligned (ht.pageDir.table_aligned _ (by omega))
      (ht.pageDir.table_ne_entries _ (by omega)).symm

theorem Patched.slot_word {m : Nat} (hm : m < 2 ^ 20) :
    mem'.word (pageSlot table m) = Words.set mem.word (pageSlot table n) val (pageSlot table m) := by
  by_cases hmn : m = n
  · rw [hmn, Words.set_same, h.word]
  · rw [Words.set_other _ fun he => hmn (ht.pageDir.slot_inj hm hn he)]
    have hat := entryAddr_toNat (ht.pageDir.table_aligned (m / 1024) (by omega)) (Nat.mod_lt m (by decide))
    have hat' := entryAddr_toNat (ht.pageDir.table_aligned (n / 1024) (by omega)) (Nat.mod_lt n (by decide))
    have hne : pageSlot table m ≠ pageSlot table n := fun he => hmn (ht.pageDir.slot_inj hm hn he)
    have hne' : (pageSlot table m).toNat ≠ (pageSlot table n).toNat := fun he => hne (BitVec.eq_of_toNat_eq he)
    have hm0 := ht.pageDir.table_aligned (m / 1024) (by omega)
    have hn0 := ht.pageDir.table_aligned (n / 1024) (by omega)
    have hlt := (pageSlot table m).isLt
    have hlt' := (pageSlot table n).isLt
    simp only [pageSlot, PageAligned] at *
    apply Memory.AgreeOn.word
    intro k hk
    apply h.bytes
    · exact .inr (.inr (.inr ⟨m / 1024, by omega,
        entry_byte_page (ht.pageDir.table_aligned _ (by omega)) (Nat.mod_lt m (by decide)) hk⟩))
    · rw [BitVec.toNat_sub, BitVec.toNat_add, BitVec.toNat_ofNat]
      omega

theorem Patched.pageDir : PageDir mem'.word dir entries table :=
  ht.pageDir.congr ((h.dir_word ht hn).trans ht.pageDir.dir_eq.symm) fun _ hi => h.entry_word ht hn hi

theorem Patched.translate : pageTranslate mem'.word entries = pageTranslate (Words.set mem.word (pageSlot table n) val) entries := by
  have hset := ht.pageDir.set hn val
  refine hset.translate_congr (h.pageDir ht hn) ?_ fun m hm => h.slot_word ht hn hm
  intro i hi
  have hne : entryAddr entries (BitVec.ofNat 32 i) ≠ pageSlot table n := by
    have hslot := ht.pageDir.dirSlot_ne (m := 1024 * i) (by omega) hn
    rwa [dirSlot, Nat.mul_div_cancel_left _ (by decide)] at hslot
  rw [h.entry_word ht hn hi, Words.set_other _ hne]

end

theorem pagingSetMem_eq {mem : Memory} {dir entries virt : Word} {table : Nat → Word} (h : PageDir mem.word dir entries table)
    (hv : PageAligned virt) (val : Word) :
    pagingSetMem mem entries virt val = (0, mem.setWord (pageSlot table (pageOf virt)) val) := by
  have hal : pagingIsAligned virt = true := decide_eq_true (pageAligned_iff.2 hv)
  rw [pagingSetMem, if_neg (by simp [hal]), PageDir.indices_eq hv]
  simp only [h.entry_eq]
  rfl

end EnkiOs
