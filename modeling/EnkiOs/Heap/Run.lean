import EnkiOs.Heap.Lemmas.Scan
import EnkiOs.Heap.Lemmas.Mark
import EnkiOs.Lib.Extents
import Mathlib.Data.List.InsertIdx
import Mathlib.Logic.Relation

/-!
# ヒープの実行と不変条件

割り当てと解放の列で到達する状態を定める。状態は、ヒープと、まだ解放していない割り当ての並びの組である。
割り当ての並びは C の側には無く、仕様のためだけに持つ。不変条件は、表がこの並びの符号化であることを述べる。
-/

namespace EnkiOs
open Machine Extents

/-- `heap_malloc(size)` が返した、まだ解放していないアドレス。 -/
structure Allocation where
  addr : Word
  size : Word
  pos : 0 < size.toNat

/-- 割り当てが占めるブロックの範囲。先頭は、返したアドレスのブロックである。 -/
def Allocation.extent (start : Word) (a : Allocation) : Extent where
  first := (a.addr - start).toNat / 4096
  count := blocksFor a.size
  pos := blocksFor_pos a.pos

theorem Allocation.extent_eq {start : Word} {a : Allocation} {s m : Nat} {hm : 0 < m}
    (hs : (a.addr - start).toNat = 4096 * s) (hb : blocksFor a.size = m) :
    a.extent start = ⟨s, m, hm⟩ := by
  ext
  · rw [Allocation.extent, hs, Nat.mul_div_cancel_left _ (by decide)]
  · exact hb

/-- 範囲 `e` の中の番号 `i` の値。 -/
def extentEntry (e : Extent) (i : Nat) : Byte := takenEntry e.first (e.first + e.count - 1) i

/-- 表の値が、区間の配置 `l` の符号化である。 -/
structure HeapTable.Encodes (t : HeapTable) {n : Nat} (l : Layout n) : Prop where
  length_eq : t.length.toNat = n
  entries_eq : ∀ i < n, t.entries i = l.encode extentEntry HEAP_BLOCK_TABLE_ENTRY_FREE i

/-- ヒープの不変条件。`live` の範囲は互いに重ならず表の中にあり（`Layout`）、表はその符号化である。 -/
structure HeapInv (h : Heap) (live : List Allocation) : Prop where
  length_lt : h.table.length.toNat < 2 ^ 20
  onBlock : ∀ a ∈ live, (a.addr - h.startAddr).toNat % 4096 = 0
  encoded : ∃ (n : Nat) (l : Layout n),
    l.extents = live.map (Allocation.extent h.startAddr) ∧ h.table.Encodes l

structure HeapState where
  heap : Heap
  live : List Allocation

inductive HeapOp
  | malloc (size : Word)
  | free (addr : Word)

/-- 一回の呼び出し。割り当ては収まる場所のあるときに、解放は生きている割り当てに対して行う。 -/
inductive HeapStep : HeapState → HeapOp → HeapState → Prop
  | malloc {h live size} (hpos : 0 < size.toNat) (hle : size.toNat ≤ 0xFFFFF000)
      (hrun : h.table.HasRun (blocksFor size)) :
      HeapStep ⟨h, live⟩ (.malloc size)
        ⟨(heapMalloc h size).2, ⟨(heapMalloc h size).1, size, hpos⟩ :: live⟩
  | free {h live k a} (hk : live[k]? = some a) :
      HeapStep ⟨h, live⟩ (.free a.addr) ⟨heapFree h a.addr, live.eraseIdx k⟩

/-- 解放するアドレスが、ヒープの先頭から 2 GiB より手前にある。 -/
def HeapOp.Near (h : Heap) : HeapOp → Prop
  | .malloc _ => True
  | .free addr => (addr - h.startAddr).toNat < 2 ^ 31

/-- 呼び出しの列で `s` から `s'` へ到達する。 -/
def HeapRun : HeapState → HeapState → Prop :=
  Relation.ReflTransGen fun s s' => ∃ op, HeapStep s op s'

/-- 解放がどれも 2 GiB より手前に対するものである、呼び出しの列。 -/
def NearHeapRun : HeapState → HeapState → Prop :=
  Relation.ReflTransGen fun s s' => ∃ op, HeapStep s op s' ∧ op.Near s.heap

/-! ## 作成した直後 -/

/-- `heap_create` が受け入れたヒープは、表の番号が `2^20` より小さく、表の中がすべて空きである。 -/
theorem heapCreate_accepted {heap h : Heap} {startAddr endAddr : Word} {table : HeapTable}
    (hc : heapCreate heap startAddr endAddr table = (0, h)) :
    h.startAddr = startAddr ∧ h.table = table.clear ∧ h.table.length.toNat < 2 ^ 20 := by
  unfold heapCreate at hc
  split at hc
  · simp [EINVARG] at hc
  · simp only [heapValidateTable] at hc
    split at hc
    · split at hc
      · simp [EINVARG] at hc
      · rename_i h1
        simp [EINVARG] at h1
    · rename_i hlen
      simp only [Int.lt_irrefl, ↓reduceIte, Prod.mk.injEq, true_and] at hc
      subst hc
      refine ⟨rfl, rfl, ?_⟩
      have hlen' : table.length = (endAddr - startAddr) / BitVec.ofNat 32 ENKI_HEAP_BLOCK_SIZE := by
        simpa using hlen
      show table.length.toNat < 2 ^ 20
      rw [hlen', BitVec.toNat_udiv]
      have := (endAddr - startAddr).isLt
      simp only [ENKI_HEAP_BLOCK_SIZE, BitVec.toNat_ofNat, Nat.reducePow, Nat.reduceMod]
      omega

theorem clear_entries (t : HeapTable) {i : Nat} (hi : i < t.length.toNat) : t.clear.entries i = 0 := by
  simp only [HeapTable.clear]
  rw [if_pos (by omega)]

theorem HeapInv.create {heap h : Heap} {startAddr endAddr : Word} {table : HeapTable}
    (hc : heapCreate heap startAddr endAddr table = (0, h)) : HeapInv h [] := by
  obtain ⟨_, ht, hlt⟩ := heapCreate_accepted hc
  refine ⟨hlt, by simp, h.table.length.toNat, Layout.empty _, rfl, rfl, ?_⟩
  intro i hi
  rw [ht] at hi ⊢
  rw [clear_entries table hi, Layout.encode_empty]

/-! ## 割り当て -/

variable {h : Heap} {live : List Allocation} {n : Nat} {l : Layout n}

theorem HeapInv.length_lt_int (hi : HeapInv h live) : h.table.length.toNat < 2 ^ 31 := by
  have := hi.length_lt
  omega

theorem encode_ne_free {e : Extent} (he : e ∈ l.extents) {i : Nat} (hi : e.Covers i) :
    heapGetEntryType (l.encode extentEntry HEAP_BLOCK_TABLE_ENTRY_FREE i) ≠ HEAP_BLOCK_TABLE_ENTRY_FREE := by
  rw [Layout.encode_of_covers he hi]
  exact takenEntry_ne_free _ _ _

theorem HeapTable.Encodes.vacant (hl : h.table.Encodes l) {e : Extent} (hin : e.first + e.count ≤ n)
    (hr : FirstFit.Run h.table.freeAt e.count e.first) : l.Vacant e := by
  intro f hf i hi hfi
  have hfree : h.table.freeAt i = true := hr i hi.1 hi.2
  simp only [HeapTable.freeAt, decide_eq_true_eq] at hfree
  rw [hl.entries_eq i (by have := hi.2; omega)] at hfree
  exact encode_ne_free hf hfi hfree

theorem HeapTable.Encodes.mark (hl : h.table.Encodes l) (hn : n < 2 ^ 31) {e : Extent}
    (hin : e.first + e.count ≤ n) (hv : l.Vacant e) :
    (heapMarkBlocksTaken h e.first e.count).table.Encodes (l.add e hin hv) := by
  refine ⟨by simpa using hl.length_eq, ?_⟩
  intro i hi
  rw [heapMarkBlocksTaken_entries e.pos (by omega), Layout.encode_add]
  by_cases hc : e.Covers i
  · have hr : (e.first : Int) ≤ i ∧ (i : Int) < e.first + e.count := by
      simp only [Extent.Covers] at hc; omega
    rw [if_pos hc, if_pos hr]
    rfl
  · have hr : ¬ ((e.first : Int) ≤ i ∧ (i : Int) < e.first + e.count) := by
      simp only [Extent.Covers] at hc; omega
    rw [if_neg hc, if_neg hr]
    exact hl.entries_eq i hi

theorem HeapInv.malloc (hi : HeapInv h live) {size : Word} (hpos : 0 < size.toNat)
    (hle : size.toNat ≤ 0xFFFFF000) (hrun : h.table.HasRun (blocksFor size)) :
    HeapInv (heapMalloc h size).2 (⟨(heapMalloc h size).1, size, hpos⟩ :: live) := by
  obtain ⟨s, ⟨hin, hr⟩, -, heq⟩ := heapMalloc_fit hi.length_lt_int hpos hle hrun
  obtain ⟨n, l, hext, hl⟩ := hi.encoded
  have hlt := hi.length_lt
  rw [hl.length_eq] at hin hlt
  have hsub : (heapBlockToAddress h s - h.startAddr).toNat = 4096 * s :=
    heapBlockToAddress_sub (by omega)
  let e : Extent := ⟨s, blocksFor size, blocksFor_pos hpos⟩
  have hv : l.Vacant e := hl.vacant hin hr
  rw [heq]
  refine ⟨by simpa using hi.length_lt, ?_, n, l.add e hin hv, ?_, hl.mark (by omega) hin hv⟩
  · intro a ha
    rcases List.mem_cons.mp ha with rfl | ha
    · simp only [heapMarkBlocksTaken_startAddr, hsub]
      omega
    · exact hi.onBlock a ha
  · simp only [Layout.add, hext, List.map_cons, heapMarkBlocksTaken_startAddr, List.cons.injEq, and_true]
    have ha : (Allocation.mk (heapBlockToAddress h s) size hpos).extent h.startAddr = e :=
      Allocation.extent_eq hsub rfl
    exact ha.symm

/-! ## 解放 -/

/-- 割り当ての範囲を解放すると、その範囲だけが空きになる。 -/
theorem HeapTable.Encodes.release (hl : h.table.Encodes l) (hn : n < 2 ^ 31) {k : Nat} {e : Extent}
    (hk : l.extents[k]? = some e) :
    (heapMarkBlocksFree h e.first).table.Encodes (l.remove k) := by
  have he : e ∈ l.extents := List.mem_of_getElem? hk
  have hin := l.inside e he
  have hpos := e.pos
  refine ⟨by simpa [heapMarkBlocksFree] using hl.length_eq, ?_⟩
  intro i hi
  have hlen : h.table.length.toInt = n := by
    rw [toInt_of_lt (by rw [hl.length_eq]; exact hn), hl.length_eq]
  simp only [heapMarkBlocksFree, hlen]
  rw [heapMarkFreeLoop_entries (e := e.first + e.count - 1) (by omega) (by omega),
    Layout.encode_remove hk]
  · by_cases hc : e.Covers i
    · have hr : (e.first : Int) ≤ i ∧ (i : Int) ≤ e.first + e.count - 1 := by
        simp only [Extent.Covers] at hc; omega
      rw [if_pos hc, if_pos hr]
    · have hr : ¬ ((e.first : Int) ≤ i ∧ (i : Int) ≤ e.first + e.count - 1) := by
        simp only [Extent.Covers] at hc; omega
      rw [if_neg hc, if_neg hr]
      exact hl.entries_eq i hi
  · intro j h1 h2
    obtain ⟨i, rfl⟩ : ∃ i : Nat, j = i := ⟨j.toNat, by omega⟩
    have hc : e.Covers i := ⟨by omega, by omega⟩
    rw [hl.entries_eq i (by omega), Layout.encode_of_covers he hc]
    exact takenEntry_hasNext

theorem HeapInv.free (hi : HeapInv h live) {k : Nat} {a : Allocation} (hk : live[k]? = some a)
    (hnear : (a.addr - h.startAddr).toNat < 2 ^ 31) :
    HeapInv (heapFree h a.addr) (live.eraseIdx k) := by
  obtain ⟨n, l, hext, hl⟩ := hi.encoded
  have hlt := hi.length_lt
  rw [hl.length_eq] at hlt
  have hke : l.extents[k]? = some (a.extent h.startAddr) := by
    rw [hext, List.getElem?_map, hk]
    rfl
  refine ⟨by simpa using hi.length_lt, ?_, n, l.remove k, ?_, ?_⟩
  · intro b hb
    exact hi.onBlock b (List.mem_of_mem_eraseIdx hb)
  · simp only [Layout.remove, hext, heapFree_startAddr, List.eraseIdx_map]
  · rw [heapFree, heapAddressToBlock_of_lt hnear]
    exact hl.release (by omega) hke

/-- 生きている割り当てが無ければ、表はすべて空きである。 -/
theorem HeapInv.all_free (hi : HeapInv h []) {i : Nat} (hlt : i < h.table.length.toNat) :
    h.table.entries i = HEAP_BLOCK_TABLE_ENTRY_FREE := by
  obtain ⟨n, l, hext, hl⟩ := hi.encoded
  rw [hl.length_eq] at hlt
  rw [hl.entries_eq i hlt]
  exact Layout.encode_of_not_covers (by simp [hext])

/-! ## 一歩と実行 -/

theorem HeapStep.inv {s s' : HeapState} {op : HeapOp} (hs : HeapStep s op s') (hnear : op.Near s.heap)
    (hi : HeapInv s.heap s.live) : HeapInv s'.heap s'.live := by
  cases hs with
  | malloc hpos hle hrun => exact hi.malloc hpos hle hrun
  | free hk => exact hi.free hk hnear

theorem NearHeapRun.inv {s s' : HeapState} (hr : NearHeapRun s s') (hi : HeapInv s.heap s.live) :
    HeapInv s'.heap s'.live := by
  induction hr with
  | refl => exact hi
  | tail _ hstep ih =>
      obtain ⟨op, hs, hnear⟩ := hstep
      exact hs.inv hnear ih

end EnkiOs
