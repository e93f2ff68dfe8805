import EnkiOs.Syscall.Basic
import EnkiOs.Task.CopyStrTheorems

/-!
# 文字列を写すときのヒープ

`copy_str_from_task` は、写し終えた一時の領域を解放しない。ヒープの表が変わらないのは、ブロックを使わないときだけである。
-/

namespace EnkiOs
open Machine

/-! ## ブロックを使う呼び出し -/

/-- 一時の領域のためにブロックが塞がれる。負の `max` は大きな数と読まれ、表の最後の空きに割り当てられる。 -/
def TakesBlocks (h : Heap) (max : Int) : Prop :=
  (1 ≤ max ∧ max < 4096 ∧ ∃ b < 25600, h.table.freeAt b = true) ∨ (max ≤ -4096 ∧ h.table.freeAt 25599 = true)

/-- 空いたブロックがない。 -/
def HeapFull (h : Heap) : Prop := ∀ b < 25600, h.table.freeAt b = false

theorem takesBlocks_iff {h : Heap} {max : Int} (hmin : 1 ≤ max) (hmax : max < 4096) :
    ¬TakesBlocks h max ↔ HeapFull h := by
  constructor
  · intro hno b hb
    cases hfree : h.table.freeAt b with
    | false => rfl
    | true => exact absurd (.inl ⟨hmin, hmax, b, hb, hfree⟩) hno
  · rintro hfull (⟨-, -, b, hb, hfree⟩ | ⟨hneg, -⟩)
    · rw [hfull b hb] at hfree
      cases hfree
    · omega

section

variable {h : Heap} (hk : KernelHeap h)
include hk

theorem hasRun_one : h.table.HasRun 1 ↔ ∃ b < 25600, h.table.freeAt b = true := by
  rw [HeapTable.HasRun, hk.length_eq]
  constructor
  · rintro ⟨b, hle, hrun⟩
    exact ⟨b, by omega, hrun b (Nat.le_refl _) (by omega)⟩
  · rintro ⟨b, hb, hfree⟩
    refine ⟨b, by omega, ?_⟩
    intro j hj hj'
    obtain rfl : j = b := by omega
    exact hfree

/-- 一時の領域の割り当てが表を変えるのは、ブロックが塞がれるときだけである。 -/
theorem kzalloc_table_iff {max : Int} (hlow : -2 ^ 31 ≤ max) (hmax : max < 4096) :
    (kzalloc h (BitVec.ofInt 32 max).toNat).2.table = h.table ↔ ¬TakesBlocks h max := by
  obtain ⟨n, hn⟩ : ∃ n, (BitVec.ofInt 32 max).toNat = n := ⟨_, rfl⟩
  have hnat : (n : Int) = if max < 0 then 2 ^ 32 + max else max := by
    rw [← hn, BitVec.toNat_ofInt]
    split
    · omega
    · omega
  rw [hn]
  by_cases hneg : max < 0
  · rw [if_pos hneg] at hnat
    by_cases hwrap : -4096 < max
    · rw [hk.kzalloc_wraps (by omega) (by omega)]
      refine ⟨fun _ => ?_, fun _ => rfl⟩
      rintro (⟨hpos, -⟩ | ⟨hle, -⟩)
      · omega
      · omega
    · have hzero := hk.kzalloc_zero_iff (n := n) (by omega) (by omega)
      have hnorun : ¬h.table.HasRun ((n + 4095) / 4096) := by
        rintro ⟨b, hle, -⟩
        rw [hk.length_eq] at hle
        omega
      rcases hk.kzalloc_cases n with h0 | ⟨b, m, hb, heq, hm⟩
      · rw [h0] at hzero ⊢
        refine ⟨fun _ => ?_, fun _ => rfl⟩
        rintro (⟨hpos, -⟩ | ⟨-, hlast⟩)
        · omega
        · rw [(hzero.1 rfl).2] at hlast
          cases hlast
      · have hne := hb.table_ne (by have := hm (by omega); omega)
        rw [heq] at hzero ⊢
        refine ⟨fun he => absurd he hne, ?_⟩
        intro hno
        have hlast : h.table.freeAt 25599 = false := by
          cases hlast : h.table.freeAt 25599 with
          | false => rfl
          | true => exact absurd (.inr ⟨by omega, hlast⟩) hno
        exact absurd (hzero.2 ⟨hnorun, hlast⟩) (blockAddr_ne_zero (Nat.le_of_lt hb.lt))
  · rw [if_neg hneg] at hnat
    rcases hk.kzalloc_cases n with h0 | ⟨b, m, hb, heq, hm⟩
    · rw [h0]
      refine ⟨fun _ => ?_, fun _ => rfl⟩
      rintro (⟨hpos, -, hfree⟩ | ⟨hle, -⟩)
      · have hzero := (hk.kzalloc_zero_iff (n := n) (by omega) (by omega)).1 (by rw [h0])
        rw [show (n + 4095) / 4096 = 1 by omega, hasRun_one hk] at hzero
        exact hzero.1 hfree
      · omega
    · have hcount := hm (by omega)
      rw [heq]
      by_cases hpos : 1 ≤ max
      · have hne := hb.table_ne (show 0 < m by omega)
        refine ⟨fun he => absurd he hne, fun hno => absurd (.inl ⟨hpos, hmax, b, hb.lt, hb.first⟩) hno⟩
      · obtain rfl : m = 0 := by omega
        have hlt := hb.lt
        have hsame : heapMarkBlocksTaken h b ((0 : Nat) : Int) = h := heapMarkBlocksTaken_zero h b (by omega)
        simp only [hsame]
        refine ⟨fun _ => ?_, fun _ => trivial⟩
        rintro (⟨hpos', -⟩ | ⟨hle, -⟩)
        · omega
        · omega

end

/-! ## 写しの前後のヒープ -/

/-- 返ったときのヒープは、一時の領域を割り当てただけのものである。 -/
theorem copyStrFromTask_heap {s s' : Kernel} {task virt phys : Word} {max r : Int} (hk : KernelHeap s.heap)
    (h : copyStrFromTask s task virt phys max = .ok (r, s')) :
    s'.heap = if max < 4096 then (kzalloc s.heap (BitVec.ofInt 32 max).toNat).2 else s.heap := by
  rcases copyStrFromTask_cases hk h with ⟨-, rfl, hmax | h0⟩ | ⟨-, hmax, b, m, mem, words, -, heq, -, mem', -, rfl⟩
  · rw [if_neg (by omega)]
  · rw [h0]
    split
    · rfl
    · rfl
  · rw [if_pos hmax, heq]

theorem copyStrFromTask_table_iff {s s' : Kernel} {task virt phys : Word} {max r : Int} (hk : KernelHeap s.heap)
    (hlow : -2 ^ 31 ≤ max) (h : copyStrFromTask s task virt phys max = .ok (r, s')) :
    s'.heap.table = s.heap.table ↔ ¬TakesBlocks s.heap max := by
  rw [copyStrFromTask_heap hk h]
  by_cases hmax : max < 4096
  · rw [if_pos hmax, kzalloc_table_iff hk hlow hmax]
  · rw [if_neg hmax]
    refine ⟨fun _ => ?_, fun _ => rfl⟩
    rintro (⟨-, hlt, -⟩ | ⟨hle, -⟩)
    · omega
    · omega

/-! ## 書き出しと起動の列 -/

/-- 書き出しと起動の呼び出しと、その間に動く、ヒープに触れないプログラム。 -/
inductive PrintCall (depth : Nat) (s s' : Kernel) : Prop
  | print (buffer : Word) : syscall1Print s buffer = .ok s' → PrintCall depth s s'
  | start (fileName : Word) (r : Int) : syscall6ProcStart depth s fileName = .ok (r, s') → PrintCall depth s s'
  | other : s'.heap = s.heap → PrintCall depth s s'

theorem kzalloc_full {h : Heap} (hk : KernelHeap h) (hfull : HeapFull h) (n : Nat) : kzalloc h n = (0, h) := by
  rcases hk.kzalloc_cases n with h0 | ⟨b, m, hb, -⟩
  · exact h0
  · have hfree := hb.first
    rw [hfull b hb.lt] at hfree
    cases hfree

/-- 空きがなければ、写しは失敗して何も変えない。 -/
theorem copyStrFromTask_full {s : Kernel} (hk : KernelHeap s.heap) (hfull : HeapFull s.heap) {max : Int} (hmin : 1 ≤ max)
    (hmax : max < 4096) (task virt phys : Word) : copyStrFromTask s task virt phys max = .ok (-ENOMEM, s) := by
  have hpage : ¬PAGING_PAGE_SIZE.toInt ≤ max := by
    have h4096 : PAGING_PAGE_SIZE.toInt = 4096 := rfl
    omega
  simp only [copyStrFromTask, if_neg hpage, kzallocBytes, kzalloc_full hk hfull]
  rfl

/-- 空きがない間は、どの呼び出しもヒープを変えない。 -/
theorem PrintCall.heap_eq {depth : Nat} {s s' : Kernel} (h : PrintCall depth s s') (hk : KernelHeap s.heap)
    (hfull : HeapFull s.heap) : s'.heap = s.heap := by
  cases h with
  | print buffer h =>
      obtain ⟨user, -, h⟩ := bind_ok.1 h
      rw [copyStrFromTask_full hk hfull (by decide) (by decide)] at h
      cases h
      rfl
  | start fileName r h =>
      obtain ⟨user, -, h⟩ := bind_ok.1 h
      rw [copyStrFromTask_full hk hfull (by decide) (by decide)] at h
      cases h
      rfl
  | other h => exact h

theorem printRun_heap {depth : Nat} {s s' : Kernel} (hk : KernelHeap s.heap)
    (h : Relation.ReflTransGen (fun s s' => PrintCall depth s s' ∧ HeapFull s.heap) s s') : s'.heap = s.heap := by
  induction h with
  | refl => rfl
  | tail _ hstep ih =>
      have hk' := hk
      rw [← ih] at hk'
      rw [hstep.1.heap_eq hk' hstep.2, ih]

/-- 写しがヒープの表を変えずに返るのは、ブロックを使わないときだけであり、書き出しでは、空いたブロックがないときだけで
ある。空いたブロックがないまま続く呼び出しの列では、表は変わらない。 -/
theorem copyStrFromTask_keepsTable_iff {s : Kernel} (hk : KernelHeap s.heap) :
    (∀ {task virt phys : Word} {max r : Int} {s' : Kernel}, -2 ^ 31 ≤ max →
      copyStrFromTask s task virt phys max = .ok (r, s') → (s'.heap.table = s.heap.table ↔ ¬TakesBlocks s.heap max)) ∧
    (∀ {buffer : Word} {s' : Kernel}, syscall1Print s buffer = .ok s' →
      (s'.heap.table = s.heap.table ↔ HeapFull s.heap)) ∧
    (∀ {depth : Nat} {s' : Kernel},
      Relation.ReflTransGen (fun s s' => PrintCall depth s s' ∧ HeapFull s.heap) s s' → s'.heap.table = s.heap.table) := by
  refine ⟨fun hlow h => copyStrFromTask_table_iff hk hlow h, ?_, ?_⟩
  · intro buffer s' h
    obtain ⟨user, -, h⟩ := bind_ok.1 h
    obtain ⟨⟨r, s₁⟩, hcopy, h⟩ := bind_ok.1 h
    cases h
    rw [copyStrFromTask_table_iff hk (by decide) hcopy]
    exact takesBlocks_iff (by decide) (by decide)
  · intro depth s' h
    rw [printRun_heap hk h]

/-- 空いたブロックのないカーネル。 -/
def outOfBlocksKernel : Kernel := { flatKernel with heap := ⟨⟨fun _ => HEAP_BLOCK_TABLE_ENTRY_TAKEN, 25600⟩, ENKI_HEAP_ADDRESS⟩ }

theorem outOfBlocks_full : HeapFull outOfBlocksKernel.heap := by
  intro b _
  have htaken : heapGetEntryType HEAP_BLOCK_TABLE_ENTRY_TAKEN ≠ HEAP_BLOCK_TABLE_ENTRY_FREE := by decide
  exact decide_eq_false htaken

theorem flatKernel_stackItem : ∃ w, taskGetStackItem flatKernel flatKernel.taskCurrent 0 = .ok w := by
  have hne : flatKernel.taskCurrent ≠ 0 := by decide
  simp only [taskGetStackItem, if_neg hne]
  exact loadWord_total (fun a => ⟨a, flat_translate a⟩) _ _

theorem copyStrFromTask_keepsTable_iff_calls :
    (∃ s', copyStrFromTask flatKernel 0x500000 0x400000 0x90000 1024 = .ok (0, s') ∧
      (s'.heap.table = flatKernel.heap.table ↔ ¬TakesBlocks flatKernel.heap 1024)) ∧
    (∃ s', syscall1Print flatKernel 0x90000 = .ok s' ∧ (s'.heap.table = flatKernel.heap.table ↔ HeapFull flatKernel.heap)) ∧
    ∃ s', Relation.ReflTransGen (fun s s' => PrintCall 1 s s' ∧ HeapFull s.heap) outOfBlocksKernel s' ∧
      s'.heap.table = outOfBlocksKernel.heap.table := by
  obtain ⟨s₁, hcopy⟩ := flatKernel_copies (show (1 : Int) ≤ 1024 by decide) (by decide) 0x400000 0x90000
  obtain ⟨user, huser⟩ := flatKernel_stackItem
  obtain ⟨s₂, hprint⟩ := flatKernel_copies (show (1 : Int) ≤ 1024 by decide) (by decide) user 0x90000
  have hprint' : syscall1Print flatKernel 0x90000 = .ok s₂ := bind_ok.2 ⟨user, huser, bind_ok.2 ⟨_, hprint, rfl⟩⟩
  have hk : KernelHeap outOfBlocksKernel.heap := ⟨rfl, rfl⟩
  have hfull : syscall1Print outOfBlocksKernel 0x90000 = .ok outOfBlocksKernel := by
    refine bind_ok.2 ⟨user, huser, ?_⟩
    rw [copyStrFromTask_full hk outOfBlocks_full (by decide) (by decide)]
    rfl
  have hrun : Relation.ReflTransGen (fun s s' => PrintCall 1 s s' ∧ HeapFull s.heap) outOfBlocksKernel outOfBlocksKernel :=
    .single ⟨.print 0x90000 hfull, outOfBlocks_full⟩
  exact ⟨⟨s₁, hcopy, (copyStrFromTask_keepsTable_iff flatKernel_heap).1 (by decide) hcopy⟩,
    ⟨s₂, hprint', (copyStrFromTask_keepsTable_iff flatKernel_heap).2.1 hprint'⟩,
    ⟨outOfBlocksKernel, hrun, (copyStrFromTask_keepsTable_iff hk).2.2 hrun⟩⟩

/-- 起動したばかりのカーネルで文字 `A` を写すと、0 が返り、表のブロックが一つ塞がったままになる。 -/
theorem copyStrFromTask_keepsTable_fails : KernelHeap flatKernel.heap ∧
    ∃ s', copyStrFromTask flatKernel 0x500000 0x400000 0x90000 1024 = .ok (0, s') ∧
      s'.heap.table ≠ flatKernel.heap.table := by
  obtain ⟨s', h⟩ := flatKernel_copies (show (1 : Int) ≤ 1024 by decide) (by decide) 0x400000 0x90000
  refine ⟨flatKernel_heap, s', h, ?_⟩
  intro he
  refine (copyStrFromTask_table_iff flatKernel_heap (by decide) h).1 he (.inl ⟨by decide, by decide, 0, by decide, ?_⟩)
  exact bootHeap_packed.vacant 0 (Nat.le_refl 0) (by decide)

end EnkiOs
