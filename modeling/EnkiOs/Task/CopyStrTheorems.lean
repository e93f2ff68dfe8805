import EnkiOs.Task.OneMemory
import EnkiOs.Task.Theorems

/-!
# タスクから見えるバイトの写し

タスクから見える文字列が、書き換えた項目のもとで一時の領域へ写り、そこから離れた領域へもう一度写る。写しが終わるのは、表に
欠けたページがないときである。
-/

namespace EnkiOs
open Machine

/-! ## 離れた領域 -/

/-- タスクのディレクトリのもとでの変換。 -/
def taskView (mem : Memory) (task : Word) : Translation := pageTranslate mem.word (mem.word (mem.word task))

/-- 写す間だけ変わっている、`tmp` の外のバイト。`tmp` のページの項目と、ヒープの表の `tmp` のブロックの記録である。 -/
def Borrowed (table : Nat → Word) (tmp x : Word) : Prop :=
  (x - pageSlot table (pageOf tmp)).toNat < 4 ∨ x = blockByte tmp

instance (table : Nat → Word) (tmp x : Word) : Decidable (Borrowed table tmp x) := inferInstanceAs (Decidable (_ ∨ _))

/-- 書き換えた項目のもとで、タスクの文字列が `tmp` へ写る。写る間に読むバイトは、呼び出しの前にタスクから見えるものである。 -/
theorem copied_to_tmp {words : Words} {dir entries tmp virt : Word} {table : Nat → Word} {mem₀ mem mem' : Memory} {k : Nat}
    (hdir : PageDir words dir entries table) (htmp : PageAligned tmp) (hk : k < 4096) {view : Nat → Except Fault Byte}
    (hview : ∀ j, view j = loadByte (pageTranslate words entries) mem₀ (virt + BitVec.ofNat 32 j))
    (hstring : ∀ j < k, (∀ i < j, view i ≠ .ok 0) → pageOf (virt + BitVec.ofNat 32 j) ≠ pageOf tmp ∧
      ∀ p, pageTranslate words entries (virt + BitVec.ofNat 32 j) = .ok p → pageOf p ≠ pageOf tmp ∧ mem p = mem₀ p)
    (hcopy : strncpyLoop (pageTranslate (words.set (pageSlot table (pageOf tmp)) (tmp ||| tmpFlags)) entries) k tmp virt
      mem = .ok mem') :
    ∃ len tr, Copied tr mem virt mem' tmp k len ∧
      ∀ j ≤ len, j < k → loadByte tr mem (virt + BitVec.ofNat 32 j) = view j := by
  have hflags : tmpFlags.toNat < 4096 := by decide
  have hbit : (tmp ||| tmpFlags) &&& PAGING_IS_PRESENT ≠ 0 := present_or tmp (by decide)
  obtain ⟨tr, htr⟩ : ∃ tr, pageTranslate (words.set (pageSlot table (pageOf tmp)) (tmp ||| tmpFlags)) entries = tr :=
    ⟨_, rfl⟩
  rw [htr] at hcopy
  have hown : ∀ j < 4096, tr (tmp + BitVec.ofNat 32 j) = .ok (tmp + BitVec.ofNat 32 j) := by
    obtain ⟨p, hp⟩ := strncpyLoop_dst hcopy
    intro j hj
    have hpage := pageOf_add htmp hj
    rw [← htr, hdir.translate_same] at hp
    rw [← htr, ← hpage, hdir.translate_same, hpage]
    split at hp
    · cases hp
    · rename_i hpresent
      rw [if_neg hpresent, entryTarget_page htmp hflags hbit, mod_page_add htmp hj]
  have hother : ∀ {a : Word}, pageOf a ≠ pageOf tmp → tr a = pageTranslate words entries a := by
    intro a ha
    rw [← htr, hdir.translate_other (pageOf_lt tmp) ha]
  obtain ⟨m, hm, hne, hend⟩ := exists_terminator view k
  have hread : ∀ j ≤ m, j < k → pageOf (virt + BitVec.ofNat 32 j) ≠ pageOf tmp ∧
      ∀ p, pageTranslate words entries (virt + BitVec.ofNat 32 j) = .ok p → pageOf p ≠ pageOf tmp ∧ mem p = mem₀ p := by
    intro j hj hjk
    exact hstring j hjk fun i hi => hne i (by omega)
  have hload : ∀ j ≤ m, j < k → loadByte tr mem (virt + BitVec.ofNat 32 j) = view j := by
    intro j hj hjk
    obtain ⟨hpage, hphys⟩ := hread j hj hjk
    rw [hview, loadByte, hother hpage, ← loadByte]
    exact loadByte_congr fun p hp => (hphys p hp).2
  have hfar : ∀ j ≤ m, j < k → ∀ p, tr (virt + BitVec.ofNat 32 j) = .ok p → k + 1 ≤ (p - tmp).toNat := by
    intro j hj hjk p hp
    obtain ⟨hpage, hphys⟩ := hread j hj hjk
    rw [hother hpage] at hp
    have := far_of_pageOf_ne htmp (hphys p hp).1
    omega
  have hstop : k ≤ m ∨ loadByte tr mem (virt + BitVec.ofNat 32 m) = .ok 0 := by
    by_cases hkm : k ≤ m
    · exact .inl hkm
    · rw [hload m (Nat.le_refl _) (by omega)]
      exact hend
  obtain ⟨len, hlen, hcopied⟩ :=
    strncpyLoop_copied (by omega) (fun j hj => hown j (by omega)) hfar hstop hcopy
  exact ⟨len, tr, hcopied, fun j hj hjk => hload j (by omega) hjk⟩

/-! ## どのページも表にあるとき -/

/-- どのアドレスも変換できる。 -/
def AllPresent (words : Words) (entries : Word) : Prop := ∀ a, ∃ p, pageTranslate words entries a = .ok p

/-- ページを自分自身へ割り付けても、どのアドレスも変換できる。 -/
theorem AllPresent.set_self {words : Words} {dir entries tmp : Word} {table : Nat → Word}
    (hdir : PageDir words dir entries table) (htmp : PageAligned tmp) (h : AllPresent words entries) :
    AllPresent (words.set (pageSlot table (pageOf tmp)) (tmp ||| tmpFlags)) entries := by
  intro a
  obtain ⟨p, hp⟩ := h a
  by_cases ha : pageOf a = pageOf tmp
  · rw [hdir.translate_eq] at hp
    rw [← ha, hdir.translate_same]
    split at hp
    · cases hp
    · rename_i hpresent
      rw [if_neg hpresent, entryTarget_page htmp (by decide) (present_or _ (by decide))]
      exact ⟨_, rfl⟩
  · rw [hdir.translate_other (pageOf_lt _) ha]
    exact ⟨p, hp⟩

theorem copyToTmp_total {s : Kernel} {task tmp virt entries : Word} {table : Nat → Word} (max : Int)
    (hdir : PageDir s.words (s.tasks task).pageDir entries table) (hpresent : AllPresent s.words entries)
    (htask : task ≠ 0) (htmp : PageAligned tmp) : ∃ s', copyToTmp s task tmp virt max = .ok (0, s') := by
  obtain ⟨mem, hcopy⟩ := strncpyLoop_total (hpresent.set_self hdir htmp) (max - 1).toNat tmp virt s.mem
  rw [copyToTmp_eq hdir htmp htask]
  exact ⟨_, bind_ok.2 ⟨mem, hcopy, rfl⟩⟩

/-- 表に欠けたページがなく、一時の領域が取れれば、写しは終わる。 -/
theorem copyStrFromTask_total {s : Kernel} {task entries : Word} {table : Nat → Word} {max : Int} (virt phys : Word)
    (hk : KernelHeap s.heap) (hdir : PageDir s.words (s.tasks task).pageDir entries table)
    (hpresent : AllPresent s.words entries) (htask : task ≠ 0) (hmax : max < 4096)
    (hroom : (kzalloc s.heap (BitVec.ofInt 32 max).toNat).1 ≠ 0) :
    ∃ s', copyStrFromTask s task virt phys max = .ok (0, s') := by
  have hpage : ¬PAGING_PAGE_SIZE.toInt ≤ max := by
    have h4096 : PAGING_PAGE_SIZE.toInt = 4096 := rfl
    omega
  rcases hk.kzalloc_cases (BitVec.ofInt 32 max).toNat with h0 | ⟨b, m, hb, heq, -⟩
  · rw [h0] at hroom
    exact absurd rfl hroom
  · have hal := pageAligned_blockAddr (Nat.le_of_lt hb.lt)
    obtain ⟨s₁, hs₁⟩ : ∃ s₁ : Kernel, { s with
      heap := heapMarkBlocksTaken s.heap b m
      mem := s.mem.zero (blockAddr b) (BitVec.ofInt 32 max).toNat } = s₁ := ⟨_, rfl⟩
    have hdir₁ : PageDir s₁.words (s₁.tasks task).pageDir entries table := by
      rw [← hs₁]
      exact hdir
    have hpresent₁ : AllPresent s₁.words entries := by
      rw [← hs₁]
      exact hpresent
    obtain ⟨s₂, htmp⟩ := copyToTmp_total max hdir₁ hpresent₁ htask hal
    obtain ⟨mem, hcopy⟩ := strncpyLoop_total (fun a => ⟨a, rfl⟩) (max - 1).toNat phys (blockAddr b) s₂.mem
    simp only [copyStrFromTask, if_neg hpage, kzallocBytes, heq, if_neg (blockAddr_ne_zero (Nat.le_of_lt hb.lt)), hs₁]
    exact ⟨{ s₂ with mem := mem }, bind_ok.2 ⟨_, htmp, bind_ok.2 ⟨mem, hcopy, rfl⟩⟩⟩

/-! ## どのページも自分自身へ移る表 -/

def flatTable (i : Nat) : Word := BitVec.ofNat 32 (0x200000 + 4096 * i)

/-- `0x100000` のディレクトリの項目は `0x101000` から、テーブルは `0x200000` から並ぶ。 -/
def flatWords : Words := fun x =>
  if x = 0x100000 then 0x101000
  else if x.toNat < 0x102000 then flatTable ((x.toNat - 0x101000) / 4) ||| tmpFlags
  else BitVec.ofNat 32 (4096 * ((x.toNat - 0x200000) / 4)) ||| tmpFlags

theorem flatTable_aligned (i : Nat) : PageAligned (flatTable i) := by
  rw [PageAligned, flatTable, BitVec.toNat_ofNat]
  omega

theorem flat_dirEntry {i : Nat} (hi : i < 1024) :
    flatWords (entryAddr 0x101000 (BitVec.ofNat 32 i)) = flatTable i ||| tmpFlags := by
  have hat := entryAddr_toNat (p := 0x101000) (by decide) hi
  have hbase : (0x101000 : Word).toNat = 0x101000 := rfl
  have hne : entryAddr 0x101000 (BitVec.ofNat 32 i) ≠ 0x100000 := by
    intro he
    have := congrArg BitVec.toNat he
    rw [hat, hbase] at this
    change _ = 0x100000 at this
    omega
  rw [flatWords, if_neg hne, hat, hbase, if_pos (by omega), Nat.add_sub_cancel_left, Nat.mul_div_cancel_left _ (by decide)]

theorem flat_entry {n : Nat} (hn : n < 2 ^ 20) : flatWords (pageSlot flatTable n) = BitVec.ofNat 32 (4096 * n) ||| tmpFlags := by
  have hbase : (flatTable (n / 1024)).toNat = 0x200000 + 4096 * (n / 1024) := by
    rw [flatTable, BitVec.toNat_ofNat]
    omega
  have hat := entryAddr_toNat (flatTable_aligned (n / 1024)) (Nat.mod_lt n (show 0 < 1024 by decide))
  rw [hbase] at hat
  have hne : pageSlot flatTable n ≠ 0x100000 := by
    intro he
    have := congrArg BitVec.toNat he
    rw [pageSlot, hat] at this
    change _ = 0x100000 at this
    omega
  rw [flatWords, if_neg hne, pageSlot, hat, if_neg (by omega)]
  congr 2
  omega

theorem flat_pageDir : PageDir flatWords 0x100000 0x101000 flatTable := by
  refine ⟨rfl, ?_, by decide, by decide, fun i _ => flatTable_aligned i, ?_, ?_, ?_⟩
  · intro i hi
    rw [flat_dirEntry hi]
    exact (flatTable_aligned i).and_mask (by decide)
  · intro i hi j hj he
    have := congrArg BitVec.toNat he
    rw [flatTable, flatTable, BitVec.toNat_ofNat, BitVec.toNat_ofNat] at this
    omega
  all_goals
    intro i hi he
    have := congrArg BitVec.toNat he
    rw [flatTable, BitVec.toNat_ofNat] at this
    simp at this
    omega

theorem flat_translate (a : Word) : pageTranslate flatWords 0x101000 a = .ok a := by
  have hlt := pageOf_lt a
  have hdir : flatWords (dirSlot 0x101000 (pageOf a)) &&& PAGING_IS_PRESENT ≠ 0 := by
    rw [dirSlot, flat_dirEntry (by omega)]
    exact present_or _ (by decide)
  rw [flat_pageDir.translate_eq, if_neg hdir, flat_entry hlt,
    entryTarget_page (ofNat_page_aligned _) (by decide) (present_or _ (by decide))]
  congr 1
  have hp : PAGING_PAGE_SIZE.toNat = 4096 := rfl
  have ha := a.isLt
  apply BitVec.eq_of_toNat_eq
  rw [BitVec.toNat_add, BitVec.toNat_umod, BitVec.toNat_ofNat, hp, pageOf]
  omega

theorem flat_loadWord (mem : Memory) (a : Word) : loadWord (pageTranslate flatWords 0x101000) mem a = .ok (mem.word a) := by
  simp only [loadWord, loadByte, flat_translate, Memory.word, Memory.half, BitVec.add_assoc]
  rfl

/-- どのタスクもこの表を使い、`0x400000` に文字 `A` だけを置いたカーネル。 -/
def flatKernel : Kernel := { Kernel.boot bareState with
  words := flatWords
  tasks := fun _ => { pageDir := 0x100000 }
  taskCurrent := 0x500000
  mem := fun a => if a = 0x400000 then 0x41 else 0 }

theorem flatKernel_heap : KernelHeap flatKernel.heap := bootHeap_packed.toKernelHeap

theorem flatKernel_kzalloc {n : Nat} (hpos : 0 < n) (hle : n ≤ 4096) : (kzalloc flatKernel.heap n).1 = blockAddr 0 := by
  obtain ⟨h', heq, -⟩ := bootHeap_packed.small hpos hle (by decide)
  exact congrArg Prod.fst heq

theorem flatKernel_copies {max : Int} (hmin : 1 ≤ max) (hmax : max < 4096) (virt phys : Word) :
    ∃ s', copyStrFromTask flatKernel 0x500000 virt phys max = .ok (0, s') := by
  have hn := toNat_ofInt_of_bounds (x := max) (by omega) (by omega)
  have hroom : (kzalloc flatKernel.heap (BitVec.ofInt 32 max).toNat).1 ≠ 0 := by
    rw [flatKernel_kzalloc (by omega) (by omega)]
    exact blockAddr_ne_zero (by decide)
  exact copyStrFromTask_total virt phys flatKernel_heap flat_pageDir (fun a => ⟨a, flat_translate a⟩) (by decide) hmax
    hroom

end EnkiOs
