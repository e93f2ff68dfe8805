import EnkiOs.Task.CopyStrTheorems

/-!
# 一つのメモリでの写しの結果

文字列が、写す間だけ変わっているバイトの上になく、写す先がタスクの表の上になければ、タスクの見る文字列がそのまま写り、表も元の
ままである。
-/

namespace EnkiOs
open Machine

/-! ## 写しの結果 -/

/-- 一時の領域のアドレス。 -/
def tmpOf (mem : Memory) (max : Int) : Word := (kzallocInMemory mem (BitVec.ofInt 32 max)).1

/-- 表のバイトは、一時の領域のページにも、その記録にもない。 -/
def OffScratch (task dir entries : Word) (table : Nat → Word) (tmp : Word) : Prop :=
  ∀ x, TableByte task dir entries table x → pageOf x ≠ pageOf tmp ∧ x ≠ blockByte tmp

/-- 一時の領域を割り付ける項目を書いたメモリ。 -/
def lend (mem : Memory) (table : Nat → Word) (tmp : Word) : Memory :=
  mem.setWord (pageSlot table (pageOf tmp)) (tmp ||| tmpFlags)

/-- 終端まで、または `k` バイトまでの並び `see` は、`tmp` のページになく、そこへ移されもしない。読む間のメモリ `mem` は、
並びのあるところで `mem₀` と同じである。 -/
def ReadsAs (tr : Translation) (mem mem₀ : Memory) (tmp virt : Word) (k : Nat) : Prop :=
  ∀ j < k, (∀ i < j, loadByte tr mem₀ (virt + BitVec.ofNat 32 i) ≠ .ok 0) → pageOf (virt + BitVec.ofNat 32 j) ≠ pageOf tmp ∧
    ∀ p, tr (virt + BitVec.ofNat 32 j) = .ok p → pageOf p ≠ pageOf tmp ∧ mem p = mem₀ p

section

variable {mem mem' : Memory} {task dir entries virt phys tmp : Word} {table : Nat → Word} {max : Int}

theorem slot_byte_table {words : Words} (hdir : PageDir words dir entries table) {n k : Nat} (hn : n < 2 ^ 20) (hk : k < 4) :
    TableByte task dir entries table (pageSlot table n + BitVec.ofNat 32 k) :=
  .inr (.inr (.inr ⟨n / 1024, by omega,
    entry_byte_page (hdir.table_aligned _ (by omega)) (Nat.mod_lt n (by decide)) hk⟩))

section

variable {mem₁ : Memory} (ht : TaskTables mem task dir entries table) (htmp : PageAligned tmp)
  (hclear : OffScratch task dir entries table tmp) (hsame : ∀ x, pageOf x ≠ pageOf tmp → x ≠ blockByte tmp → mem₁ x = mem x)
include ht hclear hsame

theorem patched_before : Patched mem mem₁ task dir entries table (pageSlot table (pageOf tmp))
    (mem.word (pageSlot table (pageOf tmp))) where
  bytes := fun x hx _ => hsame x (hclear x hx).1 (hclear x hx).2
  word := Memory.AgreeOn.word fun k hk => by
    have hx : TableByte task dir entries table _ := slot_byte_table ht.pageDir (pageOf_lt tmp) hk
    exact hsame _ (hclear _ hx).1 (hclear _ hx).2

omit ht in
theorem patched_lend : Patched mem (lend mem₁ table tmp) task dir entries table (pageSlot table (pageOf tmp))
    (tmp ||| tmpFlags) where
  bytes := fun x hx hfar => (Memory.setWord_byte _ _ hfar).trans (hsame x (hclear x hx).1 (hclear x hx).2)
  word := Memory.setWord_word _ _ _

include htmp

/-- 項目を書き換え、写し、元の値を書く。 -/
theorem copyToTmpMem_eq (htask : task ≠ 0) : copyToTmpMem mem₁ task tmp virt max = do
    let mem₃ ← strncpy (pageTranslate (Words.set mem.word (pageSlot table (pageOf tmp)) (tmp ||| tmpFlags)) entries) tmp virt
      max (lend mem₁ table tmp)
    return pagingSetMem mem₃ entries tmp (mem.word (pageSlot table (pageOf tmp))) := by
  have hn := pageOf_lt tmp
  have hal := pageAligned_iff.2 htmp
  have hp₁ := patched_before ht hclear hsame
  have hp₂ := patched_lend hclear hsame
  have hmap : pagingMapMem mem₁ dir tmp tmp tmpFlags = (0, lend mem₁ table tmp) := by
    rw [pagingMapMem, if_neg fun hne => hne.elim (fun h => h hal) fun h => h hal, hp₁.dir_word ht hn,
      pagingSetMem_eq (hp₁.pageDir ht hn) htmp, lend]
  have hget : pagingGet mem₁.word entries tmp = mem.word (pageSlot table (pageOf tmp)) := by
    rw [(hp₁.pageDir ht hn).get_eq htmp]
    exact hp₁.word
  simp only [copyToTmpMem, if_neg htask, hp₁.task_word ht hn, hp₁.dir_word ht hn, hmap, hget, hp₂.task_word ht hn,
    hp₂.dir_word ht hn, hp₂.translate ht hn]

/-- 一時の領域への写しは成功し、項目は元の値に戻る。 -/
theorem copyToTmpMem_spec {mem₀ mem₄ : Memory} {r : Int} {k : Nat} (hmax : max = k + 1) (hk : k < 4095)
    (hreads : ReadsAs (pageTranslate mem.word entries) (lend mem₁ table tmp) mem₀ tmp virt k)
    (h : copyToTmpMem mem₁ task tmp virt max = .ok (r, mem₄)) :
    r = 0 ∧ ∃ mem₃ len tr, strncpyLoop (pageTranslate (Words.set mem.word (pageSlot table (pageOf tmp)) (tmp ||| tmpFlags))
        entries) k tmp virt (lend mem₁ table tmp) = .ok mem₃ ∧
      Copied tr (lend mem₁ table tmp) virt mem₃ tmp k len ∧
      (∀ j ≤ len, j < k → loadByte tr (lend mem₁ table tmp) (virt + BitVec.ofNat 32 j) =
        loadByte (pageTranslate mem.word entries) mem₀ (virt + BitVec.ofNat 32 j)) ∧
      Patched mem mem₃ task dir entries table (pageSlot table (pageOf tmp)) (tmp ||| tmpFlags) ∧
      mem₄ = mem₃.setWord (pageSlot table (pageOf tmp)) (mem.word (pageSlot table (pageOf tmp))) := by
  have hn := pageOf_lt tmp
  have hp₂ := patched_lend hclear hsame
  have htask : task ≠ 0 := by
    intro h0
    rw [copyToTmpMem, if_pos h0] at h
    cases h
  rw [copyToTmpMem_eq ht htmp hclear hsame htask] at h
  obtain ⟨mem₃, hcopy, h⟩ := bind_ok.1 h
  have hloop : (max - 1).toNat = k := by omega
  rw [strncpy, hloop] at hcopy
  obtain ⟨len, tr, hcopied, hload⟩ := copied_to_tmp ht.pageDir htmp (by omega) (fun _ => rfl) hreads hcopy
  have hkeep : ∀ x, TableByte task dir entries table x → mem₃ x = lend mem₁ table tmp x := by
    intro x hx
    have := far_of_pageOf_ne htmp (hclear x hx).1
    exact hcopied.frame x (by omega)
  have hp₃ : Patched mem mem₃ task dir entries table (pageSlot table (pageOf tmp)) (tmp ||| tmpFlags) := by
    refine ⟨fun x hx hfar => (hkeep x hx).trans (hp₂.bytes x hx hfar), ?_⟩
    rw [← hp₂.word]
    exact Memory.AgreeOn.word fun k hk => hkeep _ (slot_byte_table ht.pageDir hn hk)
  rw [pagingSetMem_eq (hp₃.pageDir ht hn) htmp] at h
  cases h
  exact ⟨rfl, mem₃, len, tr, hcopy, hcopied, hload, hp₃, rfl⟩

end

/-- 一時の領域の項目は、領域のページの外にある。 -/
theorem tmp_off_slot (hdir : PageDir mem.word dir entries table) (htmp : PageAligned tmp)
    (hclear : OffScratch task dir entries table tmp) {j : Nat} (hj : j < 4096) :
    4 ≤ (tmp + BitVec.ofNat 32 j - pageSlot table (pageOf tmp)).toNat := by
  by_contra hlt
  obtain ⟨i, hi, hbyte⟩ := byte_of_sub_lt (Nat.lt_of_not_le hlt)
  have htable : TableByte task dir entries table (tmp + BitVec.ofNat 32 j) := by
    rw [hbyte]
    exact slot_byte_table hdir (pageOf_lt tmp) hi
  exact (hclear _ htable).1 (pageOf_add htmp hj)

/-- 借りたバイトのほかは、項目を書いても変わらない。 -/
theorem setWord_of_not_borrowed {m : Memory} {v x : Word} (hx : ¬Borrowed table tmp x) :
    m.setWord (pageSlot table (pageOf tmp)) v x = m x := by
  simp only [Borrowed, not_or, Nat.not_lt] at hx
  exact Memory.setWord_byte _ _ hx.1

/-- 一時の領域のバイトは、借りたものではない。 -/
theorem tmp_not_borrowed (hdir : PageDir mem.word dir entries table) (htmp : PageAligned tmp)
    (hclear : OffScratch task dir entries table tmp) (hrecord : pageOf (blockByte tmp) ≠ pageOf tmp) {j : Nat} (hj : j < 4096) :
    ¬Borrowed table tmp (tmp + BitVec.ofNat 32 j) := by
  rintro (hslot | hbyte)
  · exact absurd hslot (Nat.not_lt.2 (tmp_off_slot hdir htmp hclear hj))
  · rw [← hbyte] at hrecord
    exact hrecord (pageOf_add htmp hj)

theorem toNat_ofInt_succ {k : Nat} (hk : k < 4095) : (BitVec.ofInt 32 ((k : Int) + 1)).toNat = k + 1 := by
  have := toNat_ofInt_of_bounds (x := (k : Int) + 1) (by omega) (by omega)
  omega

/-- 一時の領域が取れたときの、割り当ての後のメモリと、残りの写し。 -/
theorem copyStrFromTaskMem_cases (mem : Memory) (task virt phys : Word) {k : Nat} (hk : k < 4095) :
    (copyStrFromTaskMem mem task virt phys (k + 1) = .ok (-ENOMEM, mem) ∧ tmpOf mem (k + 1) = 0) ∨
      ∃ b heap mem₁, b < 25600 ∧ tmpOf mem (k + 1) = blockAddr b ∧
        kzalloc (heapOf mem) (k + 1) = (tmpOf mem (k + 1), heap) ∧
        (∀ x, x ≠ blockByte (tmpOf mem (k + 1)) → mem₁ x = mem.zero (tmpOf mem (k + 1)) (k + 1) x) ∧
        copyStrFromTaskMem mem task virt phys (k + 1) = do
          let (result, mem₄) ← copyToTmpMem mem₁ task (tmpOf mem (k + 1)) virt (k + 1)
          if result < 0 then return (- EIO, (kfree (heapOf mem₄) (tmpOf mem (k + 1))).toMemory)
          let mem₅ ← strncpy .ok phys (tmpOf mem (k + 1)) (k + 1) mem₄
          return (0, mem₅) := by
  have hsize := toNat_ofInt_succ hk
  have hpage : ¬PAGING_PAGE_SIZE.toInt ≤ (k : Int) + 1 := by
    have h4096 : PAGING_PAGE_SIZE.toInt = 4096 := rfl
    omega
  simp only [copyStrFromTaskMem, if_neg hpage]
  rcases @kzallocInMemory_cases mem (BitVec.ofInt 32 (k + 1)) (by omega) (by omega) with h0 | ⟨b, hb, -, heq, haddr, hsame⟩
  · left
    simp only [tmpOf, h0, if_true, and_true]
    rfl
  · right
    have hne := blockAddr_ne_zero (Nat.le_of_lt hb)
    rw [← haddr] at heq hsame hne
    rw [hsize] at heq hsame
    refine ⟨b, _, _, hb, haddr, heq, hsame, ?_⟩
    simp only [tmpOf, if_neg hne]

theorem same_off_page {mem₁ : Memory} {k : Nat} (hk : k < 4095) (htmp : PageAligned tmp)
    (hsame : ∀ x, x ≠ blockByte tmp → mem₁ x = mem.zero tmp (k + 1) x) (x : Word) (hpage : pageOf x ≠ pageOf tmp)
    (hbyte : x ≠ blockByte tmp) : mem₁ x = mem x :=
  (hsame x hbyte).trans (zero_off_page htmp (by omega) hpage mem)

/-- 読むところで同じ二つのメモリの上の写しは、同じところで同じ結果になる。 -/
theorem strncpyLoop_agree {P : Word → Prop} {tr : Translation} {k : Nat} {dst src : Word} {mem₁ mem₂ mem₁' : Memory}
    (hagree : ∀ x, P x → mem₂ x = mem₁ x) (hreads : ∀ j < k, ∀ p, tr (src + BitVec.ofNat 32 j) = .ok p → P p)
    (h : strncpyLoop tr k dst src mem₁ = .ok mem₁') :
    ∃ mem₂', strncpyLoop tr k dst src mem₂ = .ok mem₂' ∧ ∀ x, P x → mem₂' x = mem₁' x := by
  have hwrite : ∀ {m₁ m₂ : Memory} (p : Word) (c : Byte), (∀ x, P x → m₂ x = m₁ x) →
      ∀ x, P x → m₂.write p [c] x = m₁.write p [c] x := by
    intro m₁ m₂ p c hm x hx
    rw [Memory.write, Memory.write, hm x hx]
  induction k generalizing dst src mem₁ mem₂ with
  | zero =>
      obtain ⟨p, hp, rfl⟩ := storeByte_cases h
      exact ⟨_, storeByte_ok hp, hwrite p 0 hagree⟩
  | succ k ih =>
      obtain ⟨c, hc, h⟩ := bind_ok.1 h
      have hload : loadByte tr mem₂ src = .ok c := by
        rw [← hc]
        exact loadByte_congr fun p hp => hagree p (hreads 0 (Nat.succ_pos k) p (by rwa [BitVec.add_zero]))
      by_cases h0 : c = 0
      · subst h0
        rw [if_pos rfl] at h
        obtain ⟨p, hp, rfl⟩ := storeByte_cases h
        exact ⟨_, bind_ok.2 ⟨0, hload, storeByte_ok hp⟩, hwrite p 0 hagree⟩
      · rw [if_neg h0] at h
        obtain ⟨mem, hstore, h⟩ := bind_ok.1 h
        obtain ⟨p, hp, rfl⟩ := storeByte_cases hstore
        have hnext : ∀ j < k, ∀ q, tr (src + 1 + BitVec.ofNat 32 j) = .ok q → P q := by
          intro j hj q hq
          rw [add_one_add] at hq
          exact hreads (j + 1) (by omega) q hq
        obtain ⟨mem₂', hrest, hsame⟩ := ih (hwrite p c hagree) hnext h
        refine ⟨mem₂', bind_ok.2 ⟨c, hload, ?_⟩, hsame⟩
        rw [if_neg h0]
        exact bind_ok.2 ⟨_, storeByte_ok hp, hrest⟩

/-- 語とバイトを分けたカーネルの状態が、一つのメモリ `mem` を表す。 -/
structure SplitOf (s : Kernel) (task : Word) (mem : Memory) : Prop where
  heap_eq : s.heap = heapOf mem
  words_eq : s.words = mem.word
  mem_eq : s.mem = mem
  task_eq : (s.tasks task).pageDir = mem.word task

/-- 文字列が、写す間だけ変わっているバイトの上になければ、語とバイトを分けた写しも同じ結果になり、表は元のままである。 -/
theorem copyStrFromTask_split {s : Kernel} {k : Nat} (hs : SplitOf s task mem) (ht : TaskTables mem task dir entries table)
    (hk : k < 4095) (hclear : OffScratch task dir entries table (tmpOf mem (k + 1)))
    (hstring : ∀ j < k, pageOf (virt + BitVec.ofNat 32 j) ≠ pageOf (tmpOf mem (k + 1)) ∧
      ∀ p, taskView mem task (virt + BitVec.ofNat 32 j) = .ok p →
        pageOf p ≠ pageOf (tmpOf mem (k + 1)) ∧ ¬Borrowed table (tmpOf mem (k + 1)) p)
    (h : copyStrFromTaskMem mem task virt phys (k + 1) = .ok (0, mem')) :
    ∃ s', copyStrFromTask s task virt phys (k + 1) = .ok (0, s') ∧ s'.words = s.words ∧
      ∀ x, ¬Borrowed table (tmpOf mem (k + 1)) x → s'.mem x = mem' x := by
  obtain ⟨tmp, htmp⟩ : ∃ tmp, tmpOf mem (k + 1) = tmp := ⟨_, rfl⟩
  rcases copyStrFromTaskMem_cases mem task virt phys hk with ⟨hfail, -⟩ | ⟨b, heap, mem₁, hb, hblock, halloc, hzero, heq⟩
  · rw [hfail] at h
    cases h
  · have hal : PageAligned (tmpOf mem (k + 1)) := hblock ▸ pageAligned_blockAddr (Nat.le_of_lt hb)
    have hne : tmpOf mem (k + 1) ≠ 0 := hblock ▸ blockAddr_ne_zero (Nat.le_of_lt hb)
    have hrecord : pageOf (blockByte (tmpOf mem (k + 1))) ≠ pageOf (tmpOf mem (k + 1)) := hblock ▸ blockByte_off_page hb
    rw [htmp] at hclear hstring hal hne hrecord halloc hzero heq ⊢
    have hn := pageOf_lt tmp
    have hview : taskView mem task = pageTranslate mem.word entries := by
      rw [taskView, ht.page_dir, ht.pageDir.dir_eq]
    have hsame := same_off_page hk hal hzero
    have hlend : ∀ x, ¬Borrowed table tmp x → mem.zero tmp (k + 1) x = lend mem₁ table tmp x := by
      intro x hx
      rw [lend, setWord_of_not_borrowed hx]
      exact (hzero x fun he => hx (.inr he)).symm
    rw [hview] at hstring
    have hreads : ReadsAs (pageTranslate mem.word entries) (lend mem₁ table tmp) (lend mem₁ table tmp) tmp virt k :=
      fun j hj _ => ⟨(hstring j hj).1, fun p hp => ⟨((hstring j hj).2 p hp).1, rfl⟩⟩
    rw [heq] at h
    obtain ⟨⟨r, mem₄⟩, hcopy, h⟩ := bind_ok.1 h
    have htask : task ≠ 0 := by
      intro h0
      rw [copyToTmpMem, if_pos h0] at hcopy
      cases hcopy
    obtain ⟨rfl, mem₃, len, tr, hfirst, -, -, -, rfl⟩ := copyToTmpMem_spec ht hal hclear hsame rfl hk hreads hcopy
    simp only at h
    obtain ⟨mem₅, hsecond, h⟩ := bind_ok.1 h
    cases h
    have hloop : ((k : Int) + 1 - 1).toNat = k := by omega
    rw [strncpy, hloop] at hsecond
    have hfrom : ∀ j < k, ∀ p, pageTranslate (Words.set mem.word (pageSlot table (pageOf tmp)) (tmp ||| tmpFlags)) entries
        (virt + BitVec.ofNat 32 j) = .ok p → ¬Borrowed table tmp p := by
      intro j hj p hp
      rw [ht.pageDir.translate_other hn (hstring j hj).1] at hp
      exact ((hstring j hj).2 p hp).2
    have hfromTmp : ∀ j < k, ∀ p, Except.ok (tmp + BitVec.ofNat 32 j) = (.ok p : Except Fault Word) →
        ¬Borrowed table tmp p := by
      rintro j hj p hp
      cases hp
      exact tmp_not_borrowed ht.pageDir hal hclear hrecord (by omega)
    obtain ⟨m₃, hfirst', hagree₃⟩ := strncpyLoop_agree hlend hfrom hfirst
    obtain ⟨m₅, hsecond', hagree₅⟩ := strncpyLoop_agree
      (fun x hx => (hagree₃ x hx).trans (setWord_of_not_borrowed hx).symm) hfromTmp hsecond
    have hpage : ¬PAGING_PAGE_SIZE.toInt ≤ (k : Int) + 1 := by
      have h4096 : PAGING_PAGE_SIZE.toInt = 4096 := rfl
      omega
    have hkernel : copyToTmp { s with heap := heap, mem := mem.zero tmp (k + 1) } task tmp virt (k + 1) =
        .ok (0, { s with heap := heap, mem := m₃ }) := by
      have hdir : PageDir s.words (s.tasks task).pageDir entries table := by
        rw [hs.words_eq, hs.task_eq, ht.page_dir]
        exact ht.pageDir
      refine (copyToTmp_eq (s := { s with heap := heap, mem := mem.zero tmp (k + 1) }) hdir hal htask).trans ?_
      refine bind_ok.2 ⟨m₃, ?_, rfl⟩
      rw [strncpy, hloop, hs.words_eq]
      exact hfirst'
    refine ⟨{ s with heap := heap, mem := m₅ }, ?_, rfl, hagree₅⟩
    have hsize := toNat_ofInt_succ hk
    simp only [copyStrFromTask, if_neg hpage, kzallocBytes, hsize, hs.heap_eq, halloc, if_neg hne, hs.mem_eq]
    refine bind_ok.2 ⟨_, hkernel, bind_ok.2 ⟨m₅, ?_, rfl⟩⟩
    rw [strncpy, hloop]
    exact hsecond'

/-! ## 使われている領域 -/

end

/-! ## 具体的なメモリ -/

end EnkiOs
