import EnkiOs.Process.AgreeTheorems
import EnkiOs.Process.Halves
import EnkiOs.Process.PageTheorems

/-!
# 書き込める範囲

プロセスの表で、プログラムの書き込めるページは、見せるブロックか、割り当ての記録のブロックへだけ訳される。読み込みがこれを
作り、割り当てと解放が保つ。
-/

namespace EnkiOs
open Machine

variable {s s' : Kernel} {p proc dir entries ptr size toFree : Word} {table : Nat → Word}
  {base own own' hidden ground : Nat → Prop} {words words' : Words} {image : Process} {result : Int} {ms : List Mapping}
  {m : Mapping} {n b : Nat}

/-! ## 割り付けの列の後の項目 -/

/-- 割り付けの列の後の項目は、列の割り付けのどれかのものであるか、列が触れず、前のままである。 -/
theorem PageDir.put_cases (h : PageDir words dir entries table) (ms : List Mapping)
    (hal : ∀ m ∈ ms, PageAligned m.virt ∧ PageAligned m.phys) (hn : n < 2 ^ 20) :
    (∃ m ∈ ms, m.virt.toNat / 4096 = n ∧ ms.foldl (Mapping.put dir) words (pageSlot table n) = m.phys ||| m.flags) ∨
    ((∀ m ∈ ms, m.virt.toNat / 4096 ≠ n) ∧ ms.foldl (Mapping.put dir) words (pageSlot table n) = words (pageSlot table n)) := by
  have hentry := (h.foldl_put ms hal).2 n hn
  rw [mappedEntry_eq] at hentry
  cases hlast : lastMapping n ms with
  | some m =>
      rw [hlast] at hentry
      rw [lastMapping] at hlast
      refine .inl ⟨m, List.mem_reverse.1 (List.mem_of_find?_eq_some hlast), ?_, hentry⟩
      simpa using List.find?_some hlast
  | none =>
      rw [hlast] at hentry
      refine .inr ⟨?_, hentry⟩
      intro m hm
      rw [lastMapping, List.find?_eq_none] at hlast
      simpa using hlast m (List.mem_reverse.2 hm)

/-! ## 訳した先 -/

/-- ページが、集まりのブロックであるか、ヒープの終わりより後ろにある。 -/
def Lands (own : Nat → Prop) (phys : Word) : Prop :=
  (∃ b < 25600, own b ∧ phys = blockAddr b) ∨ (blockAddr 25600).toNat ≤ phys.toNat

theorem Lands.imp (hr : Lands own p) (himp : ∀ b, own b → own' b) : Lands own' p :=
  Or.imp (fun ⟨b, hb, hown, heq⟩ => ⟨b, hb, himp b hown, heq⟩) id hr

theorem Spans.lands {a phys : Word} {k q : Nat} (hs : Spans own a k) (hq : q < k) (hphys : phys.toNat = a.toNat + 4096 * q) :
    Lands own phys := by
  obtain ⟨c, hc, rfl, hown⟩ := hs
  have hto := blockAddr_toNat (Nat.le_of_lt hc)
  have hend : (blockAddr 25600).toNat = 0x07400000 := rfl
  by_cases hlt : c + q < 25600
  · refine .inl ⟨c + q, hlt, hown q hq hlt, ?_⟩
    apply BitVec.eq_of_toNat_eq
    rw [hphys, hto, blockAddr_toNat (Nat.le_of_lt hlt)]
    omega
  · refine .inr ?_
    rw [hphys, hto, hend]
    omega

/-- 書き込めるプログラムヘッダのページが、どれもファイルのための割り当ての中にある。`elf_load` は `p_memsz` を調べない。 -/
def Sealed (s : Kernel) (p : Word) : Prop :=
  (s.procs p).fileType = PROCESS_FILE_TYPE_ELF → ∀ m ∈ elfMappings s.mem (s.elfFiles (s.procs p).addr), m.flags = userFlags →
    Lands (InAllocation s.heap (s.elfFiles (s.procs p).addr).elfMemory) m.phys

/-- 割り付けが書き込めるなら、集まりへ訳す。 -/
def Mapping.Within (own : Nat → Prop) (m : Mapping) : Prop :=
  PageAligned m.virt ∧ PageAligned m.phys ∧ m.flags ∈ [0, PAGING_IS_PRESENT ||| PAGING_ACCESS_FROM_ALL, userFlags] ∧
    (m.flags = userFlags → Lands own m.phys)

theorem Mapping.Within.lands (hm : m.Within own) (hw : UserWritable (m.phys ||| m.flags)) :
    Lands own ((m.phys ||| m.flags) &&& 0xFFFFF000) := by
  obtain ⟨-, hphys, hflags, hreach⟩ := hm
  rw [hphys.and_mask (flags_lt hflags)]
  exact hreach ((userWritable_iff hphys hflags).1 hw)

/-! ## 読み込みの割り付け -/

/-- 続く `k` ページを割り付けるときの、物理ページ。 -/
theorem pageMappings_phys {virt phys flags : Word} {k : Nat} (hm : m ∈ pageMappings virt phys flags k)
    (hle : phys.toNat + 4096 * k ≤ 2 ^ 32) : ∃ q < k, m.phys.toNat = phys.toNat + 4096 * q ∧ m.flags = flags := by
  obtain ⟨q, hq, rfl⟩ := List.mem_map.1 hm
  rw [List.mem_range] at hq
  have hpage : PAGING_PAGE_SIZE.toNat = 4096 := rfl
  refine ⟨q, hq, ?_, rfl⟩
  rw [BitVec.toNat_add, BitVec.toNat_mul, BitVec.toNat_ofNat, hpage]
  omega

theorem stackMappings_within {c : Nat} (hc : c < 25600) (hs : Spans own (blockAddr c) 4) (hm : m ∈ stackMappings (blockAddr c)) :
    m.Within own := by
  have hal := pageAligned_blockAddr (Nat.le_of_lt hc)
  have hto := blockAddr_toNat (Nat.le_of_lt hc)
  obtain ⟨hv, hp⟩ := pageMappings_aligned (by decide) hal hm
  obtain ⟨q, hq, hphys, hflags⟩ := pageMappings_phys hm (by omega)
  refine ⟨hv, hp, ?_, fun _ => hs.lands hq hphys⟩
  rw [hflags]
  decide

theorem elfMappings_within {mem : Memory} {file : ElfFile}
    (hreach : ∀ m ∈ elfMappings mem file, m.flags = userFlags → Lands own m.phys) (hm : m ∈ elfMappings mem file) :
    m.Within own := by
  obtain ⟨hv, hp⟩ := elfMappings_aligned hm
  refine ⟨hv, hp, ?_, hreach m hm⟩
  obtain ⟨j, -, -, hm⟩ := mem_elfMappingsFrom.1 hm
  obtain ⟨q, -, rfl⟩ := List.mem_map.1 hm
  rcases phdrFlags_cases (elfProgramHeader mem file.elfMemory (0 + j)) with h | h
  · simp only [h]
    decide
  · simp only [h]
    decide

/-- 平らなバイナリの割り付けの列。 -/
def binMappings (image : Process) : List Mapping :=
  if pagingAlignAddress (image.addr + image.size) < image.addr then []
  else pageMappings ENKI_PGM_VIRT_ADDR image.addr userFlags
    (pageCount image.addr (pagingAlignAddress (image.addr + image.size)))

theorem processMapBin_words (hal : PageAligned image.addr) :
    (processMapBin words dir image).2 = (binMappings image).foldl (Mapping.put dir) words := by
  simp only [processMapBin, binMappings]
  rw [pagingMapTo_eq (by decide) hal (pageAligned_alignAddress _)]
  split
  · rfl
  · rfl

theorem binMappings_within (hal : PageAligned image.addr) (hs : Spans own image.addr (blocksFor image.size))
    (hm : m ∈ binMappings image) : m.Within own := by
  rw [binMappings] at hm
  split at hm
  · cases hm
  · rename_i hle
    have hle : image.addr ≤ pagingAlignAddress (image.addr + image.size) := BitVec.not_lt.1 hle
    have hcount := pageCount_eq hle
    have hnat : image.addr.toNat ≤ (pagingAlignAddress (image.addr + image.size)).toNat := hle
    have hend := pagingAlignAddress_toNat (image.addr + image.size)
    have hlt := (pagingAlignAddress (image.addr + image.size)).isLt
    have hblocks : blocksFor image.size = (image.size.toNat + 4095) / 4096 := rfl
    have hpages : pageCount image.addr (pagingAlignAddress (image.addr + image.size)) ≤ blocksFor image.size ∧
        image.addr.toNat + 4096 * pageCount image.addr (pagingAlignAddress (image.addr + image.size)) ≤ 2 ^ 32 := by
      rw [BitVec.toNat_add] at hend
      simp only [PageAligned] at hal
      split at hcount <;> omega
    obtain ⟨hv, hp⟩ := pageMappings_aligned (by decide) hal hm
    obtain ⟨q, hq, hphys, hflags⟩ := pageMappings_phys hm hpages.2
    refine ⟨hv, hp, ?_, fun _ => hs.lands (by omega) hphys⟩
    rw [hflags]
    decide

/-! ## 囲い -/

/-- `base` の中に、見せない集まりと、プログラムの書き込める集まりがある。書き込める項目は、書き込める集まりか、記録のブロックを
そのままの番地へ訳す。 -/
structure Fenced (s : Kernel) (p entries : Word) (table : Nat → Word) (base hidden ground : Nat → Prop) : Prop where
  pageDir : PageDir s.words (s.tasks (s.procs p).task).pageDir entries table
  within : ∀ b, hidden b ∨ ground b → base b
  closed : Closed s.heap hidden
  apart : ∀ b, hidden b → ¬ground b
  secret : ∀ a, Secret s p a → ∃ b, hidden b ∧ a = blockAddr b
  entry : ∀ n < 2 ^ 20, UserWritable (s.words (pageSlot table n)) →
    Lands ground (s.words (pageSlot table n) &&& 0xFFFFF000) ∨
      ∃ b, Recorded s p b ∧ n = 4096 + b ∧ s.words (pageSlot table n) &&& 0xFFFFF000 = blockAddr b

namespace Fenced

/-- 自分のブロックに触れない変化の後も、書き込める範囲は同じである。 -/
theorem left (hf : Fenced s p entries table base hidden ground) (he : Estate s p base) (hl : Leaves s s' p base) :
    Fenced s' p entries table base hidden ground where
  pageDir := he.left_pageDir hl hf.pageDir
  within := hf.within
  closed := hf.closed.congr fun b hb => hl.entries b (.inl (hf.within b (.inl hb)))
  apart := hf.apart
  secret a ha := by
    refine hf.secret a ?_
    have hcalls : pagingFreeCalls s'.words (s'.tasks (s'.procs p).task).pageDir =
        pagingFreeCalls s.words (s.tasks (s.procs p).task).pageDir := by
      rw [(he.left_pageDir hl hf.pageDir).freeCalls_eq, hf.pageDir.freeCalls_eq, hl.record, hl.pageDir]
    rw [Secret, ElfRecord, hcalls, hl.record] at ha
    exact ha
  entry n hn hw := by
    have hsame : s'.words (pageSlot table n) = s.words (pageSlot table n) := by
      obtain ⟨b, hb, heq⟩ := he.pageDir_base hf.pageDir (.inr (.inr ⟨n / 1024, by omega, rfl⟩))
      rw [pageSlot, heq]
      exact hl.words b hb _ (Nat.mod_lt n (by decide))
    rw [hsame] at hw ⊢
    refine (hf.entry n hn hw).imp id ?_
    rintro ⟨b, hrec, hrest⟩
    refine ⟨b, ?_, hrest⟩
    rw [Recorded, hl.record]
    exact hrec

/-- 自分の表の項目の変化は、新しい記録のブロックを書き込めるようにするか、残る記録の項目を変えない。 -/
theorem remap (hf : Fenced s p entries table base hidden ground) (hsame : SameImage s s' p entries table)
    (hfixed : ∀ b, base b → s'.heap.table.entries b = s.heap.table.entries b)
    (hentry : ∀ n < 2 ^ 20, UserWritable (s'.words (pageSlot table n)) →
      (∃ b, Recorded s' p b ∧ n = 4096 + b ∧ s'.words (pageSlot table n) &&& 0xFFFFF000 = blockAddr b) ∨
        s'.words (pageSlot table n) = s.words (pageSlot table n) ∧ ∀ b, n = 4096 + b → Recorded s p b → Recorded s' p b) :
    Fenced s' p entries table base hidden ground := by
  have htask : (s'.procs p).task = (s.procs p).task := by rw [hsame.record]
  have htype : (s'.procs p).fileType = (s.procs p).fileType := by rw [hsame.record]
  have haddr : (s'.procs p).addr = (s.procs p).addr := by rw [hsame.record]
  have hpage : PageDir s'.words (s'.tasks (s'.procs p).task).pageDir entries table := by
    rw [htask, hsame.tasks]
    exact hsame.pageDir
  refine ⟨hpage, hf.within, hf.closed.congr fun b hb => hfixed b (hf.within b (.inl hb)), hf.apart, ?_, ?_⟩
  · intro a ha
    refine hf.secret a ?_
    have hcalls : pagingFreeCalls s'.words (s'.tasks (s'.procs p).task).pageDir =
        pagingFreeCalls s.words (s.tasks (s.procs p).task).pageDir := by
      rw [hpage.freeCalls_eq, hf.pageDir.freeCalls_eq, htask, hsame.tasks]
    rw [Secret, ElfRecord, hcalls, htype, haddr, htask] at ha
    exact ha
  · intro n hn hw
    rcases hentry n hn hw with hnew | ⟨hold, hkept⟩
    · exact .inr hnew
    · rw [hold] at hw ⊢
      refine (hf.entry n hn hw).imp id ?_
      rintro ⟨b, hrec, heq, hphys⟩
      exact ⟨b, hkept b heq hrec, heq, hphys⟩

end Fenced

/-! ## 割り当てと解放 -/

/-- 続くブロックを自分自身へ割り付けた後の項目。 -/
theorem PageDir.blocks_cases (h : PageDir words dir entries table) {flags : Word} {c k : Nat} (hc : c + k ≤ 25600)
    (hn : n < 2 ^ 20) (hwords : words' = (pageMappings (blockAddr c) (blockAddr c) flags k).foldl (Mapping.put dir) words) :
    (∃ b, c ≤ b ∧ b < c + k ∧ n = 4096 + b ∧ words' (pageSlot table n) = blockAddr b ||| flags) ∨
    ((∀ b, c ≤ b → b < c + k → n ≠ 4096 + b) ∧ words' (pageSlot table n) = words (pageSlot table n)) := by
  have hal : PageAligned (blockAddr c) := pageAligned_blockAddr (by omega)
  by_cases hin : ∃ b, c ≤ b ∧ b < c + k ∧ n = 4096 + b
  · obtain ⟨b, h1, h2, rfl⟩ := hin
    refine .inl ⟨b, h1, h2, rfl, ?_⟩
    rw [hwords, h.map_blocks flags hc (by omega), if_pos ⟨h1, h2⟩]
  · have hno : ∀ b, c ≤ b → b < c + k → n ≠ 4096 + b := fun b h1 h2 he => hin ⟨b, h1, h2, he⟩
    rw [hwords]
    refine .inr ⟨hno, ?_⟩
    rcases h.put_cases (pageMappings (blockAddr c) (blockAddr c) flags k)
      (fun m hm => pageMappings_aligned hal hal hm) hn with ⟨m, hm, hpage, -⟩ | ⟨-, hsame⟩
    · -- 割り付けのページは、どれも範囲のブロックのものである。
      have hto := blockAddr_toNat (b := c) (by omega)
      obtain ⟨q, hq, rfl⟩ := List.mem_map.1 hm
      rw [List.mem_range] at hq
      have hsize : PAGING_PAGE_SIZE.toNat = 4096 := rfl
      simp only at hpage
      rw [BitVec.toNat_add, BitVec.toNat_mul, BitVec.toNat_ofNat, hsize, hto] at hpage
      exact absurd (show n = 4096 + (c + q) by omega) (hno _ (by omega) (by omega))
    · exact hsame

theorem Fenced.malloc (hf : Fenced s p entries table base hidden ground) (he : Estate s p base) (ht : Tidy s.heap)
    (hpos : 0 < size.toNat) (hserve : s.heap.Serves size) (h : processMalloc s p size = .ok (ptr, s')) :
    Fenced s' p entries table base hidden ground := by
  have hfixed := (he.malloc ht hpos hserve h).fixed
  have hsame := processMalloc_sameImage h hf.pageDir
  refine hf.remap hsame hfixed fun n hn hw => ?_
  rcases processMalloc_cases h with ⟨-, -, hs'⟩ | ⟨h0, -, hfail, hprocs, -, -⟩ | ⟨h0, -, -, -, idx, hfind, hs'⟩
  · rw [hs']
    exact .inr ⟨rfl, fun _ _ hrec => hrec⟩
  · refine .inr ⟨?_, fun b _ hrec => ?_⟩
    · rcases hfail with ⟨-, hwords⟩ | ⟨-, hneg⟩
      · rw [hwords]
      · obtain ⟨c, hc, hmade, -⟩ := ht.toKernelHeap.kzalloc_fit hpos (hserve.resolve_right h0)
        rw [hmade, mallocMap_eq hc] at hneg
        exact absurd hneg (Int.lt_irrefl 0)
    · rw [Recorded, hprocs]
      exact hrec
  · obtain ⟨c, hc, hmade, -⟩ := ht.toKernelHeap.kzalloc_fit hpos (hserve.resolve_right h0)
    obtain ⟨hidx, hslot⟩ := processFindFreeAlloc_some hfind
    have hwords : s'.words = (pageMappings (blockAddr c) (blockAddr c) userFlags (blocksFor size)).foldl
        (Mapping.put (s.tasks (s.procs p).task).pageDir) s.words := by
      rw [hs', mallocState_words, hmade, mallocMap_eq hc]
    have hrecorded : ∀ b, Recorded s' p b ↔ Recorded s p b ∨ c ≤ b ∧ b < c + blocksFor size := by
      intro b
      rw [hs', recorded_malloc hidx hslot h0, covers_blockAddr (by omega) hmade]
    rcases hf.pageDir.blocks_cases hc hn hwords with ⟨b, h1, h2, heq, hnew⟩ | ⟨-, hold⟩
    · refine .inl ⟨b, (hrecorded b).2 (.inr ⟨h1, h2⟩), heq, ?_⟩
      rw [hnew]
      exact (pageAligned_blockAddr (by omega)).and_mask (by decide)
    · exact .inr ⟨hold, fun b _ hrec => (hrecorded b).2 (.inl hrec)⟩

/-- 解放の後にも、解放した記録のほかの記録は残る。 -/
theorem Estate.recorded_freeState (he : Estate s p base) {i : Nat} (hi : i < ENKI_MAX_PGM_ALLOCATIONS) (hrec : Recorded s p b)
    (hnot : ¬(((s.procs p).allocations i).ptr ≠ 0 ∧ ((s.procs p).allocations i).Covers b)) :
    Recorded (EnkiOs.freeState s p ((s.procs p).allocations i).ptr ((s.procs p).allocations i)) p b := by
  obtain ⟨j, hj, hne, hcov⟩ := hrec
  have hother : ((s.procs p).allocations j).ptr ≠ ((s.procs p).allocations i).ptr := by
    intro heq
    have hij : j ≠ i := by
      rintro rfl
      exact hnot ⟨hne, hcov⟩
    -- 二つの記録は先頭のブロックを共有しない。
    obtain ⟨⟨c, hptr, hc⟩, hpos, -⟩ := he.laid j hj hne
    obtain ⟨⟨d, hptr', hd⟩, hpos', -⟩ := he.laid i hi (heq ▸ hne)
    have hcd := blockAddr_inj (by omega) (by omega) (hptr.symm.trans (heq.trans hptr'))
    refine he.distinct j hj i hi hij hne (heq ▸ hne) c ?_ ?_
    · exact (covers_blockAddr (by omega) hptr).2 ⟨Nat.le_refl c, by omega⟩
    · exact (covers_blockAddr (by omega) hptr').2 ⟨by omega, by omega⟩
  refine ⟨j, hj, ?_⟩
  rw [freeState_same, processAllocationDrop]
  simp only [hother, and_false, if_false]
  exact ⟨hne, hcov⟩

theorem Fenced.free (hf : Fenced s p entries table base hidden ground) (he : Estate s p base) (ht : Tidy s.heap)
    (h : processFree s p toFree = .ok s') : Fenced s' p entries table base hidden ground := by
  have hfixed := (he.free ht h).fixed
  have hsame := processFree_sameImage h hf.pageDir
  rcases processFree_cases h with ⟨-, hs'⟩ | ⟨alloc, hget, -, hmade⟩
  · rw [hs']
    exact hf
  · obtain ⟨i, hi, rfl, rfl⟩ := processGetAllocation_some hget
    rcases hmade with ⟨hneg, -⟩ | ⟨-, rfl⟩
    · rw [he.freeMap_zero hi] at hneg
      exact absurd hneg (Int.lt_irrefl 0)
    · refine hf.remap hsame hfixed fun n hn hw => .inr ?_
      by_cases h0 : ((s.procs p).allocations i).ptr = 0
      · refine ⟨?_, fun b _ hrec => he.recorded_freeState hi hrec fun hcov => hcov.1 h0⟩
        rw [freeState_words, freeMap, he.blank i (.inr h0)]
        rfl
      · obtain ⟨⟨c, hptr, hc⟩, -, -⟩ := he.laid i hi h0
        have hto := blockAddr_toNat (b := c) (by omega)
        have hcount : blocksFor ((s.procs p).allocations i).size = (((s.procs p).allocations i).size.toNat + 4095) / 4096 := rfl
        have hwords : (EnkiOs.freeState s p ((s.procs p).allocations i).ptr ((s.procs p).allocations i)).words =
            (pageMappings (blockAddr c) (blockAddr c) 0 (blocksFor ((s.procs p).allocations i).size)).foldl
              (Mapping.put (s.tasks (s.procs p).task).pageDir) s.words := by
          rw [freeState_words, freeMap, hptr, pagingMapTo_blocks (pageAligned_blockAddr (by omega)) (by rw [hto]; omega)]
        rcases hf.pageDir.blocks_cases hc hn hwords with ⟨b, -, hb, -, hnew⟩ | ⟨hout, hold⟩
        · rw [hnew, userWritable_iff (pageAligned_blockAddr (by omega)) (by decide)] at hw
          exact absurd hw (by decide)
        · refine ⟨hold, fun b heq hrec => he.recorded_freeState hi hrec fun hcov => ?_⟩
          obtain ⟨h1, h2⟩ := (covers_blockAddr (by omega) hptr).1 hcov.2
          exact hout b h1 h2 heq

/-! ## 読み込み -/

variable {fileName : List Byte} {slot : Int} {terminate : Kernel → Word → Except Fault (Int × Kernel)}

/-- 見せないアドレスも見せるアドレスも、記録か、終了のときに返すアドレスである。 -/
theorem mem_release_of {a : Word} (hcode : 0 ≤ (processFreePgmData s p).1)
    (haddr : ElfRecord s p (s.procs p).addr → (s.procs p).addr ≠ 0) (ha : Secret s p a ∨ Shown s p a) :
    a = p ∨ a ∈ processReleaseCalls s p := by
  have hrest : ∀ x ∈ (s.procs p).stack :: pagingFreeCalls s.words (s.tasks (s.procs p).task).pageDir ++
      [(s.procs p).task], x ∈ processReleaseCalls s p := by
    intro x hx
    rw [processReleaseCalls, if_neg (Int.not_lt.2 hcode)]
    exact List.mem_append_right _ hx
  have hdata : ∀ x ∈ processFreePgmDataCalls s p, x ∈ processReleaseCalls s p :=
    fun x hx => List.mem_append_left _ hx
  have helf : (s.procs p).fileType = PROCESS_FILE_TYPE_ELF →
      processFreePgmDataCalls s p = [(s.elfFiles (s.procs p).addr).elfMemory, (s.procs p).addr] := by
    intro htype
    simp only [processFreePgmDataCalls]
    rw [if_neg (by rw [htype]; decide), if_pos ⟨htype, haddr ⟨htype, rfl⟩⟩]
  rcases ha with ((rfl | ⟨htype, rfl⟩) | rfl | ha) | rfl | rfl
  · exact .inl rfl
  · refine .inr (hdata _ ?_)
    rw [helf htype]
    exact List.mem_cons_of_mem _ List.mem_cons_self
  · exact .inr (hrest _ (List.mem_append_right _ List.mem_cons_self))
  · exact .inr (hrest _ (List.mem_append_left _ (List.mem_cons_of_mem _ ha)))
  · refine .inr (hdata _ ?_)
    rw [imageStart]
    split
    · rename_i htype
      rw [helf htype]
      exact List.mem_cons_self
    · rename_i htype
      rw [processFreePgmData_code] at hcode
      split at hcode
      · rename_i hor
        simp only [processFreePgmDataCalls]
        rw [if_pos (hor.resolve_right htype)]
        exact List.mem_cons_self
      · exact absurd hcode (by decide)
  · exact .inr (hrest _ (List.mem_append_left _ List.mem_cons_self))

/-- 本体の割り付けは、書き込めるページを、見せるブロックだけへ訳す割り付けの列である。 -/
theorem processMapImage_within (hmap : processMapImage s image dir = .ok (result, words))
    (hbin : image.fileType = PROCESS_FILE_TYPE_BIN → Spans own image.addr (blocksFor image.size))
    (helf : image.fileType = PROCESS_FILE_TYPE_ELF → ∀ m ∈ elfMappings s.mem (s.elfFiles image.addr), m.flags = userFlags →
      Lands own m.phys) : ∃ ms : List Mapping, words = ms.foldl (Mapping.put dir) s.words ∧ ∀ m ∈ ms, m.Within own := by
  rw [processMapImage] at hmap
  split at hmap
  · rename_i htype
    have hspans := hbin htype
    obtain ⟨c, hc, heq, -⟩ := hbin htype
    have hal : PageAligned image.addr := heq ▸ pageAligned_blockAddr (Nat.le_of_lt hc)
    refine ⟨binMappings image, ?_, fun m hm => binMappings_within hal hspans hm⟩
    rw [← processMapBin_words hal, Except.ok.inj hmap]
  · split at hmap
    · rename_i htype
      refine ⟨elfMappings s.mem (s.elfFiles image.addr), ?_, fun m hm => elfMappings_within (helf htype) hm⟩
      rw [← processMapElf_words, Except.ok.inj hmap]
    · cases hmap

/-- `paging_new` の項目の上に、範囲の中への割り付けを重ねた表では、書き込める項目は範囲の中へ訳す。 -/
theorem PageDir.lands (h : PageDir words dir entries table)
    (hinit : ∀ n < 2 ^ 20, words (pageSlot table n) = BitVec.ofNat 32 (4096 * n) ||| readFlags) (hms : ∀ m ∈ ms, m.Within own)
    (hn : n < 2 ^ 20) (hw : UserWritable (ms.foldl (Mapping.put dir) words (pageSlot table n))) :
    Lands own (ms.foldl (Mapping.put dir) words (pageSlot table n) &&& 0xFFFFF000) := by
  rcases h.put_cases ms (fun m hm => ⟨(hms m hm).1, (hms m hm).2.1⟩) hn with ⟨m, hm, -, heq⟩ | ⟨-, heq⟩
  · rw [heq] at hw ⊢
    exact (hms m hm).lands hw
  · rw [heq, hinit n hn, userWritable_iff (ofNat_page_aligned n) (by decide)] at hw
    exact absurd hw (by decide)

/-- 書き込めるプログラムヘッダが自分のファイルに収まる読み込みの後には、書き込める範囲が定まる。 -/
theorem processLoadSlotWith_fenced (ht : Tidy s.heap) (hstray : Stray s.toFileState)
    (h : processLoadSlotWith terminate s fileName slot = .ok (result, proc, s')) (hresult : 0 ≤ result)
    (hfits : ImageFits (s'.procs proc)) (hsealed : Sealed s' proc) :
    ∃ entries table hidden ground, Fenced s' proc entries table (settledOwn s s' proc) hidden ground := by
  have hset := processLoadSlotWith_settles ht hstray h hresult hfits
  obtain ⟨hidden, ground, hh, hbin, hstack⟩ := processLoadSlotWith_halves ht hstray h hresult hfits
  obtain ⟨s₁, t, dir, heap₁, words, words₁, hprep, -, hkt, hpaging, hmem', hfiles, hproc, hdir, himg, hwords⟩ :=
    processLoadSlotWith_state h hresult
  have hp := processPrepareWith_prepared ht hstray hprep (by simpa [ImageFits, hproc] using hfits)
  have hk : KernelHeap heap₁ := by
    have hkept := (kernelHeap_kept.kzalloc TASK_SIZE hp.shelters.tidy.toKernelHeap).1
    rwa [hkt] at hkept
  obtain ⟨-, -, entries, table, hpage, hinit, -⟩ := pagingNew_pageDir kernelHeap_kept hk hk hpaging
  have hsealed' : (s'.procs proc).fileType = PROCESS_FILE_TYPE_ELF →
      ∀ m ∈ elfMappings s₁.mem (s₁.elfFiles (s'.procs proc).addr), m.flags = userFlags → Lands ground m.phys := by
    intro htype m hm hflags
    rw [← hmem', ← hfiles] at hm
    refine (hsealed htype m hm hflags).imp fun b hb => hh.groundClosed.inAllocation (hh.exposed _ (.inl ?_)) hb
    rw [imageStart, if_pos htype]
  obtain ⟨ms, hms, hwithin⟩ := processMapImage_within himg hbin hsealed'
  obtain ⟨c, hc, heq, hown⟩ := hstack
  have hfinal : s'.words = (ms ++ stackMappings (blockAddr c)).foldl (Mapping.put dir) words := by
    rw [hwords, heq, processMapStack_eq hc, List.foldl_append, hms]
  have hall : ∀ m ∈ ms ++ stackMappings (blockAddr c), m.Within ground := by
    intro m hm
    rcases List.mem_append.1 hm with hm | hm
    · exact hwithin m hm
    · exact stackMappings_within hc ⟨c, hc, rfl, hown⟩ hm
  have htask : (s'.tasks (s'.procs proc).task).pageDir = dir := by
    rw [hproc]
    exact hdir
  have haddr : ElfRecord s' proc (s'.procs proc).addr → (s'.procs proc).addr ≠ 0 := by
    intro hrec
    obtain ⟨b, hb, haddr⟩ := hh.secret _ (.inl (.inr hrec))
    rw [haddr]
    exact blockAddr_ne_zero (Nat.le_of_lt (hh.hiddenClosed.taken b hb).1)
  refine ⟨entries, table, hidden, ground, ?_, ?_, hh.hiddenClosed, hh.apart, hh.secret, ?_⟩
  · rw [htask, hfinal]
    exact (hpage.foldl_put _ fun m hm => ⟨(hall m hm).1, (hall m hm).2.1⟩).1
  · rintro b (hb | hb)
    · obtain ⟨a, ha, hext⟩ := hh.hiddenIn b hb
      exact ⟨a, mem_release_of hset.released haddr (.inl ha), hext⟩
    · obtain ⟨a, ha, hext⟩ := hh.groundIn b hb
      exact ⟨a, mem_release_of hset.released haddr (.inr ha), hext⟩
  · intro n hn hw
    rw [hfinal] at hw ⊢
    exact .inl (hpage.lands hinit hall hn hw)

end EnkiOs
