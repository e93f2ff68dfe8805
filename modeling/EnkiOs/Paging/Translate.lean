import EnkiOs.Paging.New

/-!
# アドレスの変換

CPU は、読み込んだディレクトリの二段の表をたどって、仮想アドレスを物理アドレスへ移す。カーネルの動作では、項目の
書き込みの可否は見られず、表にあるかどうかだけが見られる。
-/

namespace EnkiOs
open Machine

/-- ディレクトリ `dir` を読み込んだ CPU の、`virtAddr` の変換。 -/
def pageTranslate (words : Words) (dir virtAddr : Word) : Except Fault Word :=
  let span := BitVec.ofNat 32 PAGING_TOTAL_ENTRIES_PER_TABLE * PAGING_PAGE_SIZE
  let dirEntry := words (entryAddr dir (virtAddr / span))
  if dirEntry &&& PAGING_IS_PRESENT = 0 then .error .pageFault
  else
    let entry := words (entryAddr (dirEntry &&& 0xFFFFF000) (virtAddr % span / PAGING_PAGE_SIZE))
    if entry &&& PAGING_IS_PRESENT = 0 then .error .pageFault
    else .ok ((entry &&& 0xFFFFF000) + virtAddr % PAGING_PAGE_SIZE)

/-- アドレスの属するページの番号。 -/
def pageOf (a : Word) : Nat := a.toNat / 4096

theorem pageOf_lt (a : Word) : pageOf a < 2 ^ 20 := by
  have := a.isLt
  rw [pageOf]
  omega

/-- ページ `n` の項目を載せるディレクトリの項目のアドレス。 -/
def dirSlot (entries : Word) (n : Nat) : Word := entryAddr entries (BitVec.ofNat 32 (n / 1024))

/-- 項目 `entry` のページの中の、`virt` の物理アドレス。 -/
def entryTarget (entry virt : Word) : Except Fault Word :=
  if entry &&& PAGING_IS_PRESENT = 0 then .error .pageFault
  else .ok ((entry &&& 0xFFFFF000) + virt % PAGING_PAGE_SIZE)

namespace PageDir

variable {words : Words} {dir entries virt : Word} {table : Nat → Word}

/-- 変換は、ディレクトリの項目とページの項目だけで決まる。 -/
theorem translate_eq (h : PageDir words dir entries table) :
    pageTranslate words entries virt =
      if words (dirSlot entries (pageOf virt)) &&& PAGING_IS_PRESENT = 0 then .error .pageFault
      else entryTarget (words (pageSlot table (pageOf virt))) virt := by
  have hspan : (BitVec.ofNat 32 PAGING_TOTAL_ENTRIES_PER_TABLE * PAGING_PAGE_SIZE).toNat = 4194304 := rfl
  have hp : PAGING_PAGE_SIZE.toNat = 4096 := rfl
  have hlt := virt.isLt
  have hdir : virt / (BitVec.ofNat 32 PAGING_TOTAL_ENTRIES_PER_TABLE * PAGING_PAGE_SIZE) =
      BitVec.ofNat 32 (pageOf virt / 1024) := by
    apply BitVec.eq_of_toNat_eq
    rw [BitVec.toNat_udiv, hspan, BitVec.toNat_ofNat, pageOf]
    omega
  have htable : virt % (BitVec.ofNat 32 PAGING_TOTAL_ENTRIES_PER_TABLE * PAGING_PAGE_SIZE) / PAGING_PAGE_SIZE =
      BitVec.ofNat 32 (pageOf virt % 1024) := by
    apply BitVec.eq_of_toNat_eq
    rw [BitVec.toNat_udiv, BitVec.toNat_umod, hspan, hp, BitVec.toNat_ofNat, pageOf]
    omega
  have hlt' := pageOf_lt virt
  simp only [pageTranslate]
  rw [hdir, htable, h.dirEntry _ (by omega)]
  rfl

theorem dirSlot_ne (h : PageDir words dir entries table) {m n : Nat} (hm : m < 2 ^ 20) (hn : n < 2 ^ 20) :
    dirSlot entries m ≠ pageSlot table n := by
  intro he
  have hdir : m / 1024 < 1024 := by omega
  have htable : n / 1024 < 1024 := by omega
  obtain ⟨ht, -⟩ := entryAddr_inj h.entries_aligned (h.table_aligned _ htable) hdir (Nat.mod_lt n (by decide)) he
  exact h.table_ne_entries _ htable ht.symm

theorem translate_other (h : PageDir words dir entries table) {n : Nat} (hn : n < 2 ^ 20) (hne : pageOf virt ≠ n)
    (val : Word) : pageTranslate (words.set (pageSlot table n) val) entries virt = pageTranslate words entries virt := by
  have hlt := pageOf_lt virt
  rw [(h.set hn val).translate_eq, h.translate_eq, Words.set_other _ (h.dirSlot_ne hlt hn),
    Words.set_other _ fun he => hne (h.slot_inj hlt hn he)]

theorem translate_same (h : PageDir words dir entries table) (val : Word) :
    pageTranslate (words.set (pageSlot table (pageOf virt)) val) entries virt =
      if words (dirSlot entries (pageOf virt)) &&& PAGING_IS_PRESENT = 0 then .error .pageFault
      else entryTarget val virt := by
  have hlt := pageOf_lt virt
  rw [(h.set hlt val).translate_eq, Words.set_other _ (h.dirSlot_ne hlt hlt), Words.set_same]

end PageDir

theorem present_or (a : Word) {flags : Word} (hf : flags.getLsbD 0 = true) : (a ||| flags) &&& PAGING_IS_PRESENT ≠ 0 := by
  intro h0
  have h1 := congrArg (fun w : Word => w.getLsbD 0) h0
  rw [BitVec.getLsbD_and, BitVec.getLsbD_or, hf] at h1
  simp at h1

/-- 揃ったアドレスへの項目は、ページの先頭からの距離を保つ。 -/
theorem entryTarget_page {phys flags : Word} (hp : PageAligned phys) (hf : flags.toNat < 4096)
    (hpresent : (phys ||| flags) &&& PAGING_IS_PRESENT ≠ 0) (virt : Word) :
    entryTarget (phys ||| flags) virt = .ok (phys + virt % PAGING_PAGE_SIZE) := by
  rw [entryTarget, if_neg hpresent, hp.and_mask hf]

theorem mod_page_add {a : Word} (ha : PageAligned a) {j : Nat} (hj : j < 4096) :
    (a + BitVec.ofNat 32 j) % PAGING_PAGE_SIZE = BitVec.ofNat 32 j := by
  have hp : PAGING_PAGE_SIZE.toNat = 4096 := rfl
  have hlt := a.isLt
  simp only [PageAligned] at ha
  apply BitVec.eq_of_toNat_eq
  rw [BitVec.toNat_umod, BitVec.toNat_add, BitVec.toNat_ofNat, hp]
  omega

theorem pageOf_add {a : Word} (ha : PageAligned a) {j : Nat} (hj : j < 4096) :
    pageOf (a + BitVec.ofNat 32 j) = pageOf a := by
  have hlt := a.isLt
  simp only [PageAligned] at ha
  rw [pageOf, pageOf, BitVec.toNat_add, BitVec.toNat_ofNat]
  omega

/-- 別のページのアドレスは、ページの先頭から 4096 バイト以上離れている。 -/
theorem far_of_pageOf_ne {a p : Word} (ha : PageAligned a) (hne : pageOf p ≠ pageOf a) : 4096 ≤ (p - a).toNat := by
  have hlt := a.isLt
  have hlt' := p.isLt
  simp only [PageAligned, pageOf] at ha hne
  rw [BitVec.toNat_sub]
  omega

/-! ## `paging_get_phys_addr` -/

theorem alignToLower_div (virt : Word) :
    pagingAlignToLower virt / (BitVec.ofNat 32 PAGING_TOTAL_ENTRIES_PER_TABLE * PAGING_PAGE_SIZE) =
      virt / (BitVec.ofNat 32 PAGING_TOTAL_ENTRIES_PER_TABLE * PAGING_PAGE_SIZE) := by
  have hspan : (BitVec.ofNat 32 PAGING_TOTAL_ENTRIES_PER_TABLE * PAGING_PAGE_SIZE).toNat = 4194304 := rfl
  apply BitVec.eq_of_toNat_eq
  rw [BitVec.toNat_udiv, BitVec.toNat_udiv, hspan, pagingAlignToLower_toNat]
  omega

theorem alignToLower_table (virt : Word) :
    pagingAlignToLower virt % (BitVec.ofNat 32 PAGING_TOTAL_ENTRIES_PER_TABLE * PAGING_PAGE_SIZE) / PAGING_PAGE_SIZE =
      virt % (BitVec.ofNat 32 PAGING_TOTAL_ENTRIES_PER_TABLE * PAGING_PAGE_SIZE) / PAGING_PAGE_SIZE := by
  have hspan : (BitVec.ofNat 32 PAGING_TOTAL_ENTRIES_PER_TABLE * PAGING_PAGE_SIZE).toNat = 4194304 := rfl
  have hp : PAGING_PAGE_SIZE.toNat = 4096 := rfl
  apply BitVec.eq_of_toNat_eq
  simp only [BitVec.toNat_udiv, BitVec.toNat_umod, hspan, hp, pagingAlignToLower_toNat]
  omega

theorem pagingGet_alignToLower (words : Words) (dir virt : Word) :
    pagingGet words dir (pagingAlignToLower virt) =
      words (pagingEntry words dir (virt / (BitVec.ofNat 32 PAGING_TOTAL_ENTRIES_PER_TABLE * PAGING_PAGE_SIZE),
        virt % (BitVec.ofNat 32 PAGING_TOTAL_ENTRIES_PER_TABLE * PAGING_PAGE_SIZE) / PAGING_PAGE_SIZE)) := by
  have hal : pagingIsAligned (pagingAlignToLower virt) = true :=
    decide_eq_true (pageAligned_iff.2 (pageAligned_alignToLower virt))
  rw [pagingGet, pagingGetIndices, if_neg (by simp [hal])]
  simp only [alignToLower_div, alignToLower_table]

theorem sub_alignToLower (virt : Word) : virt - pagingAlignToLower virt = virt % PAGING_PAGE_SIZE := by
  rw [pagingAlignToLower]
  generalize virt % PAGING_PAGE_SIZE = r
  bv_omega

theorem mask_toNat_mod (entry : Word) : (entry &&& 0xFFFFF000).toNat % 4096 = 0 := by
  have hmask : ∀ i < 12, (0xFFFFF000 : Word).getLsbD i = false := by decide
  have hlow : ((entry &&& 0xFFFFF000).toNat % 2 ^ 12) = 0 := by
    apply Nat.eq_of_testBit_eq
    intro i
    rw [Nat.testBit_mod_two_pow, Nat.zero_testBit]
    by_cases hi : i < 12
    · have hbit : (entry &&& 0xFFFFF000).getLsbD i = false := by rw [BitVec.getLsbD_and, hmask i hi, Bool.and_false]
      rw [show (entry &&& 0xFFFFF000).toNat.testBit i = false from hbit, Bool.and_false]
    · rw [decide_eq_false hi, Bool.false_and]
  exact hlow

/-- 変換は、ページの先頭からの距離を変えない。 -/
theorem pagingGetPhysAddr_mod (words : Words) (dir virt : Word) :
    (pagingGetPhysAddr words dir virt).toNat % 4096 = virt.toNat % 4096 := by
  have hmask := mask_toNat_mod (pagingGet words dir (pagingAlignToLower virt))
  have hp : PAGING_PAGE_SIZE.toNat = 4096 := rfl
  simp only [pagingGetPhysAddr, sub_alignToLower]
  rw [BitVec.toNat_add, BitVec.toNat_umod, hp]
  omega

namespace PageDir

variable {words : Words} {dir entries : Word} {table : Nat → Word}

theorem get_alignToLower (h : PageDir words dir entries table) (virt : Word) :
    pagingGet words entries (pagingAlignToLower virt) = words (pageSlot table (pageOf virt)) := by
  have hpage : (pagingAlignToLower virt).toNat / 4096 = pageOf virt := by
    rw [pagingAlignToLower_toNat, pageOf]
    omega
  rw [h.get_eq (pageAligned_alignToLower virt), hpage]

theorem physAddr_eq (h : PageDir words dir entries table) {virt phys flags : Word} (hp : PageAligned phys)
    (hf : flags.toNat < 4096) (hentry : words (pageSlot table (pageOf virt)) = phys ||| flags) :
    pagingGetPhysAddr words entries virt = phys + virt % PAGING_PAGE_SIZE := by
  simp only [pagingGetPhysAddr, sub_alignToLower]
  rw [h.get_alignToLower, hentry, hp.and_mask hf]

end PageDir

end EnkiOs
