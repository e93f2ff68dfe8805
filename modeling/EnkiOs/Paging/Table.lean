import EnkiOs.Paging.Basic

/-!
# 二段のページの表

ディレクトリと 1024 個のテーブルを、ページの番号から項目への関数として見る。項目の書き込みは、この関数の一点の更新になる。
-/

namespace EnkiOs
open Machine

/-! ## 揃えたアドレス -/

/-- ページの先頭のアドレスである。 -/
def PageAligned (a : Word) : Prop := a.toNat % 4096 = 0

instance (a : Word) : Decidable (PageAligned a) := inferInstanceAs (Decidable (_ = _))

theorem pageAligned_iff {a : Word} : a % PAGING_PAGE_SIZE = 0 ↔ PageAligned a := by
  rw [← BitVec.toNat_inj, BitVec.toNat_umod]
  rfl

theorem PageAligned.add {a b : Word} (ha : PageAligned a) (hb : PageAligned b) : PageAligned (a + b) := by
  simp only [PageAligned, BitVec.toNat_add] at *
  omega

theorem pageAligned_page : PageAligned PAGING_PAGE_SIZE := by decide

theorem pagingAlignToLower_toNat (a : Word) :
    (pagingAlignToLower a).toNat = a.toNat - a.toNat % 4096 := by
  have hm : (a % PAGING_PAGE_SIZE).toNat = a.toNat % 4096 := by rw [BitVec.toNat_umod]; rfl
  rw [pagingAlignToLower, BitVec.toNat_sub, hm]
  have := a.isLt
  omega

theorem pageAligned_alignToLower (a : Word) : PageAligned (pagingAlignToLower a) := by
  rw [PageAligned, pagingAlignToLower_toNat]
  omega

/-- 最後のページの中では、切り上げると 0 に戻る。 -/
theorem pagingAlignAddress_toNat (a : Word) :
    (pagingAlignAddress a).toNat = (a.toNat + 4095) / 4096 * 4096 % 2 ^ 32 := by
  have hm : (a % PAGING_PAGE_SIZE).toNat = a.toNat % 4096 := by rw [BitVec.toNat_umod]; rfl
  have hp : PAGING_PAGE_SIZE.toNat = 4096 := rfl
  have ha := a.isLt
  rw [pagingAlignAddress]
  split
  · rename_i hne
    have h0 : a.toNat % 4096 ≠ 0 := by
      intro h0
      exact hne (pageAligned_iff.2 h0)
    rw [BitVec.toNat_sub, BitVec.toNat_add, hm, hp]
    omega
  · rename_i he
    have h0 : a.toNat % 4096 = 0 := pageAligned_iff.1 (Decidable.not_not.1 he)
    omega

theorem pageAligned_alignAddress (a : Word) : PageAligned (pagingAlignAddress a) := by
  rw [PageAligned, pagingAlignAddress_toNat]
  omega

/-! ## 項目のアドレス -/

theorem entryAddr_toNat {p : Word} (hp : PageAligned p) {i : Nat} (hi : i < 1024) :
    (entryAddr p (BitVec.ofNat 32 i)).toNat = p.toNat + 4 * i := by
  have h4 : (4 : Word).toNat = 4 := rfl
  have hlt := p.isLt
  simp only [PageAligned] at hp
  rw [entryAddr, BitVec.toNat_add, BitVec.toNat_mul, h4, BitVec.toNat_ofNat]
  omega

theorem entryAddr_inj {p q : Word} (hp : PageAligned p) (hq : PageAligned q) {i j : Nat} (hi : i < 1024)
    (hj : j < 1024) (h : entryAddr p (BitVec.ofNat 32 i) = entryAddr q (BitVec.ofNat 32 j)) : p = q ∧ i = j := by
  have hn := congrArg BitVec.toNat h
  rw [entryAddr_toNat hp hi, entryAddr_toNat hq hj] at hn
  simp only [PageAligned] at hp hq
  refine ⟨BitVec.eq_of_toNat_eq (by omega), by omega⟩

theorem entryAddr_zero (p : Word) : entryAddr p (BitVec.ofNat 32 0) = p := by
  simp [entryAddr]

/-! ## ページディレクトリ -/

/-- ページ `n` の項目のアドレス。 -/
def pageSlot (table : Nat → Word) (n : Nat) : Word := entryAddr (table (n / 1024)) (BitVec.ofNat 32 (n % 1024))

/-- `dir` の指すディレクトリ `entries` の項目が、互いに異なる 1024 個のテーブルを指す。 -/
structure PageDir (words : Words) (dir entries : Word) (table : Nat → Word) : Prop where
  dir_eq : words dir = entries
  dirEntry : ∀ i < 1024, words (entryAddr entries (BitVec.ofNat 32 i)) &&& 0xFFFFF000 = table i
  dir_aligned : PageAligned dir
  entries_aligned : PageAligned entries
  table_aligned : ∀ i < 1024, PageAligned (table i)
  table_inj : ∀ i < 1024, ∀ j < 1024, table i = table j → i = j
  table_ne_entries : ∀ i < 1024, table i ≠ entries
  table_ne_dir : ∀ i < 1024, table i ≠ dir

namespace PageDir

variable {words : Words} {dir entries : Word} {table : Nat → Word}

theorem slot_inj (h : PageDir words dir entries table) {m n : Nat} (hm : m < 2 ^ 20) (hn : n < 2 ^ 20)
    (he : pageSlot table m = pageSlot table n) : m = n := by
  have hm' : m / 1024 < 1024 := by omega
  have hn' : n / 1024 < 1024 := by omega
  obtain ⟨htable, hidx⟩ := entryAddr_inj (h.table_aligned _ hm') (h.table_aligned _ hn') (Nat.mod_lt m (by decide))
    (Nat.mod_lt n (by decide)) he
  have := h.table_inj _ hm' _ hn' htable
  omega

/-- 項目の番号の組は、ページの番号を 1024 で割った商と余りである。 -/
theorem indices_eq {virt : Word} (hv : PageAligned virt) :
    pagingGetIndices virt =
      .ok (BitVec.ofNat 32 (virt.toNat / 4096 / 1024), BitVec.ofNat 32 (virt.toNat / 4096 % 1024)) := by
  have hal : pagingIsAligned virt = true := decide_eq_true (pageAligned_iff.2 hv)
  have hspan : (BitVec.ofNat 32 PAGING_TOTAL_ENTRIES_PER_TABLE * PAGING_PAGE_SIZE).toNat = 4194304 := rfl
  have hp : PAGING_PAGE_SIZE.toNat = 4096 := rfl
  have hlt := virt.isLt
  rw [pagingGetIndices, if_neg (by simp [hal])]
  refine congrArg Except.ok (Prod.ext ?_ ?_)
  · apply BitVec.eq_of_toNat_eq
    rw [BitVec.toNat_udiv, hspan, BitVec.toNat_ofNat]
    omega
  · apply BitVec.eq_of_toNat_eq
    rw [BitVec.toNat_udiv, BitVec.toNat_umod, hspan, hp, BitVec.toNat_ofNat]
    omega

theorem entry_eq (h : PageDir words dir entries table) {virt : Word} :
    pagingEntry words entries
      (BitVec.ofNat 32 (virt.toNat / 4096 / 1024), BitVec.ofNat 32 (virt.toNat / 4096 % 1024)) =
      pageSlot table (virt.toNat / 4096) := by
  have hlt := virt.isLt
  rw [pagingEntry, h.dirEntry _ (by omega), pageSlot]

theorem get_eq (h : PageDir words dir entries table) {virt : Word} (hv : PageAligned virt) :
    pagingGet words entries virt = words (pageSlot table (virt.toNat / 4096)) := by
  rw [pagingGet, indices_eq hv]
  simp only [h.entry_eq]

theorem set_eq (h : PageDir words dir entries table) {virt : Word} (hv : PageAligned virt) (val : Word) :
    pagingSet words entries virt val = (0, words.set (pageSlot table (virt.toNat / 4096)) val) := by
  have hal : pagingIsAligned virt = true := decide_eq_true (pageAligned_iff.2 hv)
  rw [pagingSet, if_neg (by simp [hal]), indices_eq hv]
  simp only [h.entry_eq]

/-- テーブルの項目の書き込みは、ディレクトリを変えない。 -/
theorem set (h : PageDir words dir entries table) {n : Nat} (hn : n < 2 ^ 20) (val : Word) :
    PageDir (words.set (pageSlot table n) val) dir entries table := by
  have hn' : n / 1024 < 1024 := by omega
  have hmod : n % 1024 < 1024 := Nat.mod_lt n (by decide)
  refine { h with dir_eq := ?_, dirEntry := ?_ }
  · have hne : dir ≠ pageSlot table n := by
      intro he
      rw [← entryAddr_zero dir] at he
      obtain ⟨ht, -⟩ := entryAddr_inj h.dir_aligned (h.table_aligned _ hn') (by decide) hmod he
      exact h.table_ne_dir _ hn' ht.symm
    rw [Words.set_other _ hne]
    exact h.dir_eq
  · intro i hi
    have hne : entryAddr entries (BitVec.ofNat 32 i) ≠ pageSlot table n := by
      intro he
      obtain ⟨ht, -⟩ := entryAddr_inj h.entries_aligned (h.table_aligned _ hn') hi hmod he
      exact h.table_ne_entries _ hn' ht.symm
    rw [Words.set_other _ hne]
    exact h.dirEntry i hi

end PageDir

/-! ## 割り付けの列 -/

/-- 一つのページの割り付け。 -/
structure Mapping where
  virt : Word
  phys : Word
  flags : Word

/-- ページ一つ分の `paging_map`。 -/
def Mapping.put (dir : Word) (words : Words) (m : Mapping) : Words :=
  (pagingMap words dir m.virt m.phys m.flags).2

/-- 続く `k` ページの割り付け。 -/
def pageMappings (virt phys flags : Word) (k : Nat) : List Mapping :=
  (List.range k).map fun q =>
    ⟨virt + BitVec.ofNat 32 q * PAGING_PAGE_SIZE, phys + BitVec.ofNat 32 q * PAGING_PAGE_SIZE, flags⟩

theorem pageMappings_succ (virt phys flags : Word) (k : Nat) :
    pageMappings virt phys flags (k + 1) =
      ⟨virt, phys, flags⟩ :: pageMappings (virt + PAGING_PAGE_SIZE) (phys + PAGING_PAGE_SIZE) flags k := by
  have hstep : ∀ (a : Word) (q : Nat),
      a + BitVec.ofNat 32 (q + 1) * PAGING_PAGE_SIZE = a + PAGING_PAGE_SIZE + BitVec.ofNat 32 q * PAGING_PAGE_SIZE := by
    intro a q
    rw [BitVec.ofNat_add, BitVec.add_mul, BitVec.add_assoc, BitVec.add_comm (PAGING_PAGE_SIZE)]
    rfl
  rw [pageMappings, List.range_succ_eq_map, List.map_cons, List.map_map]
  refine List.cons_eq_cons.2 ⟨?_, ?_⟩
  · simp
  · apply List.map_congr_left
    intro q _
    simp only [Function.comp_apply, hstep]

theorem pageMappings_aligned {virt phys flags : Word} {k : Nat} (hv : PageAligned virt) (hp : PageAligned phys) {m : Mapping}
    (hm : m ∈ pageMappings virt phys flags k) : PageAligned m.virt ∧ PageAligned m.phys := by
  simp only [pageMappings, List.mem_map, List.mem_range] at hm
  obtain ⟨q, -, rfl⟩ := hm
  have hq : PageAligned (BitVec.ofNat 32 q * PAGING_PAGE_SIZE) := by
    have hpage : PAGING_PAGE_SIZE.toNat = 4096 := rfl
    rw [PageAligned, BitVec.toNat_mul, hpage]
    omega
  exact ⟨hv.add hq, hp.add hq⟩

theorem pagingMap_aligned {words : Words} {dir virt phys flags : Word} (hv : PageAligned virt) (hp : PageAligned phys) :
    pagingMap words dir virt phys flags = (0, (pagingSet words (words dir) virt (phys ||| flags)).2) := by
  have hal : pagingIsAligned virt = true := decide_eq_true (pageAligned_iff.2 hv)
  have hcond : ¬(virt % PAGING_PAGE_SIZE ≠ 0 ∨ phys % PAGING_PAGE_SIZE ≠ 0) := by
    rw [pageAligned_iff.2 hv, pageAligned_iff.2 hp]
    simp
  rw [pagingMap, if_neg hcond, pagingSet, if_neg (by simp [hal]), PageDir.indices_eq hv]

/-- 揃ったアドレスからの割り付けは、失敗せずに一ページずつ進む。 -/
theorem pagingMapLoop_eq (dir flags : Word) (k : Nat) {virt phys : Word} (hv : PageAligned virt) (hp : PageAligned phys)
    (result : Int) (words : Words) :
    pagingMapLoop dir flags k virt phys result words =
      (if k = 0 then result else 0, (pageMappings virt phys flags k).foldl (Mapping.put dir) words) := by
  induction k generalizing virt phys result words with
  | zero => rfl
  | succ k ih =>
      have hput : pagingMap words dir virt phys flags = (0, Mapping.put dir words ⟨virt, phys, flags⟩) := by
        rw [Mapping.put, pagingMap_aligned hv hp]
      rw [pagingMapLoop, hput, pageMappings_succ, List.foldl_cons]
      simp only [Int.lt_irrefl, if_false, Nat.add_eq_zero_iff, Nat.one_ne_zero, and_false]
      rw [ih (hv.add pageAligned_page) (hp.add pageAligned_page)]
      simp

/-- `paging_map_to` の割り付けるページの数。`2^31` バイト以上の範囲では 0 になる。 -/
def pageCount (phys physEnd : Word) : Nat := (Int.tdiv (physEnd - phys).toInt PAGING_PAGE_SIZE.toInt).toNat

theorem pagingMapTo_eq {words : Words} {dir virt phys physEnd flags : Word} (hv : PageAligned virt)
    (hp : PageAligned phys) (he : PageAligned physEnd) :
    pagingMapTo words dir virt phys physEnd flags =
      if physEnd < phys then (-EINVARG, words)
      else (0, (pageMappings virt phys flags (pageCount phys physEnd)).foldl (Mapping.put dir) words) := by
  have hcond : ¬(virt % PAGING_PAGE_SIZE ≠ 0 ∨ phys % PAGING_PAGE_SIZE ≠ 0) := by
    rw [pageAligned_iff.2 hv, pageAligned_iff.2 hp]
    simp
  rw [pagingMapTo, if_neg hcond]
  by_cases hlt : physEnd < phys
  · rw [if_pos (.inr hlt), if_pos hlt]
  · rw [if_neg hlt, if_neg (by rw [pageAligned_iff.2 he]; simp [hlt])]
    simp only [pagingMapRange]
    rw [pagingMapLoop_eq _ _ _ hv hp]
    simp [pageCount]

/-- 範囲の終わりが手前になければ、数は差を 4096 で割ったものか、0 である。 -/
theorem pageCount_eq {phys physEnd : Word} (hle : phys ≤ physEnd) :
    pageCount phys physEnd =
      if physEnd.toNat - phys.toNat < 2 ^ 31 then (physEnd.toNat - phys.toNat) / 4096 else 0 := by
  have hsub : (physEnd - phys).toNat = physEnd.toNat - phys.toNat := BitVec.toNat_sub_of_le hle
  have hpage : PAGING_PAGE_SIZE.toInt = 4096 := rfl
  have hlt := (physEnd - phys).isLt
  rw [pageCount, hpage]
  split
  · rename_i h
    rw [toInt_of_lt (by omega), hsub]
    rfl
  · rename_i h
    have hneg : ((physEnd - phys).toNat : Int) - 2 ^ 32 = -(2 ^ 32 - (physEnd - phys).toNat) := by omega
    rw [toInt_of_le (by omega), hneg, Int.neg_tdiv, Int.toNat_eq_zero]
    have := Int.tdiv_nonneg (show (0 : Int) ≤ 2 ^ 32 - (physEnd - phys).toNat by omega) (show (0 : Int) ≤ 4096 by decide)
    omega

/-- 割り付けの列 `ms` の後の、ページ `n` の項目。後の割り付けが優先する。初めの項目は `entry` である。 -/
def mappedEntry (n : Nat) (entry : Word) : List Mapping → Word
  | [] => entry
  | m :: ms => mappedEntry n (if m.virt.toNat / 4096 = n then m.phys ||| m.flags else entry) ms

/-- 割り付けの列は、ディレクトリの形を保ち、ページごとの項目だけを変える。 -/
theorem PageDir.foldl_put {words : Words} {dir entries : Word} {table : Nat → Word}
    (h : PageDir words dir entries table) (ms : List Mapping)
    (hal : ∀ m ∈ ms, PageAligned m.virt ∧ PageAligned m.phys) :
    PageDir (ms.foldl (Mapping.put dir) words) dir entries table ∧
      ∀ n < 2 ^ 20, ms.foldl (Mapping.put dir) words (pageSlot table n) =
        mappedEntry n (words (pageSlot table n)) ms := by
  induction ms generalizing words with
  | nil => exact ⟨h, fun _ _ => rfl⟩
  | cons m ms ih =>
      obtain ⟨hv, hp⟩ := hal m List.mem_cons_self
      have hlt : m.virt.toNat / 4096 < 2 ^ 20 := by
        have := m.virt.isLt
        omega
      have hput : Mapping.put dir words m =
          words.set (pageSlot table (m.virt.toNat / 4096)) (m.phys ||| m.flags) := by
        rw [Mapping.put, pagingMap_aligned hv hp, h.dir_eq, h.set_eq hv]
      have hset := h.set hlt (m.phys ||| m.flags)
      rw [← hput] at hset
      obtain ⟨hdir, hentry⟩ := ih hset fun m' hm' => hal m' (List.mem_cons_of_mem _ hm')
      refine ⟨hdir, ?_⟩
      intro n hn
      rw [List.foldl_cons, hentry n hn, mappedEntry, hput]
      congr 1
      by_cases he : m.virt.toNat / 4096 = n
      · rw [if_pos he, he, Words.set_same]
      · rw [if_neg he, Words.set_other]
        intro hslot
        exact he (h.slot_inj hn hlt hslot).symm

/-! ## 形の保存 -/

namespace PageDir

variable {words : Words} {dir entries : Word} {table : Nat → Word}

/-- 揃っていないアドレスでは、何も書かない。 -/
theorem pagingSet (h : PageDir words dir entries table) (virt val : Word) :
    PageDir (EnkiOs.pagingSet words entries virt val).2 dir entries table := by
  by_cases hv : PageAligned virt
  · have hlt := virt.isLt
    rw [h.set_eq hv]
    exact h.set (by omega) val
  · have hno : ¬pagingIsAligned virt := fun hal => hv (pageAligned_iff.1 (of_decide_eq_true hal))
    rw [EnkiOs.pagingSet, if_pos hno]
    exact h

theorem pagingMap (h : PageDir words dir entries table) (virt phys flags : Word) :
    PageDir (EnkiOs.pagingMap words dir virt phys flags).2 dir entries table := by
  rw [EnkiOs.pagingMap]
  split
  · exact h
  · rw [h.dir_eq]
    exact h.pagingSet _ _

theorem pagingMapLoop (h : PageDir words dir entries table) (flags : Word) (k : Nat) (virt phys : Word) (result : Int) :
    PageDir (EnkiOs.pagingMapLoop dir flags k virt phys result words).2 dir entries table := by
  induction k generalizing virt phys result words with
  | zero => exact h
  | succ k ih =>
      have hmap := h.pagingMap virt phys flags
      rw [EnkiOs.pagingMapLoop]
      simp only
      split
      · exact hmap
      · exact ih hmap _ _ _

theorem mapRange (h : PageDir words dir entries table) (virt phys : Word) (pageCount : Int) (flags : Word) :
    PageDir (pagingMapRange words dir virt phys pageCount flags).2 dir entries table := h.pagingMapLoop _ _ _ _ _

theorem mapTo (h : PageDir words dir entries table) (virt phys physEnd flags : Word) :
    PageDir (pagingMapTo words dir virt phys physEnd flags).2 dir entries table := by
  rw [pagingMapTo]
  split
  · exact h
  · split
    · exact h
    · exact h.mapRange _ _ _ _

end PageDir

/-! ## 最後の割り付け -/

/-- 列の中の、ページ `n` の最後の割り付け。 -/
def lastMapping (n : Nat) (ms : List Mapping) : Option Mapping :=
  ms.reverse.find? fun m => m.virt.toNat / 4096 = n

/-- ページの項目は、最後の割り付けで決まる。 -/
theorem mappedEntry_eq (n : Nat) (entry : Word) (ms : List Mapping) :
    mappedEntry n entry ms = match lastMapping n ms with
      | some m => m.phys ||| m.flags
      | none => entry := by
  induction ms generalizing entry with
  | nil => rfl
  | cons m ms ih =>
      rw [mappedEntry, ih, lastMapping, lastMapping, List.reverse_cons, List.find?_append]
      cases ms.reverse.find? fun m => decide (m.virt.toNat / 4096 = n) with
      | some last => rfl
      | none =>
          by_cases hm : m.virt.toNat / 4096 = n
          · simp [hm]
          · simp [hm]

theorem lastMapping_append (n : Nat) (ms ms' : List Mapping) :
    lastMapping n (ms ++ ms') = (lastMapping n ms').or (lastMapping n ms) := by
  rw [lastMapping, List.reverse_append, List.find?_append]
  rfl

theorem lastMapping_none {n : Nat} {ms : List Mapping} (h : ∀ m ∈ ms, m.virt.toNat / 4096 ≠ n) :
    lastMapping n ms = none := by
  rw [lastMapping, List.find?_eq_none]
  intro m hm
  simpa using h m (List.mem_reverse.1 hm)

/-- ページ `n` の割り付けがただ一つなら、それが最後の割り付けである。 -/
theorem lastMapping_unique {n : Nat} {ms : List Mapping} {m : Mapping} (hm : m ∈ ms) (hn : m.virt.toNat / 4096 = n)
    (hunique : ∀ m' ∈ ms, m'.virt.toNat / 4096 = n → m' = m) : lastMapping n ms = some m := by
  rw [lastMapping]
  cases hfind : ms.reverse.find? fun m => decide (m.virt.toNat / 4096 = n) with
  | none => exact absurd hn (by simpa using List.find?_eq_none.1 hfind m (List.mem_reverse.2 hm))
  | some last =>
      have hlast : last.virt.toNat / 4096 = n := by simpa using List.find?_some hfind
      rw [hunique last (List.mem_reverse.1 (List.mem_of_find?_eq_some hfind)) hlast]

theorem mem_pageMappings_iff {virt phys flags : Word} {k : Nat} (hv : PageAligned virt) (hk : k ≤ 2 ^ 20) {m : Mapping} :
    m ∈ pageMappings virt phys flags k ↔
      PageAligned m.virt ∧ (m.virt - virt).toNat < 4096 * k ∧ m.phys = phys + (m.virt - virt) ∧ m.flags = flags := by
  have hpage : PAGING_PAGE_SIZE.toNat = 4096 := rfl
  have hvlt := virt.isLt
  simp only [PageAligned] at hv ⊢
  constructor
  · intro hm
    simp only [pageMappings, List.mem_map, List.mem_range] at hm
    obtain ⟨q, hq, rfl⟩ := hm
    have hsub : virt + BitVec.ofNat 32 q * PAGING_PAGE_SIZE - virt = BitVec.ofNat 32 q * PAGING_PAGE_SIZE := by
      rw [BitVec.add_comm, BitVec.add_sub_cancel]
    refine ⟨?_, ?_, ?_, rfl⟩
    · simp only [BitVec.toNat_add, BitVec.toNat_mul, BitVec.toNat_ofNat, hpage]
      omega
    · simp only [hsub, BitVec.toNat_mul, BitVec.toNat_ofNat, hpage]
      omega
    · simp only [hsub]
  · rintro ⟨hal, hlt, hphys, hflags⟩
    have hmlt := m.virt.isLt
    have hq : BitVec.ofNat 32 ((m.virt - virt).toNat / 4096) * PAGING_PAGE_SIZE = m.virt - virt := by
      apply BitVec.eq_of_toNat_eq
      rw [BitVec.toNat_mul, BitVec.toNat_ofNat, hpage, BitVec.toNat_sub]
      omega
    refine List.mem_map.2 ⟨(m.virt - virt).toNat / 4096, List.mem_range.2 (by omega), ?_⟩
    obtain ⟨mvirt, mphys, mflags⟩ := m
    simp only at hq hphys hflags ⊢
    rw [hq, hphys, hflags, BitVec.add_comm, BitVec.sub_add_cancel]

end EnkiOs
