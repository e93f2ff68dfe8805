import EnkiOs.Paging.Fresh
import EnkiOs.Paging.Packed
import EnkiOs.Paging.Translate

/-!
# 範囲の割り付けと、新しい表の変換

`paging_map_to` は範囲のページだけを移し、`paging_new` の表は、どのアドレスも自分自身へ移す。
-/

namespace EnkiOs
open Machine

variable {heap heap' : Heap} {words words' : Words} {dir entries virt phys physEnd flags : Word} {table : Nat → Word}

/-! ## 項目のフラグ -/

/-- 揃ったアドレスとフラグの組から、フラグの部分を取り出す。 -/
theorem PageAligned.and_flags (hp : PageAligned phys) (hf : flags.toNat < 4096) : (phys ||| flags) &&& 0xFFF = flags := by
  have hmask : (0xFFF : Word).toNat = 2 ^ 12 - 1 := rfl
  apply BitVec.eq_of_toNat_eq
  rw [BitVec.toNat_and, hmask, Nat.and_two_pow_sub_one_eq_mod, hp.or_toNat hf]
  simp only [PageAligned] at hp
  omega

/-! ## 範囲の割り付け -/

/-- 続く `k` ページの割り付けの後の、`a` のページの項目。 -/
theorem mappedEntry_pageMappings (hv : PageAligned virt) {k : Nat} (hk : k ≤ 2 ^ 20) (a entry : Word) :
    mappedEntry (pageOf a) entry (pageMappings virt phys flags k) =
      if (a - virt).toNat < 4096 * k then (phys + (pagingAlignToLower a - virt)) ||| flags else entry := by
  have hal : PageAligned (pagingAlignToLower a) := pageAligned_alignToLower a
  have hpage : (pagingAlignToLower a).toNat / 4096 = pageOf a := by
    rw [pagingAlignToLower_toNat, pageOf]
    omega
  have hdist : (pagingAlignToLower a - virt).toNat = (a - virt).toNat - (a - virt).toNat % 4096 := by
    have := a.isLt
    have := virt.isLt
    simp only [PageAligned] at hv
    rw [BitVec.toNat_sub, BitVec.toNat_sub, pagingAlignToLower_toNat]
    omega
  -- 同じページの割り付けは、揃っているので、先頭のアドレスも同じである。
  have hsame : ∀ m ∈ pageMappings virt phys flags k, m.virt.toNat / 4096 = pageOf a →
      m = ⟨pagingAlignToLower a, phys + (pagingAlignToLower a - virt), flags⟩ := by
    intro m hm hn
    obtain ⟨hmal, -, hphys, hflags⟩ := (mem_pageMappings_iff hv hk).1 hm
    have hvirt : m.virt = pagingAlignToLower a := by
      apply BitVec.eq_of_toNat_eq
      simp only [PageAligned] at hmal hal
      omega
    obtain ⟨mvirt, mphys, mflags⟩ := m
    simp only at hvirt hphys hflags
    rw [hphys, hflags, hvirt]
  rw [mappedEntry_eq]
  by_cases hin : (a - virt).toNat < 4096 * k
  · have hmem : ⟨pagingAlignToLower a, phys + (pagingAlignToLower a - virt), flags⟩ ∈ pageMappings virt phys flags k :=
      (mem_pageMappings_iff hv hk).2 ⟨hal, by simp only [hdist]; omega, rfl, rfl⟩
    rw [lastMapping_unique hmem hpage hsame, if_pos hin]
  · rw [lastMapping_none, if_neg hin]
    intro m hm hn
    have hlt := ((mem_pageMappings_iff hv hk).1 hm).2.1
    rw [hsame m hm hn] at hlt
    simp only [hdist] at hlt
    omega

/-- `words` から `words'` までに、`virt` からの `len` バイトのページだけが、`phys` からの同じ長さへ、フラグ `flags` で移された。 -/
structure RangeMapped (words words' : Words) (entries virt phys flags : Word) (len : Nat) : Prop where
  physAddr : ∀ k < len, pagingGetPhysAddr words' entries (virt + BitVec.ofNat 32 k) = phys + BitVec.ofNat 32 k
  flags_eq : ∀ k < len, pagingGet words' entries (pagingAlignToLower (virt + BitVec.ofNat 32 k)) &&& 0xFFF = flags
  other : ∀ a, PageAligned a → ¬(virt.toNat ≤ a.toNat ∧ a.toNat < virt.toNat + len) →
    pagingGet words' entries a = pagingGet words entries a
  dirEntry : ∀ i < 1024, words' (entryAddr entries (BitVec.ofNat 32 i)) = words (entryAddr entries (BitVec.ofNat 32 i))

theorem PageDir.foldl_put_dirEntry (h : PageDir words dir entries table) {ms : List Mapping}
    (hal : ∀ m ∈ ms, PageAligned m.virt ∧ PageAligned m.phys) {i : Nat} (hi : i < 1024) :
    ms.foldl (Mapping.put dir) words (entryAddr entries (BitVec.ofNat 32 i)) =
      words (entryAddr entries (BitVec.ofNat 32 i)) := by
  refine h.foldl_put_other (fun n hn heq => ?_) ms hal
  obtain ⟨ht, -⟩ := entryAddr_inj h.entries_aligned (h.table_aligned _ (show n / 1024 < 1024 by omega)) hi
    (Nat.mod_lt n (by decide)) heq
  exact h.table_ne_entries _ (by omega) ht.symm

theorem PageDir.rangeMapped (h : PageDir words dir entries table) (hf : flags.toNat < 4096) (hv : PageAligned virt)
    (hp : PageAligned phys) {k : Nat} (hk : virt.toNat + 4096 * k ≤ 2 ^ 32) :
    RangeMapped words ((pageMappings virt phys flags k).foldl (Mapping.put dir) words) entries virt phys flags (4096 * k) := by
  have hpage : PAGING_PAGE_SIZE.toNat = 4096 := rfl
  have hk20 : k ≤ 2 ^ 20 := by omega
  have hal := fun m (hm : m ∈ pageMappings virt phys flags k) => pageMappings_aligned hv hp hm
  obtain ⟨hdir, hentry⟩ := h.foldl_put (pageMappings virt phys flags k) hal
  have hat : ∀ a, (pageMappings virt phys flags k).foldl (Mapping.put dir) words (pageSlot table (pageOf a)) =
      if (a - virt).toNat < 4096 * k then (phys + (pagingAlignToLower a - virt)) ||| flags
      else words (pageSlot table (pageOf a)) := by
    intro a
    rw [hentry _ (pageOf_lt a), mappedEntry_pageMappings hv hk20]
  have htarget : ∀ a, PageAligned (phys + (pagingAlignToLower a - virt)) := by
    intro a
    have hlow := pageAligned_alignToLower a
    simp only [PageAligned] at hv hp hlow ⊢
    rw [BitVec.toNat_add, BitVec.toNat_sub]
    omega
  have hdist : ∀ j < 4096 * k, (virt + BitVec.ofNat 32 j - virt).toNat < 4096 * k := by
    intro j hj
    rw [BitVec.add_comm, BitVec.add_sub_cancel, BitVec.toNat_ofNat]
    omega
  constructor
  · intro j hj
    have hslot := hat (virt + BitVec.ofNat 32 j)
    rw [if_pos (hdist j hj)] at hslot
    rw [hdir.physAddr_eq (htarget _) hf hslot, BitVec.add_assoc, ← sub_alignToLower]
    congr 1
    bv_omega
  · intro j hj
    rw [hdir.get_alignToLower, hat, if_pos (hdist j hj)]
    exact (htarget _).and_flags hf
  · intro a ha hout
    have hslot := hat a
    rw [if_neg] at hslot
    · rw [hdir.get_eq ha, h.get_eq ha]
      exact hslot
    · have := a.isLt
      have := virt.isLt
      rw [BitVec.toNat_sub]
      omega
  · intro i hi
    exact h.foldl_put_dirEntry hal hi

/-- 揃った範囲の割り付けは、その範囲だけを移す。揃わない引数や、終わりが手前の範囲では、何も変えない。 -/
theorem pagingMapTo_translates (h : PageDir words dir entries table) (hf : flags.toNat < 4096) :
    (PageAligned virt → PageAligned phys → PageAligned physEnd → phys ≤ physEnd →
      physEnd.toNat - phys.toNat < 2 ^ 31 → virt.toNat + (physEnd.toNat - phys.toNat) ≤ 2 ^ 32 →
      (pagingMapTo words dir virt phys physEnd flags).1 = 0 ∧
      RangeMapped words (pagingMapTo words dir virt phys physEnd flags).2 entries virt phys flags
        (physEnd.toNat - phys.toNat)) ∧
    (¬(PageAligned virt ∧ PageAligned phys ∧ PageAligned physEnd) ∨ physEnd < phys →
      pagingMapTo words dir virt phys physEnd flags = (-EINVARG, words)) := by
  constructor
  · intro hv hp he hle hhalf hroom
    have hlen : physEnd.toNat - phys.toNat = 4096 * pageCount phys physEnd := by
      rw [pageCount_eq hle, if_pos hhalf]
      simp only [PageAligned] at hp he
      omega
    rw [pagingMapTo_eq hv hp he, if_neg (BitVec.not_lt.2 hle), hlen]
    exact ⟨rfl, h.rangeMapped hf hv hp (by omega)⟩
  · intro hbad
    rw [pagingMapTo]
    by_cases hfirst : PageAligned virt ∧ PageAligned phys
    · rw [if_neg (by rw [pageAligned_iff.2 hfirst.1, pageAligned_iff.2 hfirst.2]; simp), if_pos]
      rcases hbad with hno | hlt
      · exact .inl fun he => hno ⟨hfirst.1, hfirst.2, pageAligned_iff.1 he⟩
      · exact .inr hlt
    · rw [if_pos]
      by_contra hno
      simp only [ne_eq, not_or, not_not, pageAligned_iff] at hno
      exact hfirst hno

/-- 新しい表に、`0x400000` からの 2 ページを割り付ける。 -/
theorem pagingMapTo_translates_boot : ∃ heap' words', pagingNew bootHeap (fun _ => 0) 5 = .ok (blockAddr 1025, heap', words') ∧
    (pagingMapTo words' (blockAddr 1025) 0x400000 0x01000000 0x01002000 7).1 = 0 ∧
    RangeMapped words' (pagingMapTo words' (blockAddr 1025) 0x400000 0x01000000 0x01002000 7).2
      (words' (blockAddr 1025)) 0x400000 0x01000000 7 0x2000 := by
  obtain ⟨heap', words', h, -⟩ := pagingNew_packed (fun _ => 0) 5 bootHeap_packed (by decide)
  obtain ⟨-, -, entries, table, hpage, -⟩ :=
    pagingNew_pageDir kernelHeap_kept bootHeap_packed.toKernelHeap bootHeap_packed.toKernelHeap h
  rw [← hpage.dir_eq] at hpage
  exact ⟨heap', words', h, (pagingMapTo_translates hpage (show (7 : Word).toNat < 4096 by decide)).1
    (show PageAligned 0x400000 by decide) (show PageAligned 0x01000000 by decide) (show PageAligned 0x01002000 by decide)
    (by decide) (by decide) (by decide)⟩

/-! ## 新しい表 -/

/-- `paging_new` の表は、どのアドレスも自分自身へ移し、フラグは引数のものである。ディレクトリの項目は、それに加えて書き込める。 -/
theorem pagingNew_identity {flags : Byte} (hk : KernelHeap heap)
    (h : pagingNew heap words flags = .ok (dir, heap', words')) :
    (∀ v, pagingGetPhysAddr words' (words' dir) v = v ∧
      pagingGet words' (words' dir) (pagingAlignToLower v) &&& 0xFFF = flags.setWidth 32) ∧
    ∀ i < 1024, words' (entryAddr (words' dir) (BitVec.ofNat 32 i)) &&& 0xFFF = flags.setWidth 32 ||| PAGING_IS_WRITEABLE := by
  obtain ⟨-, -, entries, table, hpage, hself, hdirEntry, -⟩ := pagingNew_built kernelHeap_kept.pages hk hk h
  have hf : (flags.setWidth 32 : Word).toNat < 4096 := by
    have := flags.isLt
    rw [BitVec.toNat_setWidth]
    omega
  rw [hpage.dir_eq]
  constructor
  · intro v
    have hslot := hself _ (pageOf_lt v)
    constructor
    · rw [hpage.physAddr_eq (ofNat_page_aligned _) hf hslot]
      have hp : PAGING_PAGE_SIZE.toNat = 4096 := rfl
      have := v.isLt
      apply BitVec.eq_of_toNat_eq
      rw [BitVec.toNat_add, BitVec.toNat_umod, BitVec.toNat_ofNat, hp, pageOf]
      omega
    · rw [hpage.get_alignToLower, hslot]
      exact (ofNat_page_aligned _).and_flags hf
  · intro i hi
    rw [hdirEntry i hi]
    exact (hpage.table_aligned i hi).and_flags (flagsOr_lt flags _ (by decide))

/-- 起動の直後のヒープに作った表は、最後のバイトも自分自身へ移す。 -/
theorem pagingNew_identity_boot : ∃ heap' words', pagingNew bootHeap (fun _ => 0) 5 = .ok (blockAddr 1025, heap', words') ∧
    pagingGetPhysAddr words' (words' (blockAddr 1025)) 0xFFFFFFFF = 0xFFFFFFFF := by
  obtain ⟨heap', words', h, -⟩ := pagingNew_packed (fun _ => 0) 5 bootHeap_packed (by decide)
  exact ⟨heap', words', h, ((pagingNew_identity bootHeap_packed.toKernelHeap h).1 0xFFFFFFFF).1⟩

end EnkiOs
