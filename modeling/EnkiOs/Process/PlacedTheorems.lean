import EnkiOs.Paging.Theorems
import EnkiOs.Process.PageTheorems
import EnkiOs.Process.Theorems
import EnkiOs.Task.CopyStrTheorems

/-!
# プログラムヘッダの置かれるページ

`process_map_elf` は、どのヘッダの範囲も、始まりを切り下げ、終わりを切り上げたページに置く。
-/

namespace EnkiOs
open Machine

variable {mem : Memory} {file : ElfFile} {phdr : Elf32Phdr} {words : Words} {dir entries a : Word} {table : Nat → Word}

/-! ## ヘッダの範囲 -/

/-- ページ `n` に、ヘッダのバイトがある。 -/
def HoldsPage (phdr : Elf32Phdr) (n : Nat) : Prop :=
  ∃ k < phdr.pMemsz.toNat, pageOf (phdr.pVaddr + BitVec.ofNat 32 k) = n

/-- ヘッダのバイトがあるページか、`p_memsz` が 0 のヘッダの、揃っていない `p_vaddr` のページ。 -/
def TouchesPage (phdr : Elf32Phdr) (n : Nat) : Prop :=
  HoldsPage phdr n ∨ phdr.pMemsz = 0 ∧ ¬PageAligned phdr.pVaddr ∧ pageOf phdr.pVaddr = n

/-- ヘッダの範囲は、ページに切り上げても `2^32` に届かず、`2^31` バイトより短い。 -/
structure PhdrFits (file : ElfFile) (phdr : Elf32Phdr) : Prop where
  congr : phdr.pVaddr.toNat % 4096 = phdr.pOffset.toNat % 4096
  virt_lt : (phdr.pVaddr.toNat + phdr.pMemsz.toNat + 4095) / 4096 * 4096 < 2 ^ 32
  phys_lt : (file.elfMemory.toNat + phdr.pOffset.toNat + phdr.pMemsz.toNat + 4095) / 4096 * 4096 < 2 ^ 32
  span_lt : (file.elfMemory.toNat + phdr.pOffset.toNat + phdr.pMemsz.toNat + 4095) / 4096 * 4096 -
    (file.elfMemory.toNat + phdr.pOffset.toNat) / 4096 * 4096 < 2 ^ 31

/-- どのヘッダの範囲も収まり、`touches` の意味で、異なるヘッダの触れるページが重ならない。 -/
structure ElfPlaceable (touches : Elf32Phdr → Nat → Prop) (mem : Memory) (file : ElfFile) : Prop where
  aligned : PageAligned file.elfMemory
  fits : ∀ i < (ElfHeader.at mem file.elfMemory).ePhnum.toNat, PhdrFits file (elfProgramHeader mem file.elfMemory i)
  apart : ∀ i < (ElfHeader.at mem file.elfMemory).ePhnum.toNat, ∀ j < (ElfHeader.at mem file.elfMemory).ePhnum.toNat, i ≠ j →
    ∀ n, touches (elfProgramHeader mem file.elfMemory i) n → ¬touches (elfProgramHeader mem file.elfMemory j) n

/-- どのヘッダのバイトも、ファイルの本体の対応する位置に、ヘッダのフラグで置かれ、ほかのページは `words` のままである。 -/
structure ElfPlaced (touches : Elf32Phdr → Nat → Prop) (mem : Memory) (file : ElfFile) (words words' : Words)
    (entries : Word) : Prop where
  physAddr : ∀ i < (ElfHeader.at mem file.elfMemory).ePhnum.toNat, ∀ phdr, elfProgramHeader mem file.elfMemory i = phdr →
    ∀ k < phdr.pMemsz.toNat, pagingGetPhysAddr words' entries (phdr.pVaddr + BitVec.ofNat 32 k) =
      file.elfMemory + phdr.pOffset + BitVec.ofNat 32 k
  flags : ∀ i < (ElfHeader.at mem file.elfMemory).ePhnum.toNat, ∀ phdr, elfProgramHeader mem file.elfMemory i = phdr →
    ∀ k < phdr.pMemsz.toNat, ∀ entry,
      pagingGet words' entries (pagingAlignToLower (phdr.pVaddr + BitVec.ofNat 32 k)) = entry →
      entry &&& PAGING_IS_PRESENT ≠ 0 ∧ entry &&& PAGING_ACCESS_FROM_ALL ≠ 0 ∧
        (entry &&& PAGING_IS_WRITEABLE ≠ 0 ↔ phdr.pFlags &&& PF_W ≠ 0)
  other : ∀ a, PageAligned a → (∀ i < (ElfHeader.at mem file.elfMemory).ePhnum.toNat,
      ¬touches (elfProgramHeader mem file.elfMemory i) (pageOf a)) →
    pagingGet words' entries a = pagingGet words entries a

/-! ## 範囲とページ -/

/-- 触れるページは、切り下げた始まりから、切り上げた終わりまでである。 -/
theorem touchesPage_iff (hvirt : phdr.pVaddr.toNat + phdr.pMemsz.toNat < 2 ^ 32) {n : Nat} :
    TouchesPage phdr n ↔ pageOf phdr.pVaddr ≤ n ∧ n < (phdr.pVaddr.toNat + phdr.pMemsz.toNat + 4095) / 4096 := by
  have hpage : ∀ k < phdr.pMemsz.toNat, pageOf (phdr.pVaddr + BitVec.ofNat 32 k) = (phdr.pVaddr.toNat + k) / 4096 := by
    intro k hk
    rw [pageOf, toNat_add_ofNat (by omega)]
  constructor
  · rintro (⟨k, hk, rfl⟩ | ⟨hzero, hodd, rfl⟩)
    · rw [hpage k hk, pageOf]
      omega
    · simp only [PageAligned] at hodd
      rw [pageOf, hzero]
      omega
  · rintro ⟨hlow, hhigh⟩
    rw [pageOf] at hlow
    by_cases hzero : phdr.pMemsz = 0
    · rw [hzero, show (0 : Word).toNat = 0 from rfl] at hhigh
      exact .inr ⟨hzero, by simp only [PageAligned]; omega, by rw [pageOf]; omega⟩
    · have hpos : phdr.pMemsz.toNat ≠ 0 := fun h0 => hzero (BitVec.eq_of_toNat_eq h0)
      -- 始まりのページでは初めのバイトが、後のページではその先頭のバイトが、ページの中にある。
      refine .inl ⟨4096 * n - phdr.pVaddr.toNat, by omega, ?_⟩
      rw [hpage _ (by omega)]
      omega

section

variable (hal : PageAligned file.elfMemory) (hf : PhdrFits file phdr)
include hal hf

/-- 物理の側で数えたページの数は、仮想の側の範囲のページの数である。 -/
theorem PhdrFits.pages : ¬phdrEnd file phdr < phdrBase file phdr ∧
    phdrPages file phdr = (phdr.pVaddr.toNat + phdr.pMemsz.toNat + 4095) / 4096 - pageOf phdr.pVaddr := by
  obtain ⟨hcongr, hvirt, hphys, hspan⟩ := hf
  have hsum : (phdr.pOffset + phdr.pMemsz).toNat = phdr.pOffset.toNat + phdr.pMemsz.toNat := by
    rw [BitVec.toNat_add]
    omega
  have hend := phdrEnd_toNat file phdr
  have hbase := phdrBase_toNat file phdr
  rw [hsum, Nat.mod_eq_of_lt (show file.elfMemory.toNat + (phdr.pOffset.toNat + phdr.pMemsz.toNat) < 2 ^ 32 by omega),
    ← Nat.add_assoc, Nat.mod_eq_of_lt hphys] at hend
  rw [Nat.mod_eq_of_lt (show file.elfMemory.toNat + phdr.pOffset.toNat < 2 ^ 32 by omega)] at hbase
  have hle : phdrBase file phdr ≤ phdrEnd file phdr := by
    rw [BitVec.le_def, hend, hbase]
    omega
  refine ⟨BitVec.not_lt.2 hle, ?_⟩
  rw [phdrPages, pageCount_eq hle, hend, hbase, if_pos hspan, pageOf]
  simp only [PageAligned] at hal
  omega

/-- ヘッダの割り付けは、触れるページのそれぞれに一つずつある。 -/
theorem PhdrFits.mem_iff {m : Mapping} : m ∈ phdrMappings file phdr ↔
    PageAligned m.virt ∧ TouchesPage phdr (pageOf m.virt) ∧
      m.phys = phdrBase file phdr + (m.virt - pagingAlignToLower phdr.pVaddr) ∧ m.flags = phdrFlags phdr := by
  have hpages := (hf.pages hal).2
  have hvirt := hf.virt_lt
  have hlow := pagingAlignToLower_toNat phdr.pVaddr
  have hlt := phdr.pVaddr.isLt
  rw [phdrMappings, mem_pageMappings_iff (pageAligned_alignToLower _) (by omega), touchesPage_iff (by omega), hpages]
  refine and_congr_right fun hm => and_congr_left fun _ => ?_
  have hmlt := m.virt.isLt
  simp only [PageAligned] at hm
  rw [BitVec.toNat_sub, hlow, pageOf, pageOf]
  omega

end

/-- 項目のフラグの部分は、フラグだけで決まる。 -/
theorem PageAligned.and_bit {phys flags bit : Word} (hp : PageAligned phys) (hf : flags.toNat < 4096)
    (hbit : 0xFFF &&& bit = bit) : (phys ||| flags) &&& bit = flags &&& bit := by
  rw [← hbit, ← BitVec.and_assoc, hp.and_flags hf, ← BitVec.and_assoc, show flags &&& 0xFFF = flags from ?_]
  have hzero : PageAligned 0#32 := rfl
  have hflags := hzero.and_flags hf
  rwa [BitVec.zero_or] at hflags

/-! ## 割り付けの列 -/

section

variable (hok : ElfPlaceable TouchesPage mem file)
include hok

theorem ElfPlaceable.mem_elfMappings {m : Mapping} : m ∈ elfMappings mem file ↔
    ∃ i < (ElfHeader.at mem file.elfMemory).ePhnum.toNat, m ∈ phdrMappings file (elfProgramHeader mem file.elfMemory i) := by
  rw [elfMappings, mem_elfMappingsFrom]
  simp only [Nat.zero_add]
  constructor
  · rintro ⟨i, hi, -, hm⟩
    exact ⟨i, hi, hm⟩
  · rintro ⟨i, hi, hm⟩
    exact ⟨i, hi, fun l hl => ((hok.fits l (by omega)).pages hok.aligned).1, hm⟩

theorem ElfPlaceable.last {i : Nat} (hi : i < (ElfHeader.at mem file.elfMemory).ePhnum.toNat)
    (hphdr : elfProgramHeader mem file.elfMemory i = phdr) (ht : TouchesPage phdr (pageOf a)) :
    lastMapping (pageOf a) (elfMappings mem file) = some ⟨pagingAlignToLower a,
      phdrBase file phdr + (pagingAlignToLower a - pagingAlignToLower phdr.pVaddr), phdrFlags phdr⟩ := by
  have hal := pageAligned_alignToLower a
  have hpage : pageOf (pagingAlignToLower a) = pageOf a := by
    rw [pageOf, pageOf, pagingAlignToLower_toNat]
    omega
  refine lastMapping_unique (hok.mem_elfMappings.2 ⟨i, hi, ?_⟩) hpage ?_
  · rw [hphdr]
    exact ((hphdr ▸ hok.fits i hi).mem_iff hok.aligned).2 ⟨hal, hpage.symm ▸ ht, rfl, rfl⟩
  · intro m hm hn
    obtain ⟨j, hj, hm⟩ := hok.mem_elfMappings.1 hm
    obtain ⟨hmal, htm, hphys, hflags⟩ := ((hok.fits j hj).mem_iff hok.aligned).1 hm
    rw [show pageOf m.virt = pageOf a from hn] at htm
    obtain rfl : j = i := by
      by_contra hne
      exact hok.apart j hj i hi hne _ htm (hphdr ▸ ht)
    have hvirt : m.virt = pagingAlignToLower a := by
      rw [← hpage] at hn
      apply BitVec.eq_of_toNat_eq
      simp only [PageAligned, pageOf] at hmal hal hn
      omega
    obtain ⟨mvirt, mphys, mflags⟩ := m
    simp only at hvirt hphys hflags
    rw [hphys, hflags, hvirt, hphdr]

theorem ElfPlaceable.last_none (hno : ∀ i < (ElfHeader.at mem file.elfMemory).ePhnum.toNat,
    ¬TouchesPage (elfProgramHeader mem file.elfMemory i) (pageOf a)) : lastMapping (pageOf a) (elfMappings mem file) = none := by
  apply lastMapping_none
  intro m hm hn
  obtain ⟨i, hi, hm⟩ := hok.mem_elfMappings.1 hm
  have ht := (((hok.fits i hi).mem_iff hok.aligned).1 hm).2.1
  rw [show pageOf m.virt = pageOf a from hn] at ht
  exact hno i hi ht

end

theorem phdrFlags_lt (phdr : Elf32Phdr) : (phdrFlags phdr).toNat < 4096 := by
  rcases phdrFlags_cases phdr with h | h
  · rw [h]
    decide
  · rw [h]
    decide

/-- 範囲の収まるヘッダは、触れるページが重ならなければ、どれも置かれるべき位置に置かれる。受け入れられたファイルかどうかにはよらない。 -/
theorem processMapElf_places (h : PageDir words dir entries table) (hok : ElfPlaceable TouchesPage mem file) :
    (processMapElf mem words dir file).1 = 0 ∧
    ElfPlaced TouchesPage mem file words (processMapElf mem words dir file).2 entries := by
  obtain ⟨hdir, hentry⟩ := h.foldl_put (elfMappings mem file) fun m hm => elfMappings_aligned hm
  have hslot : ∀ {i : Nat}, i < (ElfHeader.at mem file.elfMemory).ePhnum.toNat → ∀ {phdr : Elf32Phdr},
      elfProgramHeader mem file.elfMemory i = phdr → ∀ {k : Nat}, k < phdr.pMemsz.toNat →
      (elfMappings mem file).foldl (Mapping.put dir) words (pageSlot table (pageOf (phdr.pVaddr + BitVec.ofNat 32 k))) =
        (phdrBase file phdr + (pagingAlignToLower (phdr.pVaddr + BitVec.ofNat 32 k) - pagingAlignToLower phdr.pVaddr)) |||
          phdrFlags phdr := by
    intro i hi phdr hphdr k hk
    rw [hentry _ (pageOf_lt _), mappedEntry_eq, hok.last hi hphdr (.inl ⟨k, hk, rfl⟩)]
  have htarget : ∀ phdr : Elf32Phdr, ∀ x, PageAligned (phdrBase file phdr + (pagingAlignToLower x - pagingAlignToLower phdr.pVaddr)) := by
    intro phdr x
    have hbase : PageAligned (phdrBase file phdr) := pageAligned_alignToLower _
    have hx := pageAligned_alignToLower x
    have hv := pageAligned_alignToLower phdr.pVaddr
    simp only [PageAligned] at hbase hx hv ⊢
    rw [BitVec.toNat_add, BitVec.toNat_sub]
    omega
  rw [processMapElf_words]
  refine ⟨?_, ?_, ?_, ?_⟩
  · rw [processMapElf_result, if_pos]
    intro j hj
    exact ((hok.fits j hj).pages hok.aligned).1
  · intro i hi phdr hphdr k hk
    rw [hdir.physAddr_eq (htarget phdr _) (phdrFlags_lt phdr) (hslot hi hphdr hk), ← sub_alignToLower]
    exact alignToLower_shift hok.aligned (hphdr ▸ hok.fits i hi).congr
  · intro i hi phdr hphdr k hk entry hget
    rw [hdir.get_alignToLower, hslot hi hphdr hk] at hget
    rw [← hget, (htarget phdr _).and_bit (phdrFlags_lt phdr) (by decide), (htarget phdr _).and_bit (phdrFlags_lt phdr) (by decide),
      (htarget phdr _).and_bit (phdrFlags_lt phdr) (by decide)]
    simp only [phdrFlags]
    split
    · rename_i hw
      exact ⟨by decide, by decide, iff_of_true (by decide) hw⟩
    · rename_i hw
      exact ⟨by decide, by decide, iff_of_false (by decide) hw⟩
  · intro a ha hno
    rw [hdir.get_eq ha, h.get_eq ha]
    show _ = words (pageSlot table (pageOf a))
    rw [show a.toNat / 4096 = pageOf a from rfl, hentry _ (pageOf_lt a), mappedEntry_eq, hok.last_none hno]

/-- 一つのヘッダの、88 バイトのファイル。 -/
theorem processMapElf_places_single :
    (processMapElf (imageMemory 84 0) flatWords 0x100000 (imageFile 84 0)).1 = 0 ∧
    ElfPlaced TouchesPage (imageMemory 84 0) (imageFile 84 0) flatWords
      (processMapElf (imageMemory 84 0) flatWords 0x100000 (imageFile 84 0)).2 0x101000 := by
  have hphnum : (ElfHeader.at (imageMemory 84 0) (imageFile 84 0).elfMemory).ePhnum.toNat = 1 := rfl
  refine processMapElf_places flat_pageDir ⟨by decide, ?_, ?_⟩
  · intro i hi
    obtain rfl : i = 0 := by omega
    exact ⟨by decide, by decide, by decide, by decide⟩
  · intro i hi j hj hne
    omega

/-! ## 空のヘッダ -/

/-- 書き込める 116 バイトのヘッダの後に、同じページの途中にある、書き込めない空のヘッダの並ぶファイル。 -/
def emptyPhdrImage : List Byte :=
  [0x7F, 0x45, 0x4C, 0x46, 1, 1, 1, 0, 0, 0, 0, 0, 0, 0, 0, 0, 2, 0, 3, 0] ++ wordBytes 1 ++ wordBytes 0x400000 ++
    wordBytes 52 ++ wordBytes 0 ++ wordBytes 0 ++ [52, 0, 32, 0, 2, 0, 0, 0, 0, 0, 0, 0] ++
    wordBytes 1 ++ wordBytes 0 ++ wordBytes 0x400000 ++ wordBytes 0x400000 ++ wordBytes 116 ++ wordBytes 116 ++
    wordBytes 7 ++ wordBytes 0x1000 ++
    wordBytes 1 ++ wordBytes 0x10 ++ wordBytes 0x400010 ++ wordBytes 0x400010 ++ wordBytes 0 ++ wordBytes 0 ++
    wordBytes 4 ++ wordBytes 0x1000

def emptyPhdrMemory : Memory := Memory.write (fun _ => 0) 0x01000000 emptyPhdrImage

def emptyPhdrFile : ElfFile := (elfProcessLoaded emptyPhdrMemory { elfMemory := 0x01000000 }).2

/-- 空のヘッダにはバイトのあるページがないのに、そのページを割り付け直し、前のヘッダのページを書き込めなくする。 -/
theorem processMapElf_places_fails_empty :
    elfProcessLoaded emptyPhdrMemory { elfMemory := 0x01000000 } = (0, emptyPhdrFile) ∧
    PageDir flatWords 0x100000 0x101000 flatTable ∧ ElfPlaceable HoldsPage emptyPhdrMemory emptyPhdrFile ∧
    ¬ElfPlaced HoldsPage emptyPhdrMemory emptyPhdrFile flatWords
      (processMapElf emptyPhdrMemory flatWords 0x100000 emptyPhdrFile).2 0x101000 := by
  have hphnum : (ElfHeader.at emptyPhdrMemory emptyPhdrFile.elfMemory).ePhnum.toNat = 2 := rfl
  refine ⟨rfl, flat_pageDir, ⟨by decide, ?_, ?_⟩, ?_⟩
  · intro i hi
    obtain rfl | rfl : i = 0 ∨ i = 1 := by omega
    · exact ⟨by decide, by decide, by decide, by decide⟩
    · exact ⟨by decide, by decide, by decide, by decide⟩
  · have hempty : ∀ n, ¬HoldsPage (elfProgramHeader emptyPhdrMemory emptyPhdrFile.elfMemory 1) n := by
      rintro n ⟨k, hk, -⟩
      exact absurd hk (Nat.not_lt_zero k)
    intro i hi j hj hne n hhi hhj
    obtain rfl | rfl : i = 1 ∨ j = 1 := by omega
    · exact hempty n hhi
    · exact hempty n hhj
  · intro hplaced
    have hmaps : elfMappings emptyPhdrMemory emptyPhdrFile =
        [⟨0x400000, 0x01000000, userFlags⟩, ⟨0x400000, 0x01000000, readFlags⟩] := rfl
    obtain ⟨hdir, hentry⟩ := flat_pageDir.foldl_put (elfMappings emptyPhdrMemory emptyPhdrFile) fun m hm => elfMappings_aligned hm
    have hget : pagingGet (processMapElf emptyPhdrMemory flatWords 0x100000 emptyPhdrFile).2 0x101000
        (pagingAlignToLower (0x400000 + BitVec.ofNat 32 0)) = 0x01000005 := by
      rw [processMapElf_words, hdir.get_alignToLower, hentry _ (pageOf_lt _), hmaps]
      decide
    have hflags := (hplaced.flags 0 (by decide) _ rfl 0 (by decide) _ hget).2.2
    exact absurd (hflags.2 (by decide)) (by decide)

end EnkiOs
