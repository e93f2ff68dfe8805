import EnkiOs.Heap.Lemmas.Scan
import EnkiOs.Paging.Table
import EnkiOs.Process.Basic

/-!
# プログラムヘッダの割り付け

`process_map_elf` が行う割り付けの列と、その物理ページの範囲。
-/

namespace EnkiOs
open Machine

/-! ## 割り付けの列 -/

def phdrFlags (phdr : Elf32Phdr) : Word :=
  if phdr.pFlags &&& PF_W ≠ 0 then PAGING_IS_PRESENT ||| PAGING_ACCESS_FROM_ALL ||| PAGING_IS_WRITEABLE
  else PAGING_IS_PRESENT ||| PAGING_ACCESS_FROM_ALL

/-- `phys_base` -/
def phdrBase (file : ElfFile) (phdr : Elf32Phdr) : Word := pagingAlignToLower (file.elfMemory + phdr.pOffset)

/-- `phys_end` -/
def phdrEnd (file : ElfFile) (phdr : Elf32Phdr) : Word :=
  pagingAlignAddress (file.elfMemory + phdr.pOffset + phdr.pMemsz)

/-- 割り付けるページの数。 -/
def phdrPages (file : ElfFile) (phdr : Elf32Phdr) : Nat := pageCount (phdrBase file phdr) (phdrEnd file phdr)

def phdrMappings (file : ElfFile) (phdr : Elf32Phdr) : List Mapping :=
  pageMappings (pagingAlignToLower phdr.pVaddr) (phdrBase file phdr) (phdrFlags phdr) (phdrPages file phdr)

theorem processMapPhdr_eq (words : Words) (dir : Word) (file : ElfFile) (phdr : Elf32Phdr) :
    processMapPhdr words dir file phdr =
      if phdrEnd file phdr < phdrBase file phdr then (-EINVARG, words)
      else (0, (phdrMappings file phdr).foldl (Mapping.put dir) words) := by
  exact pagingMapTo_eq (pageAligned_alignToLower phdr.pVaddr)
    (pageAligned_alignToLower (file.elfMemory + phdr.pOffset))
    (pageAligned_alignAddress (file.elfMemory + phdr.pOffset + phdr.pMemsz))

/-- 番号 `i` から `k` 個のヘッダの割り付け。範囲の終わりが手前にあるヘッダで止まる。 -/
def elfMappingsFrom (mem : Memory) (file : ElfFile) : Nat → Nat → List Mapping
  | 0, _ => []
  | k + 1, i =>
      let phdr := elfProgramHeader mem file.elfMemory i
      if phdrEnd file phdr < phdrBase file phdr then []
      else phdrMappings file phdr ++ elfMappingsFrom mem file k (i + 1)

/-- `process_map_elf` の行う割り付けの列。 -/
def elfMappings (mem : Memory) (file : ElfFile) : List Mapping :=
  elfMappingsFrom mem file (ElfHeader.at mem file.elfMemory).ePhnum.toNat 0

theorem processMapElfLoop_words (mem : Memory) (file : ElfFile) (dir : Word) (k i : Nat) (result : Int) (words : Words) :
    (processMapElfLoop mem file dir k i result words).2 =
      (elfMappingsFrom mem file k i).foldl (Mapping.put dir) words := by
  induction k generalizing i result words with
  | zero => rfl
  | succ k ih =>
      rw [processMapElfLoop, processMapPhdr_eq, elfMappingsFrom]
      by_cases hrej : phdrEnd file (elfProgramHeader mem file.elfMemory i) <
          phdrBase file (elfProgramHeader mem file.elfMemory i)
      · simp [hrej, EINVARG]
      · simp only [hrej, if_false, Int.lt_irrefl]
        rw [ih, List.foldl_append]

/-- `process_map_elf` は、割り付けの列を順に行う。 -/
theorem processMapElf_words (mem : Memory) (words : Words) (dir : Word) (file : ElfFile) :
    (processMapElf mem words dir file).2 = (elfMappings mem file).foldl (Mapping.put dir) words :=
  processMapElfLoop_words mem file dir _ 0 0 words

/-- 割り付けの列にあるのは、止まる前のヘッダの割り付けである。 -/
theorem mem_elfMappingsFrom {mem : Memory} {file : ElfFile} {k i : Nat} {m : Mapping} :
    m ∈ elfMappingsFrom mem file k i ↔
      ∃ j < k, (∀ l ≤ j, ¬ phdrEnd file (elfProgramHeader mem file.elfMemory (i + l)) <
          phdrBase file (elfProgramHeader mem file.elfMemory (i + l))) ∧
        m ∈ phdrMappings file (elfProgramHeader mem file.elfMemory (i + j)) := by
  induction k generalizing i with
  | zero => simp [elfMappingsFrom]
  | succ k ih =>
      rw [elfMappingsFrom]
      split
      · rename_i hrej
        constructor
        · intro hm
          cases hm
        · rintro ⟨j, -, hall, -⟩
          exact absurd hrej (hall 0 (Nat.zero_le j))
      · rename_i hok
        rw [List.mem_append, ih]
        constructor
        · rintro (hm | ⟨j, hj, hall, hm⟩)
          · refine ⟨0, by omega, ?_, hm⟩
            intro l hl
            obtain rfl : l = 0 := by omega
            exact hok
          · refine ⟨j + 1, by omega, ?_, by rwa [show i + (j + 1) = i + 1 + j by omega]⟩
            intro l hl
            cases l with
            | zero => exact hok
            | succ l =>
                rw [show i + (l + 1) = i + 1 + l by omega]
                exact hall l (by omega)
        · rintro ⟨j, hj, hall, hm⟩
          cases j with
          | zero => exact .inl hm
          | succ j =>
              refine .inr ⟨j, by omega, ?_, by rwa [show i + 1 + j = i + (j + 1) by omega]⟩
              intro l hl
              rw [show i + 1 + l = i + (l + 1) by omega]
              exact hall (l + 1) (by omega)

/-! ## 物理ページの範囲 -/

/-- ファイルのために割り当てた `ceil(size / 4096)` ブロックの、バイト数。 -/
def imageBytes (size : Word) : Nat := 4096 * blocksFor size

/-- ページ `phys` が、`memory` からの割り当ての中にある。 -/
def InsideImage (memory size phys : Word) : Prop :=
  memory.toNat ≤ phys.toNat ∧ phys.toNat + 4096 ≤ memory.toNat + imageBytes size

theorem phdrBase_toNat (file : ElfFile) (phdr : Elf32Phdr) :
    (phdrBase file phdr).toNat = (file.elfMemory.toNat + phdr.pOffset.toNat) % 2 ^ 32 / 4096 * 4096 := by
  rw [phdrBase, pagingAlignToLower_toNat, BitVec.toNat_add]
  omega

theorem phdrEnd_toNat (file : ElfFile) (phdr : Elf32Phdr) :
    (phdrEnd file phdr).toNat =
      ((file.elfMemory.toNat + (phdr.pOffset + phdr.pMemsz).toNat) % 2 ^ 32 + 4095) / 4096 * 4096 % 2 ^ 32 := by
  rw [phdrEnd, BitVec.add_assoc, pagingAlignAddress_toNat, BitVec.toNat_add]

/-- ページがあるヘッダでは、範囲は空でなく、`2^31` バイトより短い。 -/
theorem phdrPages_pos {file : ElfFile} {phdr : Elf32Phdr} (hle : ¬ phdrEnd file phdr < phdrBase file phdr)
    (hpos : phdrPages file phdr ≠ 0) :
    (phdrBase file phdr).toNat + 4096 * phdrPages file phdr = (phdrEnd file phdr).toNat := by
  have hle' : phdrBase file phdr ≤ phdrEnd file phdr := BitVec.not_lt.1 hle
  have hnat : (phdrBase file phdr).toNat ≤ (phdrEnd file phdr).toNat := hle'
  have hcount := pageCount_eq hle'
  have hb : PageAligned (phdrBase file phdr) := pageAligned_alignToLower _
  have he : PageAligned (phdrEnd file phdr) := pageAligned_alignAddress _
  simp only [PageAligned] at hb he
  rw [phdrPages] at *
  split at hcount <;> omega

theorem mem_phdrMappings {file : ElfFile} {phdr : Elf32Phdr} (hle : ¬ phdrEnd file phdr < phdrBase file phdr)
    {m : Mapping} (hm : m ∈ phdrMappings file phdr) :
    ∃ q < phdrPages file phdr, m.phys.toNat = (phdrBase file phdr).toNat + 4096 * q := by
  simp only [phdrMappings, pageMappings, List.mem_map, List.mem_range] at hm
  obtain ⟨q, hq, rfl⟩ := hm
  have hspan := phdrPages_pos hle (by omega)
  have hend := (phdrEnd file phdr).isLt
  have hpage : PAGING_PAGE_SIZE.toNat = 4096 := rfl
  refine ⟨q, hq, ?_⟩
  rw [BitVec.toNat_add, BitVec.toNat_mul, BitVec.toNat_ofNat, hpage]
  omega

section

variable {file : ElfFile} {size : Word} (halign : PageAligned file.elfMemory)
  (hfit : file.elfMemory.toNat + imageBytes size < 2 ^ 32)
include halign hfit

/-- 空でない範囲が割り当ての中にあるのは、ファイルの中の位置とその終わりが、どちらも割り当ての大きさに収まるときである。 -/
theorem phdrRange_inside_iff {phdr : Elf32Phdr} (hlt : (phdrBase file phdr).toNat < (phdrEnd file phdr).toNat) :
    (file.elfMemory.toNat ≤ (phdrBase file phdr).toNat ∧
      (phdrEnd file phdr).toNat ≤ file.elfMemory.toNat + imageBytes size) ↔
    phdr.pOffset.toNat < imageBytes size ∧ (phdr.pOffset + phdr.pMemsz).toNat ≤ imageBytes size := by
  have hmul : imageBytes size % 4096 = 0 := by rw [imageBytes]; omega
  have ho := phdr.pOffset.isLt
  have hx := (phdr.pOffset + phdr.pMemsz).isLt
  simp only [PageAligned] at halign
  rw [phdrBase_toNat, phdrEnd_toNat] at hlt
  rw [phdrBase_toNat, phdrEnd_toNat]
  generalize imageBytes size = a at *
  generalize file.elfMemory.toNat = b at *
  generalize phdr.pOffset.toNat = o at *
  generalize (phdr.pOffset + phdr.pMemsz).toNat = x at *
  constructor
  · rintro ⟨h1, h2⟩
    omega
  · rintro ⟨h1, h2⟩
    omega

/-- 一つのヘッダの物理ページが割り当ての中にあるのは、ページが無いか、ファイルの中の位置とその終わりが収まるときである。 -/
theorem phdrMappings_inside_iff {phdr : Elf32Phdr} (hle : ¬ phdrEnd file phdr < phdrBase file phdr) :
    (∀ m ∈ phdrMappings file phdr, InsideImage file.elfMemory size m.phys) ↔
      phdrPages file phdr = 0 ∨
        (phdr.pOffset.toNat < imageBytes size ∧ (phdr.pOffset + phdr.pMemsz).toNat ≤ imageBytes size) := by
  by_cases hzero : phdrPages file phdr = 0
  · have hnil : phdrMappings file phdr = [] := by
      rw [phdrMappings, hzero]
      rfl
    simp [hnil, hzero]
  · have hspan := phdrPages_pos hle hzero
    have hpos : 0 < phdrPages file phdr := Nat.pos_of_ne_zero hzero
    have hrange := phdrRange_inside_iff halign hfit
      (show (phdrBase file phdr).toNat < (phdrEnd file phdr).toNat by omega)
    rw [or_iff_right hzero, ← hrange]
    constructor
    · intro hall
      -- 最初と最後のページが、範囲の両端を決める。
      have hmem : ∀ q < phdrPages file phdr, ∃ m ∈ phdrMappings file phdr,
          m.phys.toNat = (phdrBase file phdr).toNat + 4096 * q := by
        intro q hq
        have hend := (phdrEnd file phdr).isLt
        have hpage : PAGING_PAGE_SIZE.toNat = 4096 := rfl
        refine ⟨_, List.mem_map.2 ⟨q, List.mem_range.2 hq, rfl⟩, ?_⟩
        simp only
        rw [BitVec.toNat_add, BitVec.toNat_mul, BitVec.toNat_ofNat, hpage]
        omega
      obtain ⟨m₀, hm₀, h₀⟩ := hmem 0 hpos
      obtain ⟨m₁, hm₁, h₁⟩ := hmem (phdrPages file phdr - 1) (by omega)
      have hin₀ := hall m₀ hm₀
      have hin₁ := hall m₁ hm₁
      simp only [InsideImage] at hin₀ hin₁
      omega
    · rintro ⟨hlow, hhigh⟩ m hm
      obtain ⟨q, hq, hphys⟩ := mem_phdrMappings hle hm
      simp only [InsideImage]
      omega

end

end EnkiOs
