import EnkiOs.Elf.Lemmas
import EnkiOs.Libc.String
import EnkiOs.Process.Map

/-!
# ELF ファイルの割り付けについての結果
-/

namespace EnkiOs
open Machine

/-- `process_map_elf` の置く物理ページが、どれもファイルのための割り当ての中にある。 -/
def MapsInside (mem : Memory) (file : ElfFile) (size : Word) : Prop :=
  ∀ m ∈ elfMappings mem file, InsideImage file.elfMemory size m.phys

/-- 受け入れた ELF ファイルの割り付けが割り当ての中に収まるのは、割り付けられるどのヘッダでも、ページが無いか、
`p_offset` と `p_offset + p_memsz` がどちらも割り当ての大きさに収まるときである。 -/
theorem mapsInside_iff {mem : Memory} {memory size : Word} {file : ElfFile}
    (haccept : elfProcessLoaded mem { elfMemory := memory } = (0, file)) (halign : PageAligned memory)
    (hfit : memory.toNat + imageBytes size < 2 ^ 32) :
    (∀ words dir, (processMapElf mem words dir file).2 = (elfMappings mem file).foldl (Mapping.put dir) words) ∧
    (MapsInside mem file size ↔
      ∀ i < (ElfHeader.at mem memory).ePhnum.toNat,
        (∀ j ≤ i, ¬ phdrEnd file (elfProgramHeader mem memory j) < phdrBase file (elfProgramHeader mem memory j)) →
        phdrPages file (elfProgramHeader mem memory i) = 0 ∨
          ((elfProgramHeader mem memory i).pOffset.toNat < imageBytes size ∧
            ((elfProgramHeader mem memory i).pOffset + (elfProgramHeader mem memory i).pMemsz).toNat ≤
              imageBytes size)) := by
  have hmemory : file.elfMemory = memory := by
    have h := elfProcessLoaded_memory mem { elfMemory := memory }
    rwa [haccept] at h
  subst hmemory
  refine ⟨fun words dir => processMapElf_words mem words dir file, ?_⟩
  simp only [MapsInside, elfMappings, mem_elfMappingsFrom, Nat.zero_add]
  constructor
  · intro hall i hi hok
    refine (phdrMappings_inside_iff halign hfit (hok i (Nat.le_refl i))).1 ?_
    intro m hm
    exact hall m ⟨i, hi, hok, hm⟩
  · rintro hcond m ⟨i, hi, hok, hm⟩
    exact (phdrMappings_inside_iff halign hfit (hok i (Nat.le_refl i))).2 (hcond i hi hok) m hm

/-! ## 小さな ELF ファイル -/

/-- 一つの `PT_LOAD` のヘッダを持つ、88 バイトの ELF ファイル。`p_offset` は 0、`p_vaddr` は `0x400000`、`p_filesz` は
84、`p_memsz` は `memsz` で、ヘッダの後ろに `pad` が四つ続く。 -/
def elfImage (memsz : Word) (pad : Byte) : List Byte :=
  [0x7F, 0x45, 0x4C, 0x46, 1, 1, 1, 0, 0, 0, 0, 0, 0, 0, 0, 0, 2, 0, 3, 0] ++ wordBytes 1 ++ wordBytes 0x400054 ++
    wordBytes 52 ++ wordBytes 0 ++ wordBytes 0 ++ [52, 0, 32, 0, 1, 0, 0, 0, 0, 0, 0, 0] ++
    wordBytes 1 ++ wordBytes 0 ++ wordBytes 0x400000 ++ wordBytes 0x400000 ++ wordBytes 84 ++ wordBytes memsz ++
    wordBytes 7 ++ wordBytes 0x1000 ++ [pad, pad, pad, pad]

example : (elfImage 84 0).length = 88 := rfl

/-- ヒープの先頭に読み込んだファイル。 -/
def imageMemory (memsz : Word) (pad : Byte) : Memory := Memory.write (fun _ => 0) 0x01000000 (elfImage memsz pad)

def imageFile (memsz : Word) (pad : Byte) : ElfFile := (elfProcessLoaded (imageMemory memsz pad) { elfMemory := 0x01000000 }).2

/-- ファイルに収まるヘッダなら、割り当ての中だけが割り付けられる。 -/
theorem mapsInside_fitting : elfProcessLoaded (imageMemory 84 0) { elfMemory := 0x01000000 } = (0, imageFile 84 0) ∧
    MapsInside (imageMemory 84 0) (imageFile 84 0) 88 := by
  have haccept : elfProcessLoaded (imageMemory 84 0) { elfMemory := 0x01000000 } = (0, imageFile 84 0) := rfl
  refine ⟨haccept, (mapsInside_iff haccept (by decide) (by decide)).2.2 ?_⟩
  intro i hi _
  have hphnum : (ElfHeader.at (imageMemory 84 0) 0x01000000).ePhnum.toNat = 1 := rfl
  obtain rfl : i = 0 := by omega
  exact .inr ⟨by decide, by decide⟩

/-- `p_memsz` が `0x2000` なら、88 バイトのファイルのための一つのブロックの次のページまで、書き込めるように割り付けられる。 -/
theorem mapsInside_fails_large :
    elfProcessLoaded (imageMemory 0x2000 0) { elfMemory := 0x01000000 } = (0, imageFile 0x2000 0) ∧
    (⟨0x401000, 0x01001000, userFlags⟩ : Mapping) ∈ elfMappings (imageMemory 0x2000 0) (imageFile 0x2000 0) ∧
    ¬ MapsInside (imageMemory 0x2000 0) (imageFile 0x2000 0) 88 := by
  have hmem : (⟨0x401000, 0x01001000, userFlags⟩ : Mapping) ∈
      elfMappings (imageMemory 0x2000 0) (imageFile 0x2000 0) := by
    refine mem_elfMappingsFrom.2 ⟨0, by decide, ?_, ?_⟩
    · intro l hl
      obtain rfl : l = 0 := by omega
      decide
    · exact List.mem_map.2 ⟨1, by decide, rfl⟩
  refine ⟨rfl, hmem, ?_⟩
  intro hall
  exact absurd (hall _ hmem).2 (by decide)

end EnkiOs
