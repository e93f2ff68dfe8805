import EnkiOs.Elf.Basic

/-!
# 読み込んだ ELF ファイルの処理の結果

処理は読み込んだ先を変えず、結果はヘッダの検査の結果である。
-/

namespace EnkiOs
open Machine

theorem elfProcessPheader_memory (file : ElfFile) (phdr : Elf32Phdr) :
    (elfProcessPheader file phdr).2.elfMemory = file.elfMemory := by
  simp only [elfProcessPheader, elfProcessPhdrPtLoad]
  split
  · split <;> split <;> rfl
  · rfl

theorem elfProcessPheadersLoop_memory (mem : Memory) (header : Word) (k i : Nat) (result : Int) (file : ElfFile) :
    (elfProcessPheadersLoop mem header k i result file).2.elfMemory = file.elfMemory := by
  induction k generalizing i result file with
  | zero => rfl
  | succ k ih =>
      have hkeep := elfProcessPheader_memory file (elfProgramHeader mem header i)
      simp only [elfProcessPheadersLoop]
      split
      · exact hkeep
      · exact (ih _ _ _).trans hkeep

theorem elfProcessLoaded_memory (mem : Memory) (file : ElfFile) :
    (elfProcessLoaded mem file).2.elfMemory = file.elfMemory := by
  simp only [elfProcessLoaded]
  split
  · rfl
  · exact elfProcessPheadersLoop_memory _ _ _ _ _ _

theorem elfProcessPheader_result (file : ElfFile) (phdr : Elf32Phdr) : (elfProcessPheader file phdr).1 = 0 := by
  simp only [elfProcessPheader, elfProcessPhdrPtLoad]
  split <;> rfl

theorem elfProcessPheadersLoop_result (mem : Memory) (header : Word) (k i : Nat) (result : Int) (file : ElfFile) :
    (elfProcessPheadersLoop mem header k i result file).1 = if k = 0 then result else 0 := by
  induction k generalizing i result file with
  | zero => rfl
  | succ k ih =>
      simp only [elfProcessPheadersLoop, elfProcessPheader_result, Int.lt_irrefl, if_false, ih]
      split <;> rfl

theorem elfValidateLoaded_cases (header : ElfHeader) : elfValidateLoaded header = 0 ∨ elfValidateLoaded header = -EINVFMT := by
  rw [elfValidateLoaded]
  split
  · exact .inl rfl
  · exact .inr rfl

/-- プログラムヘッダの処理は失敗しないので、結果は検査の結果である。 -/
theorem elfProcessLoaded_result (mem : Memory) (file : ElfFile) :
    (elfProcessLoaded mem file).1 = elfValidateLoaded (ElfHeader.at mem file.elfMemory) := by
  rcases elfValidateLoaded_cases (ElfHeader.at mem file.elfMemory) with hacc | hrej
  · simp only [elfProcessLoaded, hacc, Int.lt_irrefl, if_false, elfProcessPheaders, elfProcessPheadersLoop_result,
      ite_self]
  · rw [elfProcessLoaded, hrej]
    rfl

theorem elfProcessLoaded_neg_iff (mem : Memory) (file : ElfFile) :
    (elfProcessLoaded mem file).1 < 0 ↔ elfValidateLoaded (ElfHeader.at mem file.elfMemory) ≠ 0 := by
  rw [elfProcessLoaded_result]
  rcases elfValidateLoaded_cases (ElfHeader.at mem file.elfMemory) with hacc | hrej
  · rw [hacc]
    decide
  · rw [hrej]
    decide

end EnkiOs
