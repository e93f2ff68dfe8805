import EnkiOs.Lib.Reads
import EnkiOs.Process.Map

/-!
# ヘッダの読み取り

`elf_process_loaded` と `process_map_elf` を、ファイルのバイトを一つずつ読む計算として書く。結果は、ヘッダをまとめて取り出す
定義と同じである。
-/

namespace EnkiOs
open Machine

/-! ## ヘッダの検査 -/

/-- `memcmp(buf, bytes, n)` が 0 かどうか。違うバイトで止まる。 -/
def readMemcmp : Word → List Byte → Reads Bool
  | _, [] => pure true
  | buf, b :: bytes => do
      let x ← Reads.byte buf
      if x ≠ b then pure false else readMemcmp (buf + 1) bytes

def readValidSignature (header : Word) : Reads Bool := readMemcmp header elfMagic

def readValidClass (header : Word) : Reads Bool := do
  let eiClass ← Reads.byte (header + 4)
  pure (eiClass = ELFCLASSNONE ∨ eiClass = ELFCLASS32)

def readValidEncoding (header : Word) : Reads Bool := do
  let eiData ← Reads.byte (header + 5)
  pure (eiData = ELFDATANONE ∨ eiData = ELFDATA2LSB)

def readHasProgramHeader (header : Word) : Reads Bool := do
  let ePhoff ← Reads.word (header + 28)
  pure (ePhoff ≠ 0)

/-- `r && s`。`r` が偽なら、`s` は読まない。 -/
def readAnd (r s : Reads Bool) : Reads Bool := do
  let x ← r
  if x then s else pure false

def readValidateLoaded (header : Word) : Reads Int := do
  let valid ← readAnd (readValidSignature header) (readAnd (readValidClass header)
    (readAnd (readValidEncoding header) (readHasProgramHeader header)))
  pure (if valid then 0 else -EINVFMT)

/-! ## プログラムヘッダ -/

def readPheader (header : Word) : Reads Word := do
  let ePhoff ← Reads.word (header + 28)
  pure (if ePhoff = 0 then 0 else header + ePhoff)

/-- `elf_process_phdr_pt_load` の初めの条件。 -/
def readPtLoadBase (file : ElfFile) (phdr : Word) : Reads ElfFile := do
  let pVaddr ← Reads.word (phdr + 8)
  if pVaddr ≤ file.virtBaseAddr ∨ file.virtBaseAddr = 0 then do
    let pOffset ← Reads.word (phdr + 4)
    pure { file with virtBaseAddr := pVaddr, physBaseAddr := file.elfMemory + pOffset }
  else pure file

/-- `elf_process_phdr_pt_load` の後の条件。 -/
def readPtLoadEnd (file : ElfFile) (phdr : Word) : Reads ElfFile := do
  let pVaddr ← Reads.word (phdr + 8)
  let pFilesz ← Reads.word (phdr + 16)
  if file.virtEndAddr ≤ pVaddr + pFilesz ∨ file.virtEndAddr = 0 then do
    let pOffset ← Reads.word (phdr + 4)
    pure { file with virtEndAddr := pVaddr + pFilesz, physEndAddr := file.elfMemory + pOffset + pFilesz }
  else pure file

def readProcessPhdrPtLoad (file : ElfFile) (phdr : Word) : Reads (Int × ElfFile) := do
  let file ← readPtLoadBase file phdr
  let file ← readPtLoadEnd file phdr
  pure (0, file)

def readProcessPheader (file : ElfFile) (phdr : Word) : Reads (Int × ElfFile) := do
  let pType ← Reads.word phdr
  if pType = PT_LOAD then readProcessPhdrPtLoad file phdr else pure (0, file)

/-- 残りの回数と `i`、ここまでの `result` を持つ。回るたびに `e_phoff` を読み、次の条件のために `e_phnum` を読む。 -/
def readProcessPheadersLoop (header : Word) : Nat → Nat → Int → ElfFile → Reads (Int × ElfFile)
  | 0, _, result, file => pure (result, file)
  | k + 1, i, _, file => do
      let pheader ← readPheader header
      let out ← readProcessPheader file (pheader + ELF32_PHDR_SIZE * BitVec.ofNat 32 i)
      if out.1 < 0 then pure out
      else do
        let _ ← Reads.half (header + 44)
        readProcessPheadersLoop header k (i + 1) out.1 out.2

def readProcessPheaders (file : ElfFile) : Reads (Int × ElfFile) := do
  let ePhnum ← Reads.half (file.elfMemory + 44)
  readProcessPheadersLoop file.elfMemory ePhnum.toNat 0 0 file

def readProcessLoaded (file : ElfFile) : Reads (Int × ElfFile) := do
  let result ← readValidateLoaded file.elfMemory
  if result < 0 then pure (result, file) else readProcessPheaders file

/-! ## 割り付け -/

/-- `p_type` と `p_filesz` は読まない。 -/
def readMapPhdr (words : Words) (pageDir : Word) (file : ElfFile) (phdr : Word) : Reads (Int × Words) := do
  let pFlags ← Reads.word (phdr + 24)
  let pOffset ← Reads.word (phdr + 4)
  let pVaddr ← Reads.word (phdr + 8)
  let pMemsz ← Reads.word (phdr + 20)
  pure (processMapPhdr words pageDir file ⟨0, pOffset, pVaddr, 0, pMemsz, pFlags⟩)

/-- `phdrs` は一度だけ求める。 -/
def readMapElfLoop (file : ElfFile) (pageDir phdrs : Word) : Nat → Nat → Int → Words → Reads (Int × Words)
  | 0, _, result, words => pure (result, words)
  | k + 1, i, _, words => do
      let out ← readMapPhdr words pageDir file (phdrs + ELF32_PHDR_SIZE * BitVec.ofNat 32 i)
      if out.1 < 0 then pure out
      else do
        let _ ← Reads.half (file.elfMemory + 44)
        readMapElfLoop file pageDir phdrs k (i + 1) out.1 out.2

def readMapElf (words : Words) (pageDir : Word) (file : ElfFile) : Reads (Int × Words) := do
  let phdrs ← readPheader file.elfMemory
  let ePhnum ← Reads.half (file.elfMemory + 44)
  readMapElfLoop file pageDir phdrs ePhnum.toNat 0 0 words

/-! ## 結果は同じである -/

variable {mem : Memory} {file : ElfFile} {words : Words} {dir header : Word}

theorem byteAt_eIdent (mem : Memory) (a : Word) {i : Nat} (hi : i < 16) :
    byteAt (ElfHeader.at mem a).eIdent i = mem (a + BitVec.ofNat 32 i) := byteAt_map_range _ hi

theorem readMemcmp_value (buf : Word) (bytes : List Byte) :
    (readMemcmp buf bytes).value mem = decide (mem.read buf bytes.length = bytes) := by
  induction bytes generalizing buf with
  | nil => rfl
  | cons b bytes ih =>
      simp only [readMemcmp, Reads.value_bind, Reads.value_byte, List.length_cons, Memory.read_succ]
      by_cases hb : mem buf = b
      · simp [hb, ih]
      · simp [hb]

theorem readAnd_value (r s : Reads Bool) : (readAnd r s).value mem = (r.value mem && s.value mem) := by
  simp only [readAnd, Reads.value_bind]
  cases r.value mem <;> simp

theorem readValidSignature_value (header : Word) :
    (readValidSignature header).value mem = elfValidSignature (ElfHeader.at mem header) := by
  rw [readValidSignature, readMemcmp_value, elfValidSignature]
  simp only [ElfHeader.at, Memory.read, ← List.map_take]
  rfl

theorem readValidClass_value (header : Word) :
    (readValidClass header).value mem = elfValidClass (ElfHeader.at mem header) := by
  rw [elfValidClass, byteAt_eIdent mem header (by decide)]
  rfl

theorem readValidEncoding_value (header : Word) :
    (readValidEncoding header).value mem = elfValidEncoding (ElfHeader.at mem header) := by
  rw [elfValidEncoding, byteAt_eIdent mem header (by decide)]
  rfl

theorem readHasProgramHeader_value (header : Word) :
    (readHasProgramHeader header).value mem = elfHasProgramHeader (ElfHeader.at mem header) := rfl

theorem readValidateLoaded_value (header : Word) :
    (readValidateLoaded header).value mem = elfValidateLoaded (ElfHeader.at mem header) := by
  simp only [readValidateLoaded, Reads.value_bind, Reads.value_pure, readAnd_value, readValidSignature_value,
    readValidClass_value, readValidEncoding_value, readHasProgramHeader_value, elfValidateLoaded, Bool.and_eq_true]

theorem readPheader_value (header : Word) : (readPheader header).value mem = elfPheader mem header := rfl

theorem readPtLoadBase_value (phdr : Word) : (readPtLoadBase file phdr).value mem =
    if mem.word (phdr + 8) ≤ file.virtBaseAddr ∨ file.virtBaseAddr = 0 then
      { file with virtBaseAddr := mem.word (phdr + 8), physBaseAddr := file.elfMemory + mem.word (phdr + 4) }
    else file := by
  simp only [readPtLoadBase, Reads.value_bind, Reads.value_word, Reads.value_ite, Reads.value_pure]

theorem readPtLoadEnd_value (phdr : Word) : (readPtLoadEnd file phdr).value mem =
    if file.virtEndAddr ≤ mem.word (phdr + 8) + mem.word (phdr + 16) ∨ file.virtEndAddr = 0 then
      { file with
        virtEndAddr := mem.word (phdr + 8) + mem.word (phdr + 16)
        physEndAddr := file.elfMemory + mem.word (phdr + 4) + mem.word (phdr + 16) }
    else file := by
  simp only [readPtLoadEnd, Reads.value_bind, Reads.value_word, Reads.value_ite, Reads.value_pure]

theorem readProcessPheader_value (phdr : Word) :
    (readProcessPheader file phdr).value mem = elfProcessPheader file (Elf32Phdr.at mem phdr) := by
  simp only [readProcessPheader, Reads.value_bind, Reads.value_word, Reads.value_ite, Reads.value_pure, elfProcessPheader]
  by_cases hload : mem.word phdr = PT_LOAD
  · rw [if_pos hload, if_pos (show (Elf32Phdr.at mem phdr).pType = PT_LOAD from hload)]
    simp only [readProcessPhdrPtLoad, Reads.value_bind, readPtLoadBase_value, readPtLoadEnd_value]
    rfl
  · rw [if_neg hload, if_neg (show (Elf32Phdr.at mem phdr).pType ≠ PT_LOAD from hload)]

theorem readProcessPheadersLoop_value (k i : Nat) (result : Int) (file : ElfFile) :
    (readProcessPheadersLoop header k i result file).value mem = elfProcessPheadersLoop mem header k i result file := by
  induction k generalizing i result file with
  | zero => rfl
  | succ k ih =>
      simp only [readProcessPheadersLoop, Reads.value_bind, Reads.value_ite, Reads.value_pure, readPheader_value,
        readProcessPheader_value, ih]
      rfl

/-- 一つずつ読む計算の結果は、`elf_process_loaded` の結果である。 -/
theorem readProcessLoaded_value (file : ElfFile) : (readProcessLoaded file).value mem = elfProcessLoaded mem file := by
  simp only [readProcessLoaded, readProcessPheaders, Reads.value_bind, Reads.value_ite, Reads.value_pure,
    readValidateLoaded_value, readProcessPheadersLoop_value]
  rfl

theorem readMapElfLoop_value (k i : Nat) (result : Int) (words : Words) :
    (readMapElfLoop file dir (elfPheader mem file.elfMemory) k i result words).value mem =
      processMapElfLoop mem file dir k i result words := by
  induction k generalizing i result words with
  | zero => rfl
  | succ k ih =>
      simp only [readMapElfLoop, readMapPhdr, Reads.value_bind, Reads.value_ite, Reads.value_pure, ih]
      rfl

theorem readMapElf_value : (readMapElf words dir file).value mem = processMapElf mem words dir file := by
  simp only [readMapElf, Reads.value_bind, readPheader_value, readMapElfLoop_value]
  rfl

end EnkiOs
