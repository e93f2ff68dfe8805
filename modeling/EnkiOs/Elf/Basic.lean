import EnkiOs.Kernel

/-!
# ELF ファイルの読み込み

`kernel/elf/elf_loader.c`。ヘッダの項目は、読み込んだ領域のバイトから取り出す。
-/

namespace EnkiOs
open Machine

abbrev PF_W : Word := 2
abbrev PT_LOAD : Word := 1

abbrev ELFCLASSNONE : Byte := 0
abbrev ELFCLASS32 : Byte := 1
abbrev ELFDATANONE : Byte := 0
abbrev ELFDATA2LSB : Byte := 1

/-- `struct elf_header` のうち使う項目。 -/
structure ElfHeader where
  eIdent : List Byte
  eEntry : Word
  ePhoff : Word
  ePhnum : BitVec 16

/-- アドレス `a` にある `struct elf_header`。 -/
def ElfHeader.at (mem : Memory) (a : Word) : ElfHeader where
  eIdent := mem.read a 16
  eEntry := mem.word (a + 24)
  ePhoff := mem.word (a + 28)
  ePhnum := mem.half (a + 44)

/-- `struct elf32_phdr` のうち使う項目。 -/
structure Elf32Phdr where
  pType : Word
  pOffset : Word
  pVaddr : Word
  pFilesz : Word
  pMemsz : Word
  pFlags : Word

/-- `sizeof(struct elf32_phdr)` -/
abbrev ELF32_PHDR_SIZE : Word := 32

/-- アドレス `a` にある `struct elf32_phdr`。 -/
def Elf32Phdr.at (mem : Memory) (a : Word) : Elf32Phdr where
  pType := mem.word a
  pOffset := mem.word (a + 4)
  pVaddr := mem.word (a + 8)
  pFilesz := mem.word (a + 16)
  pMemsz := mem.word (a + 20)
  pFlags := mem.word (a + 24)

/-! ## ヘッダの検査 -/

def elfMagic : List Byte := [0x7F, 0x45, 0x4C, 0x46]

/-- 先頭の 4 バイトの `memcmp` が 0 であること。 -/
def elfValidSignature (header : ElfHeader) : Bool := header.eIdent.take 4 = elfMagic

def elfValidClass (header : ElfHeader) : Bool :=
  byteAt header.eIdent 4 = ELFCLASSNONE ∨ byteAt header.eIdent 4 = ELFCLASS32

def elfValidEncoding (header : ElfHeader) : Bool :=
  byteAt header.eIdent 5 = ELFDATANONE ∨ byteAt header.eIdent 5 = ELFDATA2LSB

def elfHasProgramHeader (header : ElfHeader) : Bool := header.ePhoff ≠ 0

def elfValidateLoaded (header : ElfHeader) : Int :=
  if elfValidSignature header ∧ elfValidClass header ∧ elfValidEncoding header ∧ elfHasProgramHeader header then 0
  else -EINVFMT

/-! ## プログラムヘッダ -/

/-- ヘッダのアドレス `a` から、プログラムヘッダの並びのアドレスを求める。 -/
def elfPheader (mem : Memory) (a : Word) : Word :=
  let header := ElfHeader.at mem a
  if header.ePhoff = 0 then 0 else a + header.ePhoff

def elfProgramHeader (mem : Memory) (a : Word) (idx : Nat) : Elf32Phdr :=
  Elf32Phdr.at mem (elfPheader mem a + ELF32_PHDR_SIZE * BitVec.ofNat 32 idx)

def elfPhdrPhysAddr (file : ElfFile) (phdr : Elf32Phdr) : Word := file.elfMemory + phdr.pOffset

def elfProcessPhdrPtLoad (file : ElfFile) (phdr : Elf32Phdr) : Int × ElfFile :=
  let file :=
    if phdr.pVaddr ≤ file.virtBaseAddr ∨ file.virtBaseAddr = 0 then
      { file with virtBaseAddr := phdr.pVaddr, physBaseAddr := file.elfMemory + phdr.pOffset }
    else file
  let endVirtAddr := phdr.pVaddr + phdr.pFilesz
  let file :=
    if file.virtEndAddr ≤ endVirtAddr ∨ file.virtEndAddr = 0 then
      { file with virtEndAddr := endVirtAddr, physEndAddr := file.elfMemory + phdr.pOffset + phdr.pFilesz }
    else file
  (0, file)

def elfProcessPheader (file : ElfFile) (phdr : Elf32Phdr) : Int × ElfFile :=
  if phdr.pType = PT_LOAD then elfProcessPhdrPtLoad file phdr else (0, file)

/-- 残りの回数と `i`、ここまでの `result` を持つ。 -/
def elfProcessPheadersLoop (mem : Memory) (header : Word) : Nat → Nat → Int → ElfFile → Int × ElfFile
  | 0, _, result, file => (result, file)
  | k + 1, i, _, file =>
      let (result, file) := elfProcessPheader file (elfProgramHeader mem header i)
      if result < 0 then (result, file) else elfProcessPheadersLoop mem header k (i + 1) result file

def elfProcessPheaders (mem : Memory) (file : ElfFile) : Int × ElfFile :=
  elfProcessPheadersLoop mem file.elfMemory (ElfHeader.at mem file.elfMemory).ePhnum.toNat 0 0 file

def elfProcessLoaded (mem : Memory) (file : ElfFile) : Int × ElfFile :=
  let result := elfValidateLoaded (ElfHeader.at mem file.elfMemory)
  if result < 0 then (result, file) else elfProcessPheaders mem file

/-! ## 読み込みと解放 -/

def modeRead : List Byte := [0x72]

/-- 成功すると、`struct elf_file` のアドレスも返す。割り当ての失敗は調べない。失敗した `fopen` の後の `fclose(0)` は、
記述子が無いので何もしない。成功したときは `fclose` を呼ばない。 -/
def elfLoad (s : Kernel) (fileName : List Byte) : Except Fault (Int × Word × Kernel) := do
  let (elfFile, heap) := kzalloc s.heap ELF_FILE_SIZE
  let s := (s.setHeap heap).setElfFile elfFile {}
  let (fd, fs) ← fopen s.toFileState fileName modeRead
  let s := { s with toFileState := fs }
  if fd ≤ 0 then return (- EIO, 0, { s with toFileState := (fclose fs 0).2 })
  match ← fstat s.toFileState fd with
  | .error result => return (result, 0, { s with toFileState := (fclose s.toFileState fd).2 })
  | .ok stat =>
      if elfFile = 0 then throw .nullDeref
      let (elfMemory, s) := kzallocBytes s stat.fileSize
      let file := { s.elfFiles elfFile with elfMemory := elfMemory }
      let (result, fs) ← fread s.toFileState elfMemory stat.fileSize 1 fd
      let s := { s with toFileState := fs }.setElfFile elfFile file
      if result < 0 then return (result, 0, { s with toFileState := (fclose fs fd).2 })
      if elfMemory = 0 then throw .nullDeref
      let (result, file) := elfProcessLoaded s.mem file
      let s := s.setElfFile elfFile file
      if result < 0 then return (result, 0, { s with toFileState := (fclose fs fd).2 })
      return (result, elfFile, s)

def elfClose (s : Kernel) (elfFile : Word) : Kernel :=
  if elfFile = 0 then s
  else s.setHeap (kfree (kfree s.heap (s.elfFiles elfFile).elfMemory) elfFile)

end EnkiOs
