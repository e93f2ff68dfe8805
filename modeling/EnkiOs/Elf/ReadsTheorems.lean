import EnkiOs.Elf.Reads
import EnkiOs.Process.Theorems

/-!
# ヘッダの読み取りの範囲

検査も二つの繰り返しも、ファイルの大きさを見ない。読み取りがファイルの中に収まるための条件を求める。
-/

namespace EnkiOs
open Machine

variable {mem : Memory} {file : ElfFile} {words : Words} {memory size dir : Word}

/-! ## ファイルの中 -/

/-- `x` は、`memory` に読み込んだ `size` バイトの中にある。 -/
def InFile (memory size x : Word) : Prop := (x - memory).toNat < size.toNat

/-- 新しい `struct elf_file` で読み込み、受け入れたなら割り付けるとき、ヘッダの読み取りがどれもファイルの中に収まる。 -/
def HeaderReadsInside (mem : Memory) (memory size : Word) : Prop :=
  (readProcessLoaded { elfMemory := memory }).Within mem (InFile memory size) ∧
  ∀ file, elfProcessLoaded mem { elfMemory := memory } = (0, file) →
    ∀ words dir, (readMapElf words dir file).Within mem (InFile memory size)

/-- `memcmp` の読むバイトの数。 -/
def memcmpLength (mem : Memory) : Word → List Byte → Nat
  | _, [] => 0
  | a, b :: bytes => if mem a ≠ b then 1 else memcmpLength mem (a + 1) bytes + 1

/-- 検査が読む、`struct elf_header` の先頭からの長さ。受け入れたときは、`e_phnum` までである。 -/
def elfHeaderLength (mem : Memory) (memory : Word) : Nat :=
  let header := ElfHeader.at mem memory
  if ¬elfValidSignature header then memcmpLength mem memory elfMagic
  else if ¬elfValidClass header then 5
  else if ¬elfValidEncoding header then 6
  else if ¬elfHasProgramHeader header then 32
  else 46

/-- 番号 `i` より手前に、範囲の終わりが始まりより手前のヘッダがない。 -/
def PhdrReached (mem : Memory) (memory : Word) (i : Nat) : Prop :=
  ∀ j < i, ¬phdrEnd { elfMemory := memory } (elfProgramHeader mem memory j) <
    phdrBase { elfMemory := memory } (elfProgramHeader mem memory j)

instance (mem : Memory) (memory : Word) (i : Nat) : Decidable (PhdrReached mem memory i) :=
  inferInstanceAs (Decidable (∀ j < i, _))

/-- 番号 `i` のプログラムヘッダの、読まれる長さ。割り付けられるなら `p_flags` まで、そうでなければ `p_filesz` か `p_type` まで
である。 -/
def phdrLength (mem : Memory) (memory : Word) (i : Nat) : Nat :=
  if PhdrReached mem memory i then 28 else if (elfProgramHeader mem memory i).pType = PT_LOAD then 20 else 4

/-- ファイルの先頭からの、番号 `i` のプログラムヘッダの位置。 -/
def phdrOffset (mem : Memory) (memory : Word) (i : Nat) : Word :=
  (ElfHeader.at mem memory).ePhoff + ELF32_PHDR_SIZE * BitVec.ofNat 32 i

/-- 読まれる部分が、どれもファイルの長さに収まる。 -/
structure HeadersFit (mem : Memory) (memory size : Word) : Prop where
  header : elfHeaderLength mem memory ≤ size.toNat
  phdr : elfValidateLoaded (ElfHeader.at mem memory) = 0 → ∀ i < (ElfHeader.at mem memory).ePhnum.toNat,
    (phdrOffset mem memory i).toNat + phdrLength mem memory i ≤ size.toNat

/-! ## 一つの値の読み取り -/

theorem inFile_add (memory x : Word) : InFile memory size (memory + x) ↔ x.toNat < size.toNat := by
  rw [InFile, BitVec.add_comm, BitVec.add_sub_cancel]

theorem memcmpLength_eq (mem : Memory) (a : Word) (bytes : List Byte) (h : mem.read a bytes.length = bytes) :
    memcmpLength mem a bytes = bytes.length := by
  induction bytes generalizing a with
  | nil => rfl
  | cons b bytes ih =>
      rw [List.length_cons, Memory.read_succ, List.cons.injEq] at h
      rw [memcmpLength, if_neg (not_not.2 h.1), ih _ h.2, List.length_cons]

theorem readAnd_within {I : Word → Prop} (r s : Reads Bool) :
    (readAnd r s).Within mem I ↔ r.Within mem I ∧ (r.value mem = true → s.Within mem I) := by
  simp only [readAnd, Reads.within_bind, Reads.within_ite, Reads.within_pure]
  cases r.value mem <;> simp

/-- 番号 `i` のヘッダは、`phdrOffset` の位置にある。 -/
theorem elfPheader_add (hphoff : (ElfHeader.at mem memory).ePhoff ≠ 0) (i : Nat) :
    elfPheader mem memory + ELF32_PHDR_SIZE * BitVec.ofNat 32 i = memory + phdrOffset mem memory i := by
  simp only [elfPheader, if_neg hphoff, phdrOffset, BitVec.add_assoc]

section

-- 読み込んだ先はヒープの中なので、ファイルは `2^32` よりもヒープの先頭の分だけ短い。
variable (hsize : size.toNat ≤ 2 ^ 32 - 2 ^ 24)
include hsize

theorem word_within (x : Word) :
    (Reads.word (memory + x)).Within mem (InFile memory size) ↔ x.toNat + 4 ≤ size.toNat := by
  have h1 : (1 : Word).toNat = 1 := rfl
  have h2 : (2 : Word).toNat = 2 := rfl
  have hlt := x.isLt
  simp only [Reads.within_word, BitVec.add_assoc, inFile_add, BitVec.toNat_add, h1, h2]
  omega

theorem half_within (x : Word) :
    (Reads.half (memory + x)).Within mem (InFile memory size) ↔ x.toNat + 2 ≤ size.toNat := by
  have h1 : (1 : Word).toNat = 1 := rfl
  have hlt := x.isLt
  simp only [Reads.within_half, BitVec.add_assoc, inFile_add, BitVec.toNat_add, h1]
  omega

/-! ## 検査 -/

theorem readMemcmp_within {n : Nat} (hn : n ≤ size.toNat) (bytes : List Byte) :
    (readMemcmp (memory + BitVec.ofNat 32 n) bytes).Within mem (InFile memory size) ↔
      n + memcmpLength mem (memory + BitVec.ofNat 32 n) bytes ≤ size.toNat := by
  have hlt := size.isLt
  induction bytes generalizing n with
  | nil => simpa [readMemcmp, memcmpLength] using hn
  | cons b bytes ih =>
      have hnext : memory + BitVec.ofNat 32 n + 1 = memory + BitVec.ofNat 32 (n + 1) := by
        rw [BitVec.add_assoc, BitVec.ofNat_add]
        rfl
      simp only [readMemcmp, Reads.within_bind, Reads.within_byte, Reads.value_byte, Reads.within_ite, Reads.within_pure,
        inFile_add, memcmpLength, hnext]
      rw [BitVec.toNat_ofNat, Nat.mod_eq_of_lt (by omega)]
      by_cases hb : mem (memory + BitVec.ofNat 32 n) ≠ b
      · rw [if_pos hb, if_pos hb, and_true]
        omega
      · rw [if_neg hb, if_neg hb]
        constructor
        · rintro ⟨hin, hrest⟩
          have := (ih (show n + 1 ≤ size.toNat by omega)).1 hrest
          omega
        · intro hall
          exact ⟨by omega, (ih (by omega)).2 (by omega)⟩

theorem readValidSignature_within :
    (readValidSignature memory).Within mem (InFile memory size) ↔ memcmpLength mem memory elfMagic ≤ size.toNat := by
  have h : (readMemcmp (memory + BitVec.ofNat 32 0) elfMagic).Within mem (InFile memory size) ↔ _ :=
    readMemcmp_within hsize (Nat.zero_le _) elfMagic
  rwa [show memory + BitVec.ofNat 32 0 = memory from BitVec.add_zero memory, Nat.zero_add] at h

/-- 検査の読み取りは、`e_phnum` の手前までである。 -/
theorem readValidateLoaded_within :
    (readValidateLoaded memory).Within mem (InFile memory size) ↔
      (if elfValidateLoaded (ElfHeader.at mem memory) = 0 then 32 else elfHeaderLength mem memory) ≤ size.toNat := by
  have hsig : (readValidSignature memory).Within mem (InFile memory size) ↔ _ := readValidSignature_within hsize
  have hclass : (readValidClass memory).Within mem (InFile memory size) ↔ 5 ≤ size.toNat := by
    simp only [readValidClass, Reads.within_bind, Reads.within_byte, Reads.within_pure, inFile_add, and_true]
    rfl
  have hencoding : (readValidEncoding memory).Within mem (InFile memory size) ↔ 6 ≤ size.toNat := by
    simp only [readValidEncoding, Reads.within_bind, Reads.within_byte, Reads.within_pure, inFile_add, and_true]
    rfl
  have hpheader : (readHasProgramHeader memory).Within mem (InFile memory size) ↔ 32 ≤ size.toNat := by
    simp only [readHasProgramHeader, Reads.within_bind, Reads.within_pure, word_within hsize, and_true]
    rfl
  have hfour : elfValidSignature (ElfHeader.at mem memory) = true → memcmpLength mem memory elfMagic = 4 := by
    intro hvalid
    rw [elfValidSignature, decide_eq_true_eq] at hvalid
    refine memcmpLength_eq mem memory elfMagic ?_
    simp only [ElfHeader.at, Memory.read, ← List.map_take] at hvalid
    exact hvalid
  simp only [readValidateLoaded, Reads.within_bind, Reads.within_pure, and_true, readAnd_within, hsig, hclass, hencoding,
    hpheader, readValidSignature_value, readValidClass_value, readValidEncoding_value, elfValidateLoaded, elfHeaderLength]
  by_cases hs : elfValidSignature (ElfHeader.at mem memory) = true
  · by_cases hc : elfValidClass (ElfHeader.at mem memory) = true
    · by_cases he : elfValidEncoding (ElfHeader.at mem memory) = true
      · by_cases hp : elfHasProgramHeader (ElfHeader.at mem memory) = true
        · simp [hs, hc, he, hp, hfour hs]
          omega
        · simp [hs, hc, he, hp, hfour hs, EINVFMT]
          omega
      · simp [hs, hc, he, hfour hs, EINVFMT]
        omega
    · simp [hs, hc, hfour hs, EINVFMT]
      omega
  · simp [hs, EINVFMT]

/-! ## プログラムヘッダの繰り返し -/

theorem readProcessPheader_within (o : Word) :
    (readProcessPheader file (memory + o)).Within mem (InFile memory size) ↔
      o.toNat + (if (Elf32Phdr.at mem (memory + o)).pType = PT_LOAD then 20 else 4) ≤ size.toNat := by
  have h4 : (4 : Word).toNat = 4 := rfl
  have h8 : (8 : Word).toNat = 8 := rfl
  have h16 : (16 : Word).toNat = 16 := rfl
  have hlt := o.isLt
  simp only [readProcessPheader, Reads.within_bind, Reads.within_ite, Reads.within_pure, Reads.value_word, word_within hsize]
  show _ ∧ (if mem.word (memory + o) = PT_LOAD then _ else True) ↔
    o.toNat + (if mem.word (memory + o) = PT_LOAD then 20 else 4) ≤ _
  by_cases hload : mem.word (memory + o) = PT_LOAD
  · simp only [if_pos hload, readProcessPhdrPtLoad, readPtLoadBase, readPtLoadEnd, Reads.within_bind, Reads.within_ite,
      Reads.within_pure, and_true, BitVec.add_assoc, word_within hsize, BitVec.toNat_add, h4, h8, h16]
    constructor
    · intro h
      omega
    · intro h
      refine ⟨by omega, ⟨by omega, ?_⟩, by omega, by omega, ?_⟩
      · split <;> [omega; trivial]
      · split <;> [omega; trivial]
  · simp only [if_neg hload, and_true]

theorem phnum_within (hheader : 46 ≤ size.toNat) : (Reads.half (memory + 44)).Within mem (InFile memory size) := by
  have h44 : (44 : Word).toNat = 44 := rfl
  rw [half_within hsize, h44]
  exact hheader

theorem readProcessPheadersLoop_within (hheader : 46 ≤ size.toNat) (hphoff : (ElfHeader.at mem memory).ePhoff ≠ 0)
    (k i : Nat) (result : Int) (file : ElfFile) :
    (readProcessPheadersLoop memory k i result file).Within mem (InFile memory size) ↔
      ∀ j < k, (phdrOffset mem memory (i + j)).toNat +
        (if (elfProgramHeader mem memory (i + j)).pType = PT_LOAD then 20 else 4) ≤ size.toNat := by
  have h28 : (28 : Word).toNat = 28 := rfl
  induction k generalizing i result file with
  | zero => simp [readProcessPheadersLoop]
  | succ k ih =>
      have hphdr : Elf32Phdr.at mem (memory + phdrOffset mem memory i) = elfProgramHeader mem memory i := by
        rw [elfProgramHeader, elfPheader_add hphoff]
      have hpheader : (readPheader memory).Within mem (InFile memory size) ↔ True := by
        simp only [readPheader, Reads.within_bind, Reads.within_pure, word_within hsize, h28]
        simp
        omega
      simp only [readProcessPheadersLoop, Reads.within_bind, Reads.within_ite, readPheader_value, elfPheader_add hphoff,
        readProcessPheader_within hsize, readProcessPheader_value, elfProcessPheader_result, hpheader,
        phnum_within hsize hheader, ih, hphdr]
      simp only [Int.lt_irrefl, if_false, true_and, Nat.forall_lt_succ_left, Nat.add_zero, Nat.add_assoc, Nat.add_comm 1]

/-! ## 割り付けの繰り返し -/

theorem readMapPhdr_within {o : Word} (htype : o.toNat + 4 ≤ size.toNat) :
    (readMapPhdr words dir file (memory + o)).Within mem (InFile memory size) ↔ o.toNat + 28 ≤ size.toNat := by
  have h4 : (4 : Word).toNat = 4 := rfl
  have h8 : (8 : Word).toNat = 8 := rfl
  have h20 : (20 : Word).toNat = 20 := rfl
  have h24 : (24 : Word).toNat = 24 := rfl
  simp only [readMapPhdr, Reads.within_bind, Reads.within_pure, and_true, BitVec.add_assoc, word_within hsize,
    BitVec.toNat_add, h4, h8, h20, h24]
  omega

theorem readMapElfLoop_within (hheader : 46 ≤ size.toNat) (hphoff : (ElfHeader.at mem file.elfMemory).ePhoff ≠ 0)
    (k i : Nat) (result : Int) (words : Words)
    (htype : ∀ j < k, (phdrOffset mem file.elfMemory (i + j)).toNat + 4 ≤ size.toNat) :
    (readMapElfLoop file dir (elfPheader mem file.elfMemory) k i result words).Within mem (InFile file.elfMemory size) ↔
      ∀ j < k, (∀ l < j, ¬phdrEnd file (elfProgramHeader mem file.elfMemory (i + l)) <
          phdrBase file (elfProgramHeader mem file.elfMemory (i + l))) →
        (phdrOffset mem file.elfMemory (i + j)).toNat + 28 ≤ size.toNat := by
  induction k generalizing i result words with
  | zero => simp [readMapElfLoop]
  | succ k ih =>
      have hfirst := htype 0 (by omega)
      rw [Nat.add_zero] at hfirst
      have hread : (readMapPhdr words dir file (file.elfMemory + phdrOffset mem file.elfMemory i)).Within mem
          (InFile file.elfMemory size) ↔ (phdrOffset mem file.elfMemory i).toNat + 28 ≤ size.toNat :=
        readMapPhdr_within hsize hfirst
      have hvalue : (readMapPhdr words dir file (file.elfMemory + phdrOffset mem file.elfMemory i)).value mem =
          processMapPhdr words dir file (elfProgramHeader mem file.elfMemory i) := by
        rw [elfProgramHeader, elfPheader_add hphoff]
        simp only [readMapPhdr, Reads.value_bind, Reads.value_pure, Reads.value_word]
        rfl
      have hrest := fun result words => ih (i + 1) result words (by
        intro j hj
        rw [show i + 1 + j = i + (j + 1) by omega]
        exact htype (j + 1) (by omega))
      simp only [readMapElfLoop, Reads.within_bind, Reads.within_ite, Reads.within_pure, elfPheader_add hphoff,
        hread, hvalue, phnum_within hsize hheader, true_and, hrest, processMapPhdr_eq, Nat.forall_lt_succ_left,
        Nat.not_lt_zero, false_implies, implies_true, true_implies, Nat.add_zero]
      by_cases hrej : phdrEnd file (elfProgramHeader mem file.elfMemory i) <
          phdrBase file (elfProgramHeader mem file.elfMemory i)
      · -- ここで止まるので、後のヘッダは読まれない。
        simp [hrej, EINVARG]
      · simp only [hrej, if_false, Int.lt_irrefl, not_false_eq_true, true_and, Nat.add_assoc, Nat.add_comm 1]

theorem readMapElf_within (hfile : file.elfMemory = memory) (hheader : 46 ≤ size.toNat)
    (hphoff : (ElfHeader.at mem memory).ePhoff ≠ 0)
    (htype : ∀ j < (ElfHeader.at mem memory).ePhnum.toNat, (phdrOffset mem memory (0 + j)).toNat +
      (if (elfProgramHeader mem memory (0 + j)).pType = PT_LOAD then 20 else 4) ≤ size.toNat) :
    (readMapElf words dir file).Within mem (InFile memory size) ↔
      ∀ i < (ElfHeader.at mem memory).ePhnum.toNat, PhdrReached mem memory i →
        (phdrOffset mem memory i).toNat + 28 ≤ size.toNat := by
  subst hfile
  have h28 : (28 : Word).toNat = 28 := rfl
  have h44 : (44 : Word).toNat = 44 := rfl
  have hphnum : mem.half (file.elfMemory + 44) = (ElfHeader.at mem file.elfMemory).ePhnum := rfl
  simp only [readMapElf, readPheader, Reads.within_bind, Reads.within_pure, Reads.value_half, word_within hsize,
    half_within hsize, h28, h44, and_true, hphnum]
  rw [and_iff_right (by omega), and_iff_right hheader]
  refine (readMapElfLoop_within hsize hheader hphoff _ 0 0 words ?_).trans ?_
  · intro j hj
    have := htype j hj
    split at this <;> omega
  · simp only [Nat.zero_add]
    rfl

end

/-! ## 条件 -/

theorem elfHeaderLength_accepted (h : elfValidateLoaded (ElfHeader.at mem memory) = 0) :
    elfHeaderLength mem memory = 46 ∧ (ElfHeader.at mem memory).ePhoff ≠ 0 := by
  rw [elfValidateLoaded] at h
  split at h
  · rename_i hall
    obtain ⟨hs, hc, he, hp⟩ := hall
    exact ⟨by simp [elfHeaderLength, hs, hc, he, hp], by simpa [elfHasProgramHeader] using hp⟩
  · exact absurd h (by decide)

theorem le_phdrLength (mem : Memory) (memory : Word) (i : Nat) :
    (if (elfProgramHeader mem memory i).pType = PT_LOAD then 20 else 4) ≤ phdrLength mem memory i := by
  rw [phdrLength]
  split <;> split <;> decide

/-- 退けたファイルでは、検査の読む部分だけが読まれる。 -/
theorem headerReadsInside_rejected (hrej : elfValidateLoaded (ElfHeader.at mem memory) = -EINVFMT) :
    HeaderReadsInside mem memory size ↔ (readValidateLoaded memory).Within mem (InFile memory size) := by
  have hneg : elfValidateLoaded (ElfHeader.at mem memory) < 0 := by
    rw [hrej]
    decide
  have hload : (readProcessLoaded { elfMemory := memory }).Within mem (InFile memory size) ↔
      (readValidateLoaded memory).Within mem (InFile memory size) := by
    simp only [readProcessLoaded, Reads.within_bind, Reads.within_pure, readValidateLoaded_value, hneg, if_true, and_true]
  rw [HeaderReadsInside, hload]
  refine and_iff_left fun file hfile => ?_
  rw [elfProcessLoaded, if_pos hneg] at hfile
  have hzero := congrArg Prod.fst hfile
  rw [hrej] at hzero
  exact absurd hzero (show (-EINVFMT : Int) ≠ 0 by decide)

/-- 受け入れたファイルでは、続けて二つの繰り返しがプログラムヘッダを読む。 -/
theorem headerReadsInside_accepted (hsize : size.toNat ≤ 2 ^ 32 - 2 ^ 24)
    (hacc : elfValidateLoaded (ElfHeader.at mem memory) = 0) :
    HeaderReadsInside mem memory size ↔ 46 ≤ size.toNat ∧ ∀ i < (ElfHeader.at mem memory).ePhnum.toNat,
      (phdrOffset mem memory i).toNat + phdrLength mem memory i ≤ size.toNat := by
  obtain ⟨hlen, hphoff⟩ := elfHeaderLength_accepted hacc
  have h44 : (44 : Word).toNat = 44 := rfl
  have hload : (readProcessLoaded { elfMemory := memory }).Within mem (InFile memory size) ↔
      (readValidateLoaded memory).Within mem (InFile memory size) ∧
        (readProcessPheaders { elfMemory := memory }).Within mem (InFile memory size) := by
    simp only [readProcessLoaded, Reads.within_bind, readValidateLoaded_value, hacc, Int.lt_irrefl, if_false]
  have haccept : elfProcessLoaded mem { elfMemory := memory } = (0, (elfProcessLoaded mem { elfMemory := memory }).2) :=
    Prod.ext ((elfProcessLoaded_result mem _).trans hacc) rfl
  have hmemory := elfProcessLoaded_memory mem { elfMemory := memory }
  rw [HeaderReadsInside, hload, readValidateLoaded_within hsize, if_pos hacc]
  simp only [readProcessPheaders, Reads.within_bind, Reads.value_half, half_within hsize, h44]
  constructor
  · rintro ⟨⟨-, hhalf, hloop⟩, hmap⟩
    have htype := (readProcessPheadersLoop_within hsize hhalf hphoff _ 0 0 _).1 hloop
    have hmapped := (readMapElf_within hsize hmemory hhalf hphoff htype).1 (hmap _ haccept (fun _ => 0) 0)
    refine ⟨hhalf, fun i hi => ?_⟩
    rw [phdrLength]
    split
    · rename_i hreach
      exact hmapped i hi hreach
    · exact Nat.zero_add i ▸ htype i hi
  · rintro ⟨hheader, hphdr⟩
    have htype : ∀ j < (ElfHeader.at mem memory).ePhnum.toNat, (phdrOffset mem memory (0 + j)).toNat +
        (if (elfProgramHeader mem memory (0 + j)).pType = PT_LOAD then 20 else 4) ≤ size.toNat := by
      intro j hj
      rw [Nat.zero_add]
      exact Nat.le_trans (Nat.add_le_add_left (le_phdrLength mem memory j) _) (hphdr j hj)
    refine ⟨⟨by omega, hheader, (readProcessPheadersLoop_within hsize hheader hphoff _ 0 0 _).2 htype⟩, ?_⟩
    intro file hfile words dir
    have hsame : file.elfMemory = memory := by
      rw [hfile] at hmemory
      exact hmemory
    refine (readMapElf_within hsize hsame hheader hphoff htype).2 fun i hi hreach => ?_
    have hall := hphdr i hi
    rwa [phdrLength, if_pos hreach] at hall

/-- ヘッダの読み取りがファイルの中に収まるのは、読まれる部分がどれもファイルの長さに収まるとき、そのときに限る。 -/
theorem headerReadsInside_iff (hbase : ENKI_HEAP_ADDRESS ≤ memory) (hfit : memory.toNat + size.toNat ≤ 2 ^ 32) :
    HeaderReadsInside mem memory size ↔ HeadersFit mem memory size := by
  have hsize : size.toNat ≤ 2 ^ 32 - 2 ^ 24 := by
    have hheap : ENKI_HEAP_ADDRESS.toNat = 2 ^ 24 := rfl
    rw [BitVec.le_def, hheap] at hbase
    omega
  rcases elfValidateLoaded_cases (ElfHeader.at mem memory) with hacc | hrej
  · obtain ⟨hlen, -⟩ := elfHeaderLength_accepted hacc
    rw [headerReadsInside_accepted hsize hacc]
    constructor
    · rintro ⟨hheader, hphdr⟩
      exact ⟨hlen ▸ hheader, fun _ => hphdr⟩
    · rintro ⟨hheader, hphdr⟩
      exact ⟨hlen ▸ hheader, hphdr hacc⟩
  · have hne : elfValidateLoaded (ElfHeader.at mem memory) ≠ 0 := by
      rw [hrej]
      decide
    rw [headerReadsInside_rejected hrej, readValidateLoaded_within hsize, if_neg hne]
    exact ⟨fun hlen => ⟨hlen, fun h0 => absurd h0 hne⟩, fun h => h.header⟩

/-- 読み取りがファイルの中に収まるなら、受け入れるかどうかも、求めた範囲も、ファイルのバイトだけで決まる。 -/
theorem HeaderReadsInside.congr {mem' : Memory} (h : HeaderReadsInside mem memory size)
    (hsame : ∀ x, InFile memory size x → mem' x = mem x) :
    elfProcessLoaded mem' { elfMemory := memory } = elfProcessLoaded mem { elfMemory := memory } := by
  rw [← readProcessLoaded_value, ← readProcessLoaded_value]
  exact Reads.value_congr _ fun x hx => hsame x (h.1 x hx)

/-- 88 バイトのファイルのヘッダは、すべて中にある。 -/
theorem headerReadsInside_image : HeaderReadsInside (imageMemory 84 0) 0x01000000 88 := by
  refine (headerReadsInside_iff (by decide) (by decide)).2 ⟨by decide, ?_⟩
  intro _ i hi
  have hphnum : (ElfHeader.at (imageMemory 84 0) 0x01000000).ePhnum.toNat = 1 := rfl
  obtain rfl : i = 0 := by omega
  decide

/-- プログラムヘッダの手前で終わる、52 バイトのファイル。 -/
def bareMemory : Memory := Memory.write (fun _ => 0) 0x01000000 ((elfImage 84 0).take 52)

/-- 52 バイトのファイルも受け入れられ、その次のバイトから、プログラムヘッダとして読まれる。 -/
theorem headerReadsInside_fails_bare :
    elfProcessLoaded bareMemory { elfMemory := 0x01000000 } = (0, { elfMemory := 0x01000000 }) ∧
    0x01000034 ∈ (readProcessLoaded { elfMemory := 0x01000000 }).trace bareMemory ∧
    ¬HeaderReadsInside bareMemory 0x01000000 52 := by
  have hread : 0x01000034 ∈ (readProcessLoaded { elfMemory := 0x01000000 }).trace bareMemory := by decide
  refine ⟨rfl, hread, fun hall => ?_⟩
  have hin := hall.1 _ hread
  rw [InFile] at hin
  exact absurd hin (by decide)

end EnkiOs
