import EnkiOs.Process.Pages
import Mathlib.Data.BitVec
import Mathlib.Tactic.Abel

/-!
# 読み込んだプログラムとカーネルのページ
-/

namespace EnkiOs
open Machine

variable {depth : Nat} {s s' : Kernel} {fileName : List Byte} {slot result : Int} {proc : Word}

/-! ## カーネルのページ -/

/-- プログラムの置き場所より下の、スタックのページのほかのページ。 -/
def KernelPage (virt : Word) : Prop :=
  PageAligned virt ∧ virt < ENKI_PGM_VIRT_ADDR ∧
    ¬(ENKI_PGM_VIRT_STACK_ADDR_END ≤ virt ∧ virt < ENKI_PGM_VIRT_STACK_ADDR_START)

/-- カーネルのページの項目が、`paging_new` の作ったもののままである。 -/
def KeepsKernelPages (s : Kernel) (proc : Word) : Prop :=
  ∀ virt, KernelPage virt →
    pagingGet s.words (s.words (s.tasks (s.procs proc).task).pageDir) virt = virt ||| readFlags

theorem stackMappings_virt {stack : Word} {m : Mapping} (hm : m ∈ stackMappings stack) :
    ENKI_PGM_VIRT_STACK_ADDR_END ≤ m.virt ∧ m.virt < ENKI_PGM_VIRT_STACK_ADDR_START := by
  obtain ⟨-, hlt, -, -⟩ := (mem_pageMappings_iff (by decide) (by decide)).1 hm
  have hend : ENKI_PGM_VIRT_STACK_ADDR_END.toNat = 0x3FB000 := rfl
  have hstart : ENKI_PGM_VIRT_STACK_ADDR_START.toNat = 0x3FF000 := rfl
  have := m.virt.isLt
  rw [BitVec.toNat_sub, hend] at hlt
  rw [BitVec.le_def, BitVec.lt_def, hend, hstart]
  omega

theorem phdrFlags_cases (phdr : Elf32Phdr) : phdrFlags phdr = readFlags ∨ phdrFlags phdr = userFlags := by
  simp only [phdrFlags]
  split
  · exact .inr rfl
  · exact .inl rfl

theorem elfMappings_flags {mem : Memory} {file : ElfFile} {m : Mapping} (hm : m ∈ elfMappings mem file) :
    m.flags.toNat < 4096 := by
  obtain ⟨j, -, -, hm⟩ := mem_elfMappingsFrom.1 hm
  simp only [phdrMappings, pageMappings, List.mem_map] at hm
  obtain ⟨q, -, rfl⟩ := hm
  rcases phdrFlags_cases (elfProgramHeader mem file.elfMemory (0 + j)) with h | h
  · simp only [h]
    decide
  · simp only [h]
    decide

/-- スタックのページのほかは、プログラムヘッダの最後の割り付けか、自分自身への割り付けである。 -/
theorem LoadedElf.get_eq {entries : Word} {table : Nat → Word} (hl : LoadedElf s proc entries table) {virt : Word}
    (hv : PageAligned virt)
    (hstack : ¬(ENKI_PGM_VIRT_STACK_ADDR_END ≤ virt ∧ virt < ENKI_PGM_VIRT_STACK_ADDR_START)) :
    pagingGet s.words (s.words (s.tasks (s.procs proc).task).pageDir) virt =
      match lastMapping (virt.toNat / 4096) (elfMappings s.mem (s.elfFiles (s.procs proc).addr)) with
      | some m => m.phys ||| m.flags
      | none => virt ||| readFlags := by
  have hlt := virt.isLt
  have hvirt : BitVec.ofNat 32 (4096 * (virt.toNat / 4096)) = virt := by
    apply BitVec.eq_of_toNat_eq
    simp only [PageAligned] at hv
    rw [BitVec.toNat_ofNat]
    omega
  have hnone : lastMapping (virt.toNat / 4096) (stackMappings (s.procs proc).stack) = none := by
    apply lastMapping_none
    intro m hm he
    have hal := (pageMappings_aligned (by decide) hl.stack_aligned hm).1
    have heq : m.virt = virt := by
      apply BitVec.eq_of_toNat_eq
      simp only [PageAligned] at hv hal
      omega
    exact hstack (heq ▸ stackMappings_virt hm)
  rw [hl.pageDir.dir_eq, hl.pageDir.get_eq hv, hl.entry _ (by omega), mappedEntry_eq, lastMapping_append, hnone,
    Option.none_or]
  cases lastMapping (virt.toNat / 4096) (elfMappings s.mem (s.elfFiles (s.procs proc).addr)) with
  | none => exact congrArg (· ||| readFlags) hvirt
  | some m => rfl

/-- 成功した読み込みがカーネルのページを変えないのは、どのカーネルのページも、プログラムヘッダの最後の割り付けが
自分自身への書き込めない割り付けであるとき、そのときに限る。 -/
theorem keepsKernelPages_iff (hk : KernelHeap s.heap)
    (h : processLoadSlot depth s fileName slot = .ok (result, proc, s')) (hresult : 0 ≤ result)
    (helf : (s'.procs proc).fileType = PROCESS_FILE_TYPE_ELF) :
    KeepsKernelPages s' proc ↔
      ∀ virt, KernelPage virt → ∀ m,
        lastMapping (virt.toNat / 4096) (elfMappings s'.mem (s'.elfFiles (s'.procs proc).addr)) = some m →
        m.phys = virt ∧ m.flags = readFlags := by
  obtain ⟨entries, table, hl⟩ := processLoadSlot_loaded hk h hresult helf
  have hread : readFlags.toNat < 4096 := by decide
  constructor
  · intro hkeep virt hpage m hlast
    have hentry := hkeep virt hpage
    rw [hl.get_eq hpage.1 hpage.2.2, hlast] at hentry
    have hm : m ∈ elfMappings s'.mem (s'.elfFiles (s'.procs proc).addr) :=
      List.mem_reverse.1 (List.mem_of_find?_eq_some hlast)
    exact ((elfMappings_aligned hm).2.or_inj hpage.1 (elfMappings_flags hm) hread).1 hentry
  · intro hcond virt hpage
    rw [hl.get_eq hpage.1 hpage.2.2]
    cases hlast : lastMapping (virt.toNat / 4096) (elfMappings s'.mem (s'.elfFiles (s'.procs proc).addr)) with
    | none => rfl
    | some m =>
        obtain ⟨hphys, hflags⟩ := hcond virt hpage m hlast
        simp only [hphys, hflags]

/-- `0x400000` に置かれるプログラムは、カーネルのページを変えない。 -/
theorem keepsKernelPages_above : ∃ (v : Volume) (s' : Kernel), v.disk = imageDisk (elfImage 84 0) ∧
    processLoadSlot 1 (Kernel.boot (stateWith v 0)) imageName 0 = .ok (0, blockAddr 0, s') ∧
    KeepsKernelPages s' (blockAddr 0) := by
  obtain ⟨v, hv⟩ : ∃ v : Volume, v.disk = imageDisk (elfImage 84 0) := smallDisk_resolved (imageDisk_root _)
  obtain ⟨s, hmem, htype, hfile, -, hload⟩ := boot_load hv rfl
    (show elfProcessLoaded (bootImage (elfImage 84 0)) { elfMemory := blockAddr 11 } = (0, _) from rfl) 1
    (fun words dir => show (processMapElf _ words dir _).1 = 0 from rfl)
  rw [if_neg (by decide)] at hload
  refine ⟨v, _, hv, hload, (keepsKernelPages_iff (bootHeap_packed.toKernelHeap) hload (Int.le_refl 0) htype).2 ?_⟩
  have hmaps : elfMappings s.mem (s.elfFiles (s.procs (blockAddr 0)).addr) = [⟨0x400000, blockAddr 11, userFlags⟩] := by
    rw [hmem, hfile]
    rfl
  intro virt hpage m hlast
  simp only [hmaps] at hlast
  have hm : m = ⟨0x400000, blockAddr 11, userFlags⟩ := by
    simpa using List.mem_reverse.1 (List.mem_of_find?_eq_some hlast)
  have hvirt : m.virt.toNat / 4096 = virt.toNat / 4096 := by simpa using List.find?_some hlast
  have hlow : virt.toNat < 0x400000 := hpage.2.1
  rw [hm, show (0x400000 : Word).toNat = 0x400000 from rfl] at hvirt
  omega

/-- カーネルのある `0x100000` に置かれる、88 バイトの ELF ファイル。 -/
def lowImage : List Byte := (elfImage 84 0).take 60 ++ wordBytes 0x100000 ++ (elfImage 84 0).drop 64

/-- `p_vaddr` が `0x100000` のファイルも読み込まれ、カーネルのあるページが、ファイルの本体へ書き込めるように割り付けられる。 -/
theorem keepsKernelPages_fails_low : ∃ (v : Volume) (s' : Kernel), v.disk = imageDisk lowImage ∧
    processLoadSlot 1 (Kernel.boot (stateWith v 0)) imageName 0 = .ok (0, blockAddr 0, s') ∧
    (s'.procs (blockAddr 0)).fileType = PROCESS_FILE_TYPE_ELF ∧ KernelPage 0x100000 ∧
    pagingGet s'.words (s'.words (s'.tasks (s'.procs (blockAddr 0)).task).pageDir) 0x100000 = blockAddr 11 ||| userFlags ∧
    ¬ KeepsKernelPages s' (blockAddr 0) := by
  obtain ⟨v, hv⟩ : ∃ v : Volume, v.disk = imageDisk lowImage := smallDisk_resolved (imageDisk_root _)
  obtain ⟨s, hmem, htype, hfile, -, hload⟩ := boot_load hv rfl
    (show elfProcessLoaded (bootImage lowImage) { elfMemory := blockAddr 11 } = (0, _) from rfl) 1
    (fun words dir => show (processMapElf _ words dir _).1 = 0 from rfl)
  rw [if_neg (by decide)] at hload
  have hmaps : elfMappings s.mem (s.elfFiles (s.procs (blockAddr 0)).addr) = [⟨0x100000, blockAddr 11, userFlags⟩] := by
    rw [hmem, hfile]
    rfl
  have hpage : KernelPage 0x100000 := ⟨by decide, by decide, by decide⟩
  obtain ⟨entries, table, hl⟩ := processLoadSlot_loaded (bootHeap_packed.toKernelHeap) hload (Int.le_refl 0) htype
  have hget := hl.get_eq hpage.1 hpage.2.2
  simp only [hmaps] at hget
  refine ⟨v, _, hv, hload, htype, hpage, hget, ?_⟩
  intro hkeep
  have hkept := hkeep _ hpage
  rw [hget] at hkept
  exact absurd hkept (by decide)

/-! ## ゼロで始まるデータ -/

/-- プロセスの仮想アドレスの指す物理アドレス。 -/
def processPhysAddr (s : Kernel) (proc a : Word) : Word :=
  pagingGetPhysAddr s.words (s.words (s.tasks (s.procs proc).task).pageDir) a

/-- スタックのページの中のアドレスである。 -/
def InStack (a : Word) : Prop := ENKI_PGM_VIRT_STACK_ADDR_END ≤ a ∧ a < ENKI_PGM_VIRT_STACK_ADDR_START

instance (a : Word) : Decidable (InStack a) := inferInstanceAs (Decidable (_ ∧ _))

/-- ヘッダの `k` バイト目のあるべき物理アドレス。ヘッダの割り付けの届かないページは、自分自身を指す。 -/
def phdrBacking (file : ElfFile) (phdr : Elf32Phdr) (k : Nat) : Word :=
  let a := phdr.pVaddr + BitVec.ofNat 32 k
  if (pagingAlignToLower a - pagingAlignToLower phdr.pVaddr).toNat < 4096 * phdrPages file phdr then
    file.elfMemory + phdr.pOffset + BitVec.ofNat 32 k
  else a

theorem inStack_alignToLower {a : Word} : InStack (pagingAlignToLower a) ↔ InStack a := by
  have hend : ENKI_PGM_VIRT_STACK_ADDR_END.toNat = 0x3FB000 := rfl
  have hstart : ENKI_PGM_VIRT_STACK_ADDR_START.toNat = 0x3FF000 := rfl
  simp only [InStack, BitVec.le_def, BitVec.lt_def, pagingAlignToLower_toNat, hend, hstart]
  omega

theorem add_sub_shift (p e x a : Word) : p + (x - e) + (a - x) = p + (a - e) := by
  abel

/-- `p_vaddr` と `p_offset` のページの中の位置が同じなら、ページごとの割り付けはバイトごとの対応になる。 -/
theorem alignToLower_shift {e o v k : Word} (he : PageAligned e) (hc : v.toNat % 4096 = o.toNat % 4096) :
    pagingAlignToLower (e + o) + (pagingAlignToLower (v + k) - pagingAlignToLower v) +
      (v + k - pagingAlignToLower (v + k)) = e + o + k := by
  have hr : (e + o) % PAGING_PAGE_SIZE = v % PAGING_PAGE_SIZE := by
    have hpage : PAGING_PAGE_SIZE.toNat = 4096 := rfl
    apply BitVec.eq_of_toNat_eq
    simp only [PageAligned] at he
    rw [BitVec.toNat_umod, BitVec.toNat_umod, BitVec.toNat_add, hpage]
    omega
  simp only [pagingAlignToLower, hr]
  abel

section

variable {entries : Word} {table : Nat → Word} (hl : LoadedElf s proc entries table)
include hl

theorem LoadedElf.physAddr_stack {a : Word} (ha : InStack a) :
    processPhysAddr s proc a = (s.procs proc).stack + (a - ENKI_PGM_VIRT_STACK_ADDR_END) := by
  have hal := pageAligned_alignToLower a
  have hlow := inStack_alignToLower.2 ha
  have hend : ENKI_PGM_VIRT_STACK_ADDR_END.toNat = 0x3FB000 := rfl
  have hstart : ENKI_PGM_VIRT_STACK_ADDR_START.toNat = 0x3FF000 := rfl
  obtain ⟨x, hx⟩ : ∃ x, x = pagingAlignToLower a := ⟨_, rfl⟩
  rw [← hx] at hal hlow
  have hlt := x.isLt
  have hm : (⟨x, (s.procs proc).stack + (x - ENKI_PGM_VIRT_STACK_ADDR_END), userFlags⟩ : Mapping) ∈
      stackMappings (s.procs proc).stack := by
    refine (mem_pageMappings_iff (by decide) (by decide)).2 ⟨hal, ?_, rfl, rfl⟩
    simp only [InStack, BitVec.le_def, BitVec.lt_def, hend, hstart] at hlow
    show (x - ENKI_PGM_VIRT_STACK_ADDR_END).toNat < 4096 * 4
    rw [BitVec.toNat_sub, hend]
    omega
  have hlast : lastMapping (x.toNat / 4096) (stackMappings (s.procs proc).stack) =
      some ⟨x, (s.procs proc).stack + (x - ENKI_PGM_VIRT_STACK_ADDR_END), userFlags⟩ := by
    refine lastMapping_unique hm rfl ?_
    intro m' hm' he
    obtain ⟨hal', -, hphys, hflags⟩ := (mem_pageMappings_iff (by decide) (by decide)).1 hm'
    have heq : m'.virt = x := by
      apply BitVec.eq_of_toNat_eq
      simp only [PageAligned] at hal hal'
      omega
    obtain ⟨virt, phys, flags⟩ := m'
    simp only at heq hphys hflags
    rw [hphys, hflags, heq]
  have hphys := (pageMappings_aligned (by decide) hl.stack_aligned hm).2
  rw [processPhysAddr, pagingGetPhysAddr]
  simp only [← hx]
  rw [hl.pageDir.dir_eq, hl.pageDir.get_eq hal, hl.entry _ (by omega), mappedEntry_eq, lastMapping_append, hlast]
  simp only [Option.some_or]
  rw [hphys.and_mask (by decide)]
  exact add_sub_shift _ _ _ _

/-- ほかのヘッダと重ならないページは、ファイルの本体の対応する位置か、自分自身を指す。 -/
theorem LoadedElf.physAddr_phdr {i k : Nat} {phdr : Elf32Phdr}
    (hi : i < (ElfHeader.at s.mem (s.elfFiles (s.procs proc).addr).elfMemory).ePhnum.toNat)
    (hphdr : elfProgramHeader s.mem (s.elfFiles (s.procs proc).addr).elfMemory i = phdr)
    (hcongr : phdr.pVaddr.toNat % 4096 = phdr.pOffset.toNat % 4096)
    (hother : ∀ j < (ElfHeader.at s.mem (s.elfFiles (s.procs proc).addr).elfMemory).ePhnum.toNat, j ≠ i →
      ∀ m ∈ phdrMappings (s.elfFiles (s.procs proc).addr)
        (elfProgramHeader s.mem (s.elfFiles (s.procs proc).addr).elfMemory j),
      m.virt ≠ pagingAlignToLower (phdr.pVaddr + BitVec.ofNat 32 k))
    (hstack : ¬InStack (phdr.pVaddr + BitVec.ofNat 32 k)) :
    processPhysAddr s proc (phdr.pVaddr + BitVec.ofNat 32 k) =
      phdrBacking (s.elfFiles (s.procs proc).addr) phdr k := by
  have halm := hl.memory_aligned
  have hreached := hl.reached
  have hget := hl.get_eq (pageAligned_alignToLower (phdr.pVaddr + BitVec.ofNat 32 k))
    (fun h => hstack (inStack_alignToLower.1 h))
  generalize s.elfFiles (s.procs proc).addr = file at *
  obtain ⟨a, ha⟩ : ∃ a, a = phdr.pVaddr + BitVec.ofNat 32 k := ⟨_, rfl⟩
  rw [← ha] at hother hget ⊢
  have hal := pageAligned_alignToLower a
  have hbase := pageAligned_alignToLower phdr.pVaddr
  have hpages : phdrPages file phdr ≤ 2 ^ 20 := by
    rw [phdrPages, pageCount_eq (BitVec.not_lt.1 (hphdr ▸ hreached i hi))]
    have := (phdrEnd file phdr).isLt
    split <;> omega
  -- このページの割り付けは、このヘッダのものに限る。
  have hmem : ∀ m ∈ elfMappings s.mem file, m.virt.toNat / 4096 = (pagingAlignToLower a).toNat / 4096 →
      m ∈ phdrMappings file phdr ∧ m.virt = pagingAlignToLower a := by
    intro m hm he
    obtain ⟨j, hj, -, hm'⟩ := mem_elfMappingsFrom.1 hm
    rw [Nat.zero_add] at hm'
    have heq : m.virt = pagingAlignToLower a := by
      have halm' := (elfMappings_aligned hm).1
      apply BitVec.eq_of_toNat_eq
      simp only [PageAligned] at hal halm'
      omega
    by_cases hji : j = i
    · subst hji
      exact ⟨hphdr ▸ hm', heq⟩
    · exact absurd heq (hother j hj hji m hm')
  rw [processPhysAddr, pagingGetPhysAddr, phdrBacking]
  simp only [← ha]
  rw [hget]
  split
  · rename_i m hlast
    have hm : m ∈ elfMappings s.mem file := List.mem_reverse.1 (List.mem_of_find?_eq_some hlast)
    obtain ⟨hm', hvirt⟩ := hmem m hm (by simpa using List.find?_some hlast)
    obtain ⟨-, hlt, hphys, -⟩ := (mem_pageMappings_iff hbase hpages).1 hm'
    rw [hvirt] at hlt hphys
    rw [if_pos hlt, (elfMappings_aligned hm).2.and_mask (elfMappings_flags hm), hphys]
    rw [ha]
    exact alignToLower_shift halm hcongr
  · rename_i hlast
    rw [if_neg, hal.and_mask (by decide)]
    · abel
    · intro hlt
      have hm : (⟨pagingAlignToLower a, phdrBase file phdr + (pagingAlignToLower a - pagingAlignToLower phdr.pVaddr),
          phdrFlags phdr⟩ : Mapping) ∈ elfMappings s.mem file := by
        refine mem_elfMappingsFrom.2 ⟨i, hi, ?_, ?_⟩
        · intro l hl'
          rw [Nat.zero_add]
          exact hreached l (by omega)
        · rw [Nat.zero_add, hphdr]
          exact (mem_pageMappings_iff hbase hpages).2 ⟨hal, hlt, rfl, rfl⟩
      have hnone := List.find?_eq_none.1 hlast _ (List.mem_reverse.2 hm)
      simp at hnone

end

/-- `p_filesz` から `p_memsz` までのバイトが、プロセスからはどれもゼロに見える。`bytes` は物理メモリの内容である。 -/
def StartsZero (s : Kernel) (proc : Word) (phdr : Elf32Phdr) (bytes : Memory) : Prop :=
  ∀ k, phdr.pFilesz.toNat ≤ k → k < phdr.pMemsz.toNat →
    bytes (processPhysAddr s proc (phdr.pVaddr + BitVec.ofNat 32 k)) = 0

/-- ほかのヘッダとページの重ならないヘッダの、ファイルに無い部分がゼロで始まるのは、スタックのページを除いて、対応する
ファイルのバイトと、ファイルの後ろに続くメモリが、もともとゼロのとき、そのときに限る。読み込みはこの部分を消さない。 -/
theorem startsZero_iff (hk : KernelHeap s.heap)
    (h : processLoadSlot depth s fileName slot = .ok (result, proc, s')) (hresult : 0 ≤ result)
    (helf : (s'.procs proc).fileType = PROCESS_FILE_TYPE_ELF) {file : ElfFile}
    (hfile : s'.elfFiles (s'.procs proc).addr = file) {i : Nat}
    (hi : i < (ElfHeader.at s'.mem file.elfMemory).ePhnum.toNat) {phdr : Elf32Phdr}
    (hphdr : elfProgramHeader s'.mem file.elfMemory i = phdr)
    (hcongr : phdr.pVaddr.toNat % 4096 = phdr.pOffset.toNat % 4096)
    (hother : ∀ j < (ElfHeader.at s'.mem file.elfMemory).ePhnum.toNat, j ≠ i →
      ∀ m ∈ phdrMappings file (elfProgramHeader s'.mem file.elfMemory j), ∀ k < phdr.pMemsz.toNat,
        m.virt ≠ pagingAlignToLower (phdr.pVaddr + BitVec.ofNat 32 k))
    {bytes : Memory} {size : Nat} (himage : ∀ x, (x - file.elfMemory).toNat < size → bytes x = s'.mem x)
    (hstack : ∀ x, (x - (s'.procs proc).stack).toNat < ENKI_USER_PGM_STACK_SIZE → bytes x = s'.mem x) :
    StartsZero s' proc phdr bytes ↔
      ∀ k, phdr.pFilesz.toNat ≤ k → k < phdr.pMemsz.toNat → ¬InStack (phdr.pVaddr + BitVec.ofNat 32 k) →
        (if (phdrBacking file phdr k - file.elfMemory).toNat < size then s'.mem (phdrBacking file phdr k)
          else bytes (phdrBacking file phdr k)) = 0 := by
  obtain ⟨entries, table, hl⟩ := processLoadSlot_loaded hk h hresult helf
  subst hfile
  have hbyte : ∀ x, (if (x - (s'.elfFiles (s'.procs proc).addr).elfMemory).toNat < size then s'.mem x else bytes x) =
      bytes x := by
    intro x
    split
    · exact (himage x ‹_›).symm
    · rfl
  have hphys : ∀ k < phdr.pMemsz.toNat, ¬InStack (phdr.pVaddr + BitVec.ofNat 32 k) →
      processPhysAddr s' proc (phdr.pVaddr + BitVec.ofNat 32 k) =
        phdrBacking (s'.elfFiles (s'.procs proc).addr) phdr k := fun k hlt hout =>
    hl.physAddr_phdr hi hphdr hcongr (fun j hj hne m hm => hother j hj hne m hm k hlt) hout
  constructor
  · intro hzero k hle hlt hout
    rw [hbyte, ← hphys k hlt hout]
    exact hzero k hle hlt
  · intro hcond k hle hlt
    by_cases hin : InStack (phdr.pVaddr + BitVec.ofNat 32 k)
    · have hend : ENKI_PGM_VIRT_STACK_ADDR_END.toNat = 0x3FB000 := rfl
      have hstart : ENKI_PGM_VIRT_STACK_ADDR_START.toNat = 0x3FF000 := rfl
      have hoff : ((s'.procs proc).stack + (phdr.pVaddr + BitVec.ofNat 32 k - ENKI_PGM_VIRT_STACK_ADDR_END) -
          (s'.procs proc).stack).toNat < ENKI_USER_PGM_STACK_SIZE := by
        simp only [InStack, BitVec.le_def, BitVec.lt_def, hend, hstart] at hin
        rw [BitVec.add_comm, BitVec.add_sub_cancel, BitVec.toNat_sub, hend]
        simp only [ENKI_USER_PGM_STACK_SIZE]
        omega
      rw [hl.physAddr_stack hin, hstack _ hoff]
      exact hl.stack_zero _ hoff
    · rw [hphys k hlt hin, ← hbyte]
      exact hcond k hle hlt hin

/-- 小さな ELF ファイルの、ただ一つのプログラムヘッダ。 -/
def imagePhdr (memsz : Word) : Elf32Phdr := ⟨PT_LOAD, 0, 0x400000, 84, memsz, 7⟩

/-- `elfImage 88 pad` の読み込みに成功した状態。 -/
theorem padded_load (pad : Byte) {file : ElfFile}
    (haccept : elfProcessLoaded (bootImage (elfImage 88 pad)) { elfMemory := blockAddr 11 } = (0, file))
    (hmap : ∀ words dir, (processMapElf (bootImage (elfImage 88 pad)) words dir file).1 = 0)
    (hphnum : (ElfHeader.at (bootImage (elfImage 88 pad)) (blockAddr 11)).ePhnum.toNat = 1)
    (hphdr : elfProgramHeader (bootImage (elfImage 88 pad)) (blockAddr 11) 0 = imagePhdr 88) :
    ∃ (v : Volume) (s' : Kernel), v.disk = imageDisk (elfImage 88 pad) ∧
      processLoadSlot 1 (Kernel.boot (stateWith v 0)) imageName 0 = .ok (0, blockAddr 0, s') ∧
      (s'.procs (blockAddr 0)).fileType = PROCESS_FILE_TYPE_ELF ∧ s'.mem = bootImage (elfImage 88 pad) ∧
      s'.elfFiles (s'.procs (blockAddr 0)).addr = file ∧
      (ElfHeader.at s'.mem file.elfMemory).ePhnum.toNat = 1 ∧
      elfProgramHeader s'.mem file.elfMemory 0 = imagePhdr 88 := by
  obtain ⟨v, hv⟩ : ∃ v : Volume, v.disk = imageDisk (elfImage 88 pad) := smallDisk_resolved (imageDisk_root _)
  have hmemory : file.elfMemory = blockAddr 11 := by
    have h := elfProcessLoaded_memory (bootImage (elfImage 88 pad)) { elfMemory := blockAddr 11 }
    rwa [haccept] at h
  obtain ⟨s, hmem, htype, hfile, -, hload⟩ := boot_load hv rfl haccept 1 hmap
  rw [if_neg (by decide)] at hload
  refine ⟨v, _, hv, hload, htype, hmem, hfile, ?_, ?_⟩
  · rw [hmemory]
    exact hmem ▸ hphnum
  · rw [hmemory]
    exact hmem ▸ hphdr

/-- ファイルの後ろの四バイトがゼロなら、`.bss` はゼロで始まる。 -/
theorem startsZero_padded : ∃ (v : Volume) (s' : Kernel), v.disk = imageDisk (elfImage 88 0) ∧
    processLoadSlot 1 (Kernel.boot (stateWith v 0)) imageName 0 = .ok (0, blockAddr 0, s') ∧
    StartsZero s' (blockAddr 0) (imagePhdr 88) s'.mem := by
  obtain ⟨v, s', hv, hload, htype, hmem, hfile, hphnum, hphdr⟩ := padded_load 0 rfl (fun _ _ => rfl) rfl rfl
  refine ⟨v, s', hv, hload, (startsZero_iff bootHeap_packed.toKernelHeap hload (Int.le_refl 0) htype hfile
    (by rw [hphnum]; decide) hphdr (by decide) ?_ (fun x (_ : (x - _).toNat < 88) => rfl) (fun _ _ => rfl)).2 ?_⟩
  · intro j hj hne
    rw [hphnum] at hj
    omega
  · intro k hle hlt _
    rw [ite_self, hmem]
    have hk : k = 84 ∨ k = 85 ∨ k = 86 ∨ k = 87 := by
      have h84 : (imagePhdr 88).pFilesz.toNat = 84 := rfl
      have h88 : (imagePhdr 88).pMemsz.toNat = 88 := rfl
      omega
    rcases hk with rfl | rfl | rfl | rfl <;> rfl

/-- ファイルの後ろの四バイトが `0x41` なら、`.bss` の先頭は `0x41` に見える。 -/
theorem startsZero_fails_trailing : ∃ (v : Volume) (s' : Kernel), v.disk = imageDisk (elfImage 88 0x41) ∧
    processLoadSlot 1 (Kernel.boot (stateWith v 0)) imageName 0 = .ok (0, blockAddr 0, s') ∧
    (s'.procs (blockAddr 0)).fileType = PROCESS_FILE_TYPE_ELF ∧
    elfProgramHeader s'.mem (s'.elfFiles (s'.procs (blockAddr 0)).addr).elfMemory 0 = imagePhdr 88 ∧
    (ElfHeader.at s'.mem (s'.elfFiles (s'.procs (blockAddr 0)).addr).elfMemory).ePhnum.toNat = 1 ∧
    s'.mem (processPhysAddr s' (blockAddr 0) 0x400054) = 0x41 ∧
    ¬ StartsZero s' (blockAddr 0) (imagePhdr 88) s'.mem := by
  obtain ⟨v, s', hv, hload, htype, hmem, hfile, hphnum, hphdr⟩ := padded_load 0x41 rfl (fun _ _ => rfl) rfl rfl
  rw [← hfile] at hphnum hphdr
  obtain ⟨entries, table, hl⟩ := processLoadSlot_loaded bootHeap_packed.toKernelHeap hload (Int.le_refl 0) htype
  have hphys := hl.physAddr_phdr (k := 84) (by rw [hphnum]; decide) hphdr (by decide)
    (by
      intro j hj hne
      rw [hphnum] at hj
      omega)
    (by decide)
  have hbyte : s'.mem (processPhysAddr s' (blockAddr 0) 0x400054) = 0x41 := by
    rw [show (0x400054 : Word) = (imagePhdr 88).pVaddr + BitVec.ofNat 32 84 from rfl, hphys, hfile, hmem]
    rfl
  refine ⟨v, s', hv, hload, htype, hphdr, hphnum, hbyte, ?_⟩
  intro hzero
  have h84 := hzero 84 (by decide) (by decide)
  rw [show (imagePhdr 88).pVaddr + BitVec.ofNat 32 84 = 0x400054 from rfl, hbyte] at h84
  exact absurd h84 (by decide)

end EnkiOs
