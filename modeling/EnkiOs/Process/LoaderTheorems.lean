import EnkiOs.Fs.Kept
import EnkiOs.Fs.Life
import EnkiOs.Process.Packed

/-!
# 読み込みの後の記述子

`elf_load` も `process_load_bin` も、エラーを返すときは記述子を閉じるが、成功したときは閉じない。
-/

namespace EnkiOs
open Machine

variable {s s' : Kernel} {fileName : List Byte} {result : Int} {proc elfFile : Word}

/-! ## 読み込めるファイル -/

/-- `elf_load` が `fopen` を呼ぶときの状態。 -/
def elfOpening (s : Kernel) : Kernel :=
  (s.setHeap (kzalloc s.heap ELF_FILE_SIZE).2).setElfFile (kzalloc s.heap ELF_FILE_SIZE).1 {}

/-- 開いたファイルが読めて、内容が ELF として正しい。 -/
def ElfReadable (s : Kernel) (fd : Int) : Prop :=
  ∃ stat result fs, fstat s.toFileState fd = .ok (.ok stat) ∧
    fread (kzallocBytes s stat.fileSize).2.toFileState (kzallocBytes s stat.fileSize).1 stat.fileSize 1 fd = .ok (result, fs) ∧
    0 ≤ result ∧ elfValidateLoaded (ElfHeader.at fs.mem (kzallocBytes s stat.fileSize).1) = 0

/-- 開いたファイルの全体が読める。 -/
def BinReadable (s : Kernel) (fd : Int) : Prop :=
  ∃ stat fs, fstat s.toFileState fd = .ok (.ok stat) ∧ (kzallocBytes s stat.fileSize).1 ≠ 0 ∧
    fread (kzallocBytes s stat.fileSize).2.toFileState (kzallocBytes s stat.fileSize).1 stat.fileSize 1 fd = .ok (1, fs)

/-- `fopen` が何も開かないか、開いた番号が最後の番号ではなくて、そのファイルが読み込めない。 -/
def LoadsNothing (readable : Kernel → Int → Prop) (s : Kernel) (fileName : List Byte) : Prop :=
  ¬NamesFile s.toFileState fileName ∨ FilesFull s.toFileState ∨
    (¬OnlyLastFree s.toFileState ∧ ∀ fd fs, fopen s.toFileState fileName modeRead = .ok (fd, fs) →
      ¬readable { s with toFileState := fs } fd)

/-! ## 読み込みの場合分け -/

/-- 表に関わる変化は、`fopen` と `fclose` のほかには無い。 -/
def SameTable (fs fs' : FileState) : Prop := fs'.fileDescriptors = fs.fileDescriptors ∧ fs'.files = fs.files

theorem kzallocBytes_table (s : Kernel) (size : Word) : SameTable s.toFileState (kzallocBytes s size).2.toFileState := by
  simp only [kzallocBytes]
  split
  · exact ⟨rfl, rfl⟩
  · exact ⟨rfl, rfl⟩

theorem fread_table {fs fs' fs₁ : FileState} {buf size blocks : Word} {fd : Int} (htable : SameTable fs fs')
    (h : fread fs' buf size blocks fd = .ok (result, fs₁)) : SameTable fs fs₁ := by
  obtain ⟨mem, rfl⟩ := fread_heap h
  exact htable

/-- 開いた後の読み込みは、ファイルを閉じてエラーを返すか、閉じずに成功する。 -/
theorem elfLoad_cases (h : elfLoad s fileName = .ok (result, elfFile, s')) :
    ∃ fd fs, fopen (elfOpening s).toFileState fileName modeRead = .ok (fd, fs) ∧
      ((fd ≤ 0 ∧ result < 0 ∧ s'.toFileState = fs) ∨
        (0 < fd ∧ result < 0 ∧ ¬ElfReadable { elfOpening s with toFileState := fs } fd ∧
          ∃ fs₁, SameTable fs fs₁ ∧ s'.toFileState = (fclose fs₁ fd).2) ∨
        (0 < fd ∧ 0 ≤ result ∧ ElfReadable { elfOpening s with toFileState := fs } fd ∧ SameTable fs s'.toFileState)) := by
  obtain ⟨p, heap, fd, fs, hmade, hopen, hopened⟩ := elfLoad_path h
  have hs : elfOpening s = (s.setHeap heap).setElfFile p {} := by
    rw [elfOpening, hmade]
  rw [← hs] at hopen hopened
  refine ⟨fd, fs, hopen, ?_⟩
  cases hopened with
  | unopened hle => exact .inl ⟨hle, by decide, rfl⟩
  | unknown hpos hstat =>
      refine .inr (.inl ⟨hpos, fstat_error_neg hstat, ?_, fs, ⟨rfl, rfl⟩, rfl⟩)
      rintro ⟨stat, -, -, hstat', -⟩
      cases hstat.symm.trans hstat'
  | @known stat memory s₁ code fs₁ _ _ _ hpos hstat hp hk hread hend =>
      have htable := kzallocBytes_table { elfOpening s with toFileState := fs } stat.fileSize
      rw [hk] at htable
      have htable₁ : SameTable fs fs₁ := fread_table htable hread
      have hneg := elfProcessLoaded_neg_iff fs₁.mem (elfReadFile { s₁ with toFileState := fs₁ } p memory)
      -- 読めるための条件は、読み取りの結果と、ヘッダの検査で決まる。
      have hreadable : ElfReadable { elfOpening s with toFileState := fs } fd ↔
          0 ≤ code ∧ elfValidateLoaded (ElfHeader.at fs₁.mem memory) = 0 := by
        constructor
        · rintro ⟨stat', code', fs', hstat', hread', hge, hvalid⟩
          cases hstat.symm.trans hstat'
          rw [hk] at hread' hvalid
          cases hread.symm.trans hread'
          exact ⟨hge, hvalid⟩
        · rintro ⟨hge, hvalid⟩
          refine ⟨stat, code, fs₁, hstat, ?_, hge, ?_⟩
          · rw [hk]
            exact hread
          · rw [hk]
            exact hvalid
      right
      rw [hreadable]
      cases hend with
      | unread hcode => exact .inl ⟨hpos, hcode, fun hok => absurd hok.1 (Int.not_le.2 hcode), fs₁, htable₁, rfl⟩
      | refused hcode _ hlt => exact .inl ⟨hpos, hlt, fun hok => hneg.1 hlt hok.2, fs₁, htable₁, rfl⟩
      | loaded hcode _ hge =>
          exact .inr ⟨hpos, hge, ⟨hcode, not_not.1 (mt hneg.2 (Int.not_lt.2 hge))⟩, htable₁⟩

theorem processLoadBin_cases (h : processLoadBin s fileName proc = .ok (result, s')) :
    ∃ fd fs, fopen s.toFileState fileName modeRead = .ok (fd, fs) ∧
      ((fd ≤ 0 ∧ SameTable fs s'.toFileState) ∨
        (0 < fd ∧ ¬BinReadable { s with toFileState := fs } fd ∧
          ∃ fs₁, SameTable fs fs₁ ∧ s'.toFileState = (fclose fs₁ fd).2) ∨
        (0 < fd ∧ BinReadable { s with toFileState := fs } fd ∧ SameTable fs s'.toFileState)) := by
  obtain ⟨fd, fs, hopen, hopened⟩ := processLoadBin_path h
  refine ⟨fd, fs, hopen, ?_⟩
  by_cases hpos : 0 < fd
  · right
    cases hopened with
    | unopened h0 => omega
    | unknown _ hstat =>
        refine .inl ⟨hpos, ?_, fs, ⟨rfl, rfl⟩, rfl⟩
        rintro ⟨stat, -, hstat', -⟩
        cases hstat.symm.trans hstat'
    | @unallocated stat s₁ _ hstat hk =>
        have htable := kzallocBytes_table { s with toFileState := fs } stat.fileSize
        rw [hk] at htable
        refine .inl ⟨hpos, ?_, s₁.toFileState, htable, rfl⟩
        rintro ⟨stat', fs', hstat', hne, -⟩
        cases hstat.symm.trans hstat'
        rw [hk] at hne
        exact hne rfl
    | @unread stat data s₁ code fs₁ _ hstat hk _ hread hcode =>
        have htable := kzallocBytes_table { s with toFileState := fs } stat.fileSize
        rw [hk] at htable
        have htable₁ : SameTable fs fs₁ := fread_table htable hread
        refine .inl ⟨hpos, ?_, { fs₁ with heap := kfree fs₁.heap data }, htable₁, rfl⟩
        rintro ⟨stat', fs', hstat', -, hread'⟩
        cases hstat.symm.trans hstat'
        rw [hk] at hread'
        cases hread.symm.trans hread'
        exact hcode rfl
    | @loaded stat data s₁ fs₁ _ hstat hk hdata hread =>
        have htable := kzallocBytes_table { s with toFileState := fs } stat.fileSize
        rw [hk] at htable
        refine .inr ⟨hpos, ⟨stat, fs₁, hstat, ?_, ?_⟩, fread_table htable hread⟩
        · rw [hk]
          exact hdata
        · rw [hk]
          exact hread
  · -- 負の番号では、`fstat` がエラーを返し、`fclose` は何もしない。
    have hle : fd ≤ 0 := Int.not_lt.1 hpos
    have hzero : fileGetDescriptor fs fd = 0 := if_pos (.inl hle)
    have hunknown : ∀ {stat : FileStat}, fstat fs fd ≠ .ok (.ok stat) := by
      intro stat hstat
      simp only [fstat, hzero, if_true] at hstat
      cases hstat
    refine .inl ⟨hle, ?_⟩
    cases hopened with
    | unopened => exact ⟨rfl, rfl⟩
    | unknown =>
        simp only [fclose, hzero, if_true]
        exact ⟨rfl, rfl⟩
    | unallocated _ hstat => exact absurd hstat hunknown
    | unread _ hstat => exact absurd hstat hunknown
    | loaded _ hstat => exact absurd hstat hunknown

/-! ## 記述子の返却 -/

/-- 開いた後の三つの場合から、開いている番号の集まりが変わらない条件が決まる。 -/
theorem sameOpen_iff_of_cases {readable : Kernel → Int → Prop} {s₀ : Kernel} {fd : Int} {fs fs' : FileState}
    (hopen : fopen s₀.toFileState fileName modeRead = .ok (fd, fs))
    (hcases : (fd ≤ 0 ∧ SameTable fs fs') ∨
      (0 < fd ∧ ¬readable { s₀ with toFileState := fs } fd ∧ ∃ fs₁, SameTable fs fs₁ ∧ fs' = (fclose fs₁ fd).2) ∨
      (0 < fd ∧ readable { s₀ with toFileState := fs } fd ∧ SameTable fs fs')) :
    SameOpen s₀.toFileState fs' ↔ LoadsNothing readable s₀ fileName := by
  rcases fopen_cases hopen (by decide) with ⟨hle, htable, hno⟩ | ⟨i, rfl, hname, hslot⟩
  · have hfs : fs'.fileDescriptors = fs.fileDescriptors := by
      rcases hcases with ⟨-, h, -⟩ | ⟨hpos, -⟩ | ⟨hpos, -⟩
      · exact h
      · omega
      · omega
    refine iff_of_true ?_ (hno.imp_right .inl)
    intro j _
    rw [hfs, htable]
  · have hnotFull : ¬FilesFull s₀.toFileState := by
      rw [filesFull_iff, hslot.slot]
      simp
    rw [LoadsNothing, onlyLastFree_iff, hslot.slot]
    rcases hcases with ⟨hle, -⟩ | ⟨-, hread, fs₁, ⟨h₁, h₂⟩, rfl⟩ | ⟨-, hread, h₁, h₂⟩
    · omega
    · rw [(hslot.congr h₁ h₂).fclose_sameOpen_iff]
      constructor
      · intro hne
        refine .inr (.inr ⟨by simpa using hne, ?_⟩)
        intro fd' fs'' hopen'
        cases hopen.symm.trans hopen'
        exact hread
      · rintro (h | h | ⟨h, -⟩)
        · exact absurd hname h
        · exact absurd h hnotFull
        · simpa using h
    · refine iff_of_false (hslot.congr h₁ h₂).not_sameOpen ?_
      rintro (h | h | ⟨-, h⟩)
      · exact h hname
      · exact hnotFull h
      · exact h _ _ hopen hread

theorem elfLoad_sameOpen_iff (h : elfLoad s fileName = .ok (result, elfFile, s')) :
    SameOpen s.toFileState s'.toFileState ↔ LoadsNothing ElfReadable (elfOpening s) fileName := by
  obtain ⟨fd, fs, hopen, hcases⟩ := elfLoad_cases h
  refine sameOpen_iff_of_cases hopen ?_
  rcases hcases with ⟨hle, -, rfl⟩ | ⟨hpos, -, hread, hclose⟩ | ⟨hpos, -, hread, htable⟩
  · exact .inl ⟨hle, rfl, rfl⟩
  · exact .inr (.inl ⟨hpos, hread, hclose⟩)
  · exact .inr (.inr ⟨hpos, hread, htable⟩)

/-- エラーを返した `elf_load` は、最後の番号のほかでは、何も開いたままにしない。 -/
theorem elfLoad_refused (h : elfLoad s fileName = .ok (result, elfFile, s')) (hneg : result < 0)
    (hlast : ¬OnlyLastFree (elfOpening s).toFileState) : LoadsNothing ElfReadable (elfOpening s) fileName := by
  obtain ⟨fd, fs, hopen, ⟨hle, -⟩ | ⟨-, -, hread, -⟩ | ⟨-, hge, -⟩⟩ := elfLoad_cases h
  · rcases fopen_cases hopen (by decide) with ⟨-, -, hno⟩ | ⟨i, rfl, -⟩
    · exact hno.imp_right .inl
    · omega
  · refine .inr (.inr ⟨hlast, ?_⟩)
    intro fd' fs' hopen'
    cases hopen.symm.trans hopen'
    exact hread
  · omega

/-- 成功した `elf_load` は、開いた番号を必ず残す。 -/
theorem elfLoad_leaves (h : elfLoad s fileName = .ok (result, elfFile, s')) (hge : 0 ≤ result) :
    ¬SameOpen s.toFileState s'.toFileState := by
  obtain ⟨fd, fs, hopen, ⟨-, hneg, -⟩ | ⟨-, hneg, -⟩ | ⟨hpos, -, -, h₁, h₂⟩⟩ := elfLoad_cases h
  · omega
  · omega
  · rcases fopen_cases hopen (by decide) with ⟨hle, -⟩ | ⟨i, -, -, hslot⟩
    · omega
    · exact (hslot.congr h₁ h₂).not_sameOpen

/-- 読み込みが返ったとき、開いている番号の集まりが元のままなのは、`fopen` が何も開かなかったか、最後の番号ではない番号で開いて、
読み込みに失敗したとき、そのときに限る。 -/
theorem givesBack_iff (s : Kernel) (fileName : List Byte) :
    (∀ result elfFile s', elfLoad s fileName = .ok (result, elfFile, s') →
      (SameOpen s.toFileState s'.toFileState ↔ LoadsNothing ElfReadable (elfOpening s) fileName)) ∧
    ∀ proc result s', processLoadBin s fileName proc = .ok (result, s') →
      (SameOpen s.toFileState s'.toFileState ↔ LoadsNothing BinReadable s fileName) := by
  constructor
  · intro result elfFile s' h
    exact elfLoad_sameOpen_iff h
  · intro proc result s' h
    obtain ⟨fd, fs, hopen, hcases⟩ := processLoadBin_cases h
    exact sameOpen_iff_of_cases hopen hcases

/-! ## 起動の直後の読み込み -/

/-- 起動の直後に `A` を読み込むと、本体は番号 8 のブロックにできる。 -/
theorem boot_elfLoad {image : List Byte} {v : Volume} (hv : v.disk = imageDisk image) (hlen : image.length = 88)
    {file : ElfFile} (haccept : elfProcessLoaded (Memory.write (fun _ => 0) (blockAddr 8) image)
      { elfMemory := blockAddr 8 } = (result, file)) :
    ∃ s', elfLoad (Kernel.boot (stateWith v 0)) imageName = .ok (if result < 0
      then (result, 0, { s' with toFileState := (fclose s'.toFileState ((0 : Nat) + 1)).2 })
      else (result, blockAddr 0, s')) := by
  have hsize : imageItem.fileSize.toNat = 88 := rfl
  have hmem : Memory.zero (fun _ => 0) (blockAddr 8) 88 = fun _ => 0 := Memory.zero_of_zero fun _ _ => rfl
  have haccept' : elfProcessLoaded (((Kernel.boot (stateWith v 0)).mem.zero (blockAddr (0 + 8))
      imageItem.fileSize.toNat).write (blockAddr (0 + 8)) (v.fileBytes imageItem [2]))
      { elfMemory := blockAddr (0 + 8) } = (result, file) := by
    rw [imageDisk_fileBytes hv hlen, hsize]
    exact hmem ▸ haccept
  obtain ⟨s', hload, -⟩ := elfLoad_read (imageDisk_rootFile hv) (s := Kernel.boot (stateWith v 0)) rfl rfl bootHeap_packed
    (by rw [hsize]; decide) (stateWith_freeSlot v (by decide)) (by decide) haccept'
  exact ⟨s', hload⟩

/-- 内容がすべて 0 のファイルは、ELF ではない。読み込みはエラーを返し、開いた記述子は閉じられている。 -/
theorem givesBack_iff_blank : ∃ (v : Volume) (s' : Kernel), v.disk = imageDisk (List.replicate 88 0) ∧
    elfLoad (Kernel.boot (stateWith v 0)) imageName = .ok (-EINVFMT, 0, s') ∧
    SameOpen (stateWith v 0) s'.toFileState := by
  obtain ⟨v, hv⟩ : ∃ v : Volume, v.disk = imageDisk (List.replicate 88 0) := smallDisk_resolved (imageDisk_root _)
  have hreject : elfProcessLoaded (Memory.write (fun _ => 0) (blockAddr 8) (List.replicate 88 0))
      { elfMemory := blockAddr 8 } = (-EINVFMT, { elfMemory := blockAddr 8 }) := rfl
  obtain ⟨s', hload⟩ := boot_elfLoad hv List.length_replicate hreject
  rw [if_pos (by decide)] at hload
  have hfree : ¬OnlyLastFree (elfOpening (Kernel.boot (stateWith v 0))).toFileState := fun h => h.1 0 (by decide) rfl
  exact ⟨v, _, hv, hload, ((givesBack_iff _ _).1 _ _ _ hload).2 (elfLoad_refused hload (by decide) hfree)⟩

/-- 正しい ELF ファイルの読み込みは成功して、番号 0 の記述子を開いたままにする。 -/
theorem givesBack_fails_image : ∃ (v : Volume) (s' : Kernel), v.disk = imageDisk (elfImage 88 0) ∧
    elfLoad (Kernel.boot (stateWith v 0)) imageName = .ok (0, blockAddr 0, s') ∧
    ¬SameOpen (stateWith v 0) s'.toFileState := by
  obtain ⟨v, hv⟩ : ∃ v : Volume, v.disk = imageDisk (elfImage 88 0) := smallDisk_resolved (imageDisk_root _)
  obtain ⟨file, haccept⟩ : ∃ file, elfProcessLoaded (Memory.write (fun _ => 0) (blockAddr 8) (elfImage 88 0))
      { elfMemory := blockAddr 8 } = (0, file) := ⟨_, rfl⟩
  obtain ⟨s', hload⟩ := boot_elfLoad hv rfl haccept
  rw [if_neg (by decide)] at hload
  exact ⟨v, s', hv, hload, elfLoad_leaves hload (Int.le_refl 0)⟩

end EnkiOs
