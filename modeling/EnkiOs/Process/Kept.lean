import EnkiOs.Elf.Lemmas
import EnkiOs.Fs.Kept
import EnkiOs.Paging.New
import EnkiOs.Process.Lemmas

/-!
# プロセスの読み込みで保たれるヒープの性質

読み込みの各段階は、`HeapKept` の性質を保ち、記録に残すアドレスはどれも割り当ての返したものである。
-/

namespace EnkiOs
open Machine

variable {P : Heap → Prop} {Q R : Word → Prop} (hkept : HeapKept P Q) (hret : ∀ {h : Heap} (n : Nat), P h → R (kzalloc h n).1)
  {s s' : Kernel} {fileName : List Byte} {result : Int} {proc elfFile : Word}
include hkept hret

theorem kzallocBytes_kept {size ptr : Word} (hP : P s.heap) (h : kzallocBytes s size = (ptr, s')) :
    P s'.heap ∧ R ptr ∧ ∃ heap mem, s' = { s with heap := heap, mem := mem } := by
  have hz := hkept.kzalloc size.toNat hP
  have hr := hret size.toNat hP
  simp only [kzallocBytes] at h
  split at h
  · rename_i h0
    cases h
    exact ⟨hz.1, h0 ▸ hr, _, s.mem, rfl⟩
  · cases h
    exact ⟨hz.1, hr, _, _, rfl⟩

/-- 成功した読み込みの `struct elf_file` と本体は、割り当ての返したものである。 -/
theorem elfLoad_kept (hP : P s.heap) (hstray : StraySafe Q s.toFileState)
    (h : elfLoad s fileName = .ok (result, elfFile, s')) :
    P s'.heap ∧ StraySafe Q s'.toFileState ∧
      (0 ≤ result → R elfFile ∧ R (s'.elfFiles elfFile).elfMemory ∧ (s'.elfFiles elfFile).elfMemory ≠ 0) := by
  obtain ⟨p, heap₁, fd, fs, hmade, hopen, hopened⟩ := elfLoad_path h
  have hz := hkept.kzalloc ELF_FILE_SIZE hP
  have hr := hret ELF_FILE_SIZE hP
  rw [hmade] at hz hr
  obtain ⟨hP₁, hstray₁, hclose⟩ := fopen_kept hkept (s := ((s.setHeap heap₁).setElfFile p {}).toFileState) hz.1 hstray hopen
  have hclosed : ∀ (fs' : FileState) (fd' : Int), fs'.fatFiles = fs.fatFiles →
      StraySafe Q (fclose fs' fd').2 := fun fs' fd' hfat a ha => by
    rw [fclose_fatFiles, hfat]
    exact hstray₁ a ha
  cases hopened with
  | unopened => exact ⟨fclose_kept hkept hP₁ fun hne => absurd rfl hne, hclosed _ _ rfl, fun h0 => absurd h0 (by decide)⟩
  | unknown _ hstat =>
      exact ⟨fclose_kept hkept hP₁ hclose, hclosed _ _ rfl, fun h0 => absurd h0 (Int.not_le.2 (fstat_error_neg hstat))⟩
  | known _ _ _ hk hread hend =>
      obtain ⟨hP₂, hr₂, heap₂, mem₂, rfl⟩ := kzallocBytes_kept hkept hret (by exact hP₁) hk
      obtain ⟨mem₃, rfl⟩ := fread_heap hread
      cases hend with
      | unread => exact ⟨fclose_kept hkept hP₂ hclose, hclosed _ _ rfl, fun h0 => by omega⟩
      | refused => exact ⟨fclose_kept hkept hP₂ hclose, hclosed _ _ rfl, fun h0 => by omega⟩
      | loaded _ hmemory =>
          refine ⟨hP₂, hstray₁, fun _ => ?_⟩
          simp only [Kernel.setElfFile, if_true]
          rw [elfProcessLoaded_memory]
          exact ⟨hr, hr₂, hmemory⟩

/-- 終了のときに解放する本体のアドレスが、どれも `R` を満たす。 -/
def ImageFrees (R : Word → Prop) (s : Kernel) (proc : Word) : Prop :=
  R (s.procs proc).addr ∧ ((s.procs proc).fileType = PROCESS_FILE_TYPE_ELF →
    R (s.elfFiles (s.procs proc).addr).elfMemory ∧ (s.elfFiles (s.procs proc).addr).elfMemory ≠ 0)

theorem processLoadElf_kept (hP : P s.heap) (hstray : StraySafe Q s.toFileState)
    (h : processLoadElf s fileName proc = .ok (result, s')) :
    P s'.heap ∧ StraySafe Q s'.toFileState ∧ (0 ≤ result → ImageFrees R s' proc) := by
  obtain ⟨⟨code, addr, s₁⟩, hload, h⟩ := bind_ok.1 h
  obtain ⟨hP₁, hstray₁, hfile⟩ := elfLoad_kept hkept hret hP hstray hload
  simp only at h
  split at h
  · cases h
    exact ⟨hP₁, hstray₁, fun h0 => absurd h0 (by omega)⟩
  · cases h
    refine ⟨hP₁, hstray₁, ?_⟩
    intro h0
    obtain ⟨haddr, hmemory⟩ := hfile h0
    simp only [ImageFrees, Kernel.setProc, if_true]
    exact ⟨haddr, fun _ => hmemory⟩

theorem processLoadBin_kept (hP : P s.heap) (hstray : StraySafe Q s.toFileState) (hQR : ∀ a, R a → Q a)
    (h : processLoadBin s fileName proc = .ok (result, s')) :
    P s'.heap ∧ (0 ≤ result → ImageFrees R s' proc) := by
  obtain ⟨fd, fs, hopen, hopened⟩ := processLoadBin_path h
  obtain ⟨hP₁, hstray₁, hclose⟩ := fopen_kept hkept hP hstray hopen
  cases hopened with
  | unopened => exact ⟨hP₁, fun h0 => absurd h0 (by decide)⟩
  | unknown _ hstat =>
      exact ⟨fclose_kept hkept hP₁ hclose, fun h0 => absurd h0 (Int.not_le.2 (fstat_error_neg hstat))⟩
  | unallocated _ _ hk =>
      obtain ⟨hP₂, -, heap₂, mem₂, rfl⟩ := kzallocBytes_kept hkept hret (by exact hP₁) hk
      exact ⟨fclose_kept hkept hP₂ hclose, fun h0 => absurd h0 (by decide)⟩
  | unread _ _ hk _ hread =>
      obtain ⟨hP₂, hr₂, heap₂, mem₂, rfl⟩ := kzallocBytes_kept hkept hret (by exact hP₁) hk
      obtain ⟨mem₃, rfl⟩ := fread_heap hread
      exact ⟨fclose_kept hkept (hkept.kfree hP₂ (hQR _ hr₂)) hclose, fun h0 => absurd h0 (by decide)⟩
  | loaded _ _ hk _ hread =>
      obtain ⟨hP₂, hr₂, heap₂, mem₂, rfl⟩ := kzallocBytes_kept hkept hret (by exact hP₁) hk
      obtain ⟨mem₃, rfl⟩ := fread_heap hread
      refine ⟨hP₂, fun _ => ?_⟩
      simp only [ImageFrees, Kernel.setProc, if_true]
      exact ⟨hr₂, fun h0 => absurd h0 (by decide)⟩

theorem processLoadData_kept (hP : P s.heap) (hstray : StraySafe Q s.toFileState) (hQR : ∀ a, R a → Q a)
    (h : processLoadData s fileName proc = .ok (result, s')) :
    P s'.heap ∧ (0 ≤ result → ImageFrees R s' proc) := by
  obtain ⟨⟨code, s₁⟩, helf, h⟩ := bind_ok.1 h
  obtain ⟨hP₁, hstray₁, himage⟩ := processLoadElf_kept hkept hret hP hstray helf
  simp only at h
  split at h
  · exact processLoadBin_kept hkept hret hP₁ hstray₁ hQR h
  · cases h
    exact ⟨hP₁, himage⟩

/-- 用意のできた記録。本体とスタックは割り当ての返したもので、スタックはゼロで埋まっている。 -/
theorem processPrepareWith_kept {terminate : Kernel → Word → Except Fault (Int × Kernel)} {slot : Int} (hP : P s.heap)
    (hstray : StraySafe Q s.toFileState) (hQR : ∀ a, R a → Q a)
    (h : processPrepareWith terminate s fileName slot = .ok (.ok proc, s')) :
    P s'.heap ∧ R proc ∧ ImageFrees R s' proc ∧ R (s'.procs proc).stack ∧ (s'.procs proc).stack ≠ 0 ∧
      ∃ mem : Memory, s'.mem = mem.zero (s'.procs proc).stack ENKI_USER_PGM_STACK_SIZE := by
  obtain ⟨heap, code, s₁, stack, s₂, hk, -, hload, hcode, hstack, hne, rfl⟩ := processPrepareWith_ok h
  have hz := hkept.kzalloc PROCESS_SIZE hP
  have hr := hret PROCESS_SIZE hP
  rw [hk] at hz hr
  obtain ⟨hP₁, himage⟩ := processLoadData_kept hkept hret (s := (s.setHeap heap).setProc proc {}) hz.1 hstray hQR hload
  obtain ⟨hP₂, hr₂, -, -, -⟩ := kzallocBytes_kept hkept hret hP₁ hstack
  have hmade : s₂ = { s₁ with
      heap := (kzalloc s₁.heap 16384).2, mem := s₁.mem.zero stack ENKI_USER_PGM_STACK_SIZE } := by
    simp only [kzallocBytes] at hstack
    split at hstack
    · cases hstack
      exact absurd rfl hne
    · cases hstack
      rfl
  have himage' := himage hcode
  refine ⟨hP₂, hr, ?_, ?_, ?_, s₁.mem, ?_⟩
  · simp only [ImageFrees, Kernel.setProc, if_true]
    rw [hmade]
    exact himage'
  · simpa [Kernel.setProc] using hr₂
  · simpa [Kernel.setProc] using hne
  · rw [hmade]
    simp [Kernel.setProc]

end EnkiOs
