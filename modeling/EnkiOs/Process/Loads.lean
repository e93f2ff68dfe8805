import EnkiOs.Process.Basic
import EnkiOs.Task.Run

/-!
# 読み込みの道筋

`elf_load` と `process_load_bin` が返るまでに通る道を、返る場所ごとに一つの場合とする。
-/

namespace EnkiOs
open Machine

variable {s s' : Kernel} {fileName : List Byte} {result : Int} {proc elfFile : Word}

/-- 読み込んだ本体を記録する `struct elf_file`。 -/
def elfReadFile (s : Kernel) (p memory : Word) : ElfFile := { s.elfFiles p with elfMemory := memory }

/-- `fread` が `code` を返した状態 `s` から、`elf_load` が返るまで。 -/
inductive ElfRead (s : Kernel) (p : Word) (fd : Int) (memory : Word) (code : Int) : Int → Word → Kernel → Prop
  | unread (hcode : code < 0) :
      ElfRead s p fd memory code code 0
        { s.setElfFile p (elfReadFile s p memory) with toFileState := (fclose s.toFileState fd).2 }
  | refused (hcode : 0 ≤ code) (hmemory : memory ≠ 0) (hneg : (elfProcessLoaded s.mem (elfReadFile s p memory)).1 < 0) :
      ElfRead s p fd memory code (elfProcessLoaded s.mem (elfReadFile s p memory)).1 0
        { (s.setElfFile p (elfReadFile s p memory)).setElfFile p (elfProcessLoaded s.mem (elfReadFile s p memory)).2 with
          toFileState := (fclose s.toFileState fd).2 }
  | loaded (hcode : 0 ≤ code) (hmemory : memory ≠ 0) (hge : 0 ≤ (elfProcessLoaded s.mem (elfReadFile s p memory)).1) :
      ElfRead s p fd memory code (elfProcessLoaded s.mem (elfReadFile s p memory)).1 p
        ((s.setElfFile p (elfReadFile s p memory)).setElfFile p (elfProcessLoaded s.mem (elfReadFile s p memory)).2)

/-- `fopen` が `fd` を返した状態 `s` から、`elf_load` が返るまで。 -/
inductive ElfOpened (s : Kernel) (p : Word) (fd : Int) : Int → Word → Kernel → Prop
  | unopened (hfd : fd ≤ 0) : ElfOpened s p fd (- EIO) 0 { s with toFileState := (fclose s.toFileState 0).2 }
  | unknown {code : Int} (hfd : 0 < fd) (hstat : fstat s.toFileState fd = .ok (.error code)) :
      ElfOpened s p fd code 0 { s with toFileState := (fclose s.toFileState fd).2 }
  | known {stat : FileStat} {memory : Word} {s₁ : Kernel} {code : Int} {fs : FileState} {result : Int} {elfFile : Word}
      {s' : Kernel} (hfd : 0 < fd) (hstat : fstat s.toFileState fd = .ok (.ok stat)) (hp : p ≠ 0)
      (hk : kzallocBytes s stat.fileSize = (memory, s₁))
      (hread : fread s₁.toFileState memory stat.fileSize 1 fd = .ok (code, fs))
      (hend : ElfRead { s₁ with toFileState := fs } p fd memory code result elfFile s') :
      ElfOpened s p fd result elfFile s'

theorem elfLoad_path (h : elfLoad s fileName = .ok (result, elfFile, s')) :
    ∃ p heap fd fs, kzalloc s.heap ELF_FILE_SIZE = (p, heap) ∧
      fopen ((s.setHeap heap).setElfFile p {}).toFileState fileName modeRead = .ok (fd, fs) ∧
      ElfOpened { (s.setHeap heap).setElfFile p {} with toFileState := fs } p fd result elfFile s' := by
  obtain ⟨p, heap, hmade⟩ : ∃ p heap, kzalloc s.heap ELF_FILE_SIZE = (p, heap) := ⟨_, _, rfl⟩
  simp only [elfLoad, hmade] at h
  obtain ⟨⟨fd, fs⟩, hopen, h⟩ := bind_ok.1 h
  refine ⟨p, heap, fd, fs, hmade, hopen, ?_⟩
  simp only at h
  split at h
  · rename_i hfd
    cases h
    exact .unopened hfd
  · rename_i hfd
    obtain ⟨stat, hstat, h⟩ := bind_ok.1 h
    cases stat with
    | error code =>
        cases h
        exact .unknown (Int.not_le.1 hfd) hstat
    | ok stat =>
        simp only at h
        split at h
        · cases h
        · rename_i hp
          obtain ⟨s₁, hs₁⟩ : ∃ s₁ : Kernel, { (s.setHeap heap).setElfFile p {} with toFileState := fs } = s₁ := ⟨_, rfl⟩
          rw [hs₁] at h ⊢
          have hfs : fs = s₁.toFileState := by rw [← hs₁]
          rw [hfs] at hstat
          generalize hk : kzallocBytes s₁ stat.fileSize = made at h
          obtain ⟨memory, s₂⟩ := made
          obtain ⟨⟨code, fs₂⟩, hread, h⟩ := bind_ok.1 h
          refine .known (Int.not_le.1 hfd) hstat hp hk hread ?_
          simp only at h
          split at h
          · cases h
            exact .unread ‹_›
          · rename_i hcode
            split at h
            · cases h
            · rename_i hmemory
              split at h
              · rename_i hneg
                cases h
                exact .refused (Int.not_lt.1 hcode) hmemory hneg
              · rename_i hge
                cases h
                exact .loaded (Int.not_lt.1 hcode) hmemory (Int.not_lt.1 hge)

/-- `fopen` が `fd` を返した状態 `s` から、`process_load_bin` が返るまで。 -/
inductive BinOpened (s : Kernel) (proc : Word) (fd : Int) : Int → Kernel → Prop
  | unopened (hfd : fd = 0) : BinOpened s proc fd (- EIO) s
  | unknown {code : Int} (hfd : fd ≠ 0) (hstat : fstat s.toFileState fd = .ok (.error code)) :
      BinOpened s proc fd code { s with toFileState := (fclose s.toFileState fd).2 }
  | unallocated {stat : FileStat} {s₁ : Kernel} (hfd : fd ≠ 0) (hstat : fstat s.toFileState fd = .ok (.ok stat))
      (hk : kzallocBytes s stat.fileSize = (0, s₁)) :
      BinOpened s proc fd (-ENOMEM) { s₁ with toFileState := (fclose s₁.toFileState fd).2 }
  | unread {stat : FileStat} {data : Word} {s₁ : Kernel} {code : Int} {fs : FileState} (hfd : fd ≠ 0)
      (hstat : fstat s.toFileState fd = .ok (.ok stat)) (hk : kzallocBytes s stat.fileSize = (data, s₁)) (hdata : data ≠ 0)
      (hread : fread s₁.toFileState data stat.fileSize 1 fd = .ok (code, fs)) (hcode : code ≠ 1) :
      BinOpened s proc fd (- EIO)
        { s₁ with toFileState := (fclose { fs with heap := kfree fs.heap data } fd).2 }
  | loaded {stat : FileStat} {data : Word} {s₁ : Kernel} {fs : FileState} (hfd : fd ≠ 0)
      (hstat : fstat s.toFileState fd = .ok (.ok stat)) (hk : kzallocBytes s stat.fileSize = (data, s₁)) (hdata : data ≠ 0)
      (hread : fread s₁.toFileState data stat.fileSize 1 fd = .ok (1, fs)) :
      BinOpened s proc fd 0 ({ s₁ with toFileState := fs }.setProc proc
        { s₁.procs proc with fileType := PROCESS_FILE_TYPE_BIN, addr := data, size := stat.fileSize })

theorem processLoadBin_path (h : processLoadBin s fileName proc = .ok (result, s')) :
    ∃ fd fs, fopen s.toFileState fileName modeRead = .ok (fd, fs) ∧
      BinOpened { s with toFileState := fs } proc fd result s' := by
  obtain ⟨⟨fd, fs⟩, hopen, h⟩ := bind_ok.1 h
  refine ⟨fd, fs, hopen, ?_⟩
  simp only at h
  split at h
  · rename_i hfd
    cases h
    exact .unopened hfd
  · rename_i hfd
    obtain ⟨stat, hstat, h⟩ := bind_ok.1 h
    cases stat with
    | error code =>
        cases h
        exact .unknown hfd hstat
    | ok stat =>
        obtain ⟨s₁, hs₁⟩ : ∃ s₁ : Kernel, { s with toFileState := fs } = s₁ := ⟨_, rfl⟩
        have hfs : fs = s₁.toFileState := by rw [← hs₁]
        simp only at h
        rw [hs₁] at h ⊢
        rw [hfs] at hstat
        generalize hk : kzallocBytes s₁ stat.fileSize = made at h
        obtain ⟨data, s₂⟩ := made
        simp only at h
        split at h
        · rename_i hdata
          cases h
          exact .unallocated hfd hstat (hdata ▸ hk)
        · rename_i hdata
          obtain ⟨⟨code, fs₂⟩, hread, h⟩ := bind_ok.1 h
          simp only at h
          split at h
          · rename_i hcode
            cases h
            exact @BinOpened.unread s₁ proc fd stat data s₂ code fs₂ hfd hstat hk hdata hread hcode
          · rename_i hcode
            cases h
            rw [not_not.1 hcode] at hread
            exact .loaded hfd hstat hk hdata hread

end EnkiOs
