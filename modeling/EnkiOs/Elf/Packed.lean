import EnkiOs.Elf.Basic
import EnkiOs.Fs.Packed

/-!
# 詰まったヒープでの ELF ファイルの読み込み
-/

namespace EnkiOs
open Machine

/-- ルートディレクトリの通常のファイル `name` の項目が `item` で、その鎖が `chain` である。 -/
structure RootFile (v : Volume) (name : List Byte) (item : FatDirItem) (chain : List Nat) : Prop where
  found : ∃ t j, RootTerminated v.disk v.priv.header t ∧ OnlyAt v name v.priv.root.total.toNat j ∧
    t ≤ v.rootEntries ∧ v.rootItem j = item
  name_ne : name ≠ []
  name_zero : 0 ∉ name
  name_slash : 0x2F ∉ name
  name_length : name.length ≤ 105
  sectPerCluster_ne : v.sectPerCluster ≠ 0
  isChain : v.IsChain (fat16GetFirstCluster item).toNat chain
  size_pos : 0 < item.fileSize.toNat
  size_le : item.fileSize.toNat ≤ chain.length * v.clusterSize
  place : ∀ c ∈ chain, v.clusterPos c + v.clusterSize ≤ 2 ^ 31

/-! ## ヘッダの読み取り -/

theorem Opened.fstat_eq {s : FileState} {v : Volume} {fd : Int} {item : FatDirItem} (h : Opened s v fd item)
    (hfd : fd ≠ 512) : ∃ stat, fstat s fd = .ok (.ok stat) ∧ stat.fileSize = item.fileSize := by
  have hlow := h.index_pos
  have hhigh : fd ≤ (512 : Nat) := h.index_le
  have hdesc : fileGetDescriptor s fd = s.fileDescriptors (fd - 1).toNat := by
    rw [fileGetDescriptor, if_neg]
    show ¬(fd ≤ 0 ∨ ((512 : Nat) : Int) ≤ fd)
    omega
  have hitem := h.item_eq
  have hstat : fstat s fd = fat16Stat (s.descriptor fd) := by
    simp only [fstat, hdesc]
    rw [if_neg h.present]
    rfl
  rw [hstat, fat16Stat]
  simp only [FatItem.dirItem] at hitem
  split at hitem
  · rename_i a dirItem htype
    cases hitem
    rw [htype]
    exact ⟨_, rfl, rfl⟩
  · cases hitem
  · cases hitem
  · cases hitem

theorem kzallocBytes_packed {s : Kernel} {b : Nat} {size : Word} (hp : Packed s.heap b) (hpos : 0 < size.toNat)
    (hfit : b + (size.toNat + 4095) / 4096 ≤ 25600) :
    ∃ heap, kzallocBytes s size =
        (blockAddr b, { s with heap := heap, mem := s.mem.zero (blockAddr b) size.toNat }) ∧
      Packed heap (b + (size.toNat + 4095) / 4096) := by
  obtain ⟨haddr, hp'⟩ := hp.kzalloc hpos (by omega) hfit
  refine ⟨_, ?_, hp'⟩
  simp only [kzallocBytes]
  rw [haddr, if_neg (blockAddr_ne_zero (by omega))]

section

variable {v : Volume} {name : List Byte} {item : FatDirItem} {chain : List Nat} (hf : RootFile v name item chain)
  {s : Kernel} (hdisk : s.disk = v.disk) (hpriv : s.priv = some v.priv) {b i : Nat} (hp : Packed s.heap b)
  (hfit : b + 8 + (item.fileSize.toNat + 4095) / 4096 ≤ 25600)
  (hslot : fileFreeSlot s.toFileState ENKI_MAX_FILE_DESCRIPTORS 0 = some i) (hi : i < 511)
include hf hdisk hpriv hp hfit hslot hi

/-- ファイルは番号 `b + 8` のブロックから読み込まれ、`struct elf_file` は番号 `b` のブロックにできる。内容が ELF でなければ、
記述子を閉じて、エラーを返す。 -/
theorem elfLoad_read {result : Int} {file : ElfFile}
    (haccept : elfProcessLoaded
      ((s.mem.zero (blockAddr (b + 8)) item.fileSize.toNat).write (blockAddr (b + 8)) (v.fileBytes item chain))
      { elfMemory := blockAddr (b + 8) } = (result, file)) :
    ∃ s', elfLoad s (0x30 :: 0x3A :: 0x2F :: name) = .ok (if result < 0
        then (result, 0, { s' with toFileState := (fclose s'.toFileState ((i : Int) + 1)).2 })
        else (result, blockAddr b, s')) ∧
      s'.mem = (s.mem.zero (blockAddr (b + 8)) item.fileSize.toNat).write (blockAddr (b + 8)) (v.fileBytes item chain) ∧
      s'.elfFiles (blockAddr b) = file ∧ Packed s'.heap (b + 8 + (item.fileSize.toNat + 4095) / 4096) ∧
      Occupied s.toFileState s'.toFileState i := by
  obtain ⟨t, j, hroot, honly, hle, hitem⟩ := hf.found
  have hfd : ((i : Int) + 1) ≠ 512 := by omega
  have hnonneg : ¬ ((i : Int) + 1 ≤ 0) := by omega
  have hspace := item.fileSize.isLt
  have hne : item.fileSize ≠ 0 := by
    intro h0
    have hpos := hf.size_pos
    rw [h0] at hpos
    exact absurd hpos (by decide)
  -- `struct elf_file`
  obtain ⟨h₁, hk₁, hne₁, hp₁⟩ := hp.small (show 0 < ELF_FILE_SIZE by decide) (by decide) (by omega)
  obtain ⟨s₁, hs₁⟩ : ∃ s₁, s₁ = (s.setHeap h₁).setElfFile (blockAddr b) {} := ⟨_, rfl⟩
  have hfs₁ : s₁.toFileState = { s.toFileState with heap := h₁ } := by rw [hs₁]; rfl
  have hfile₁ : s₁.elfFiles (blockAddr b) = {} := by simp [hs₁, Kernel.setElfFile]
  -- `fopen` と `fstat`
  obtain ⟨fs, hopen, hopened, hp₂, hmem, hocc⟩ := fopen_packed hroot hf.name_zero honly hle hf.name_ne hf.name_slash
    hf.name_length (s := s₁.toFileState) (by rw [hfs₁]; exact hdisk) (by rw [hfs₁]; exact hpriv)
    (by rw [hfs₁]; exact hp₁) (by omega) ((fileFreeSlot_congr (by rw [hfs₁]) _ _).trans hslot)
  rw [hitem] at hopened
  obtain ⟨stat, hstat, hsize⟩ := hopened.fstat_eq hfd
  -- 本体の割り当てと読み取り
  obtain ⟨h₃, hk₃, hp₃⟩ := kzallocBytes_packed (s := { s₁ with toFileState := fs })
    hp₂ hf.size_pos (by omega)
  rw [show b + 1 + 7 = b + 8 by omega] at hk₃ hp₃
  have hmem' : fs.mem = s.mem := by rw [hmem, hfs₁]
  have hopened' : Opened { fs with heap := h₃, mem := fs.mem.zero (blockAddr (b + 8)) item.fileSize.toNat } v (i + 1)
      item := { hopened with }
  have hread := hopened'.fread_eq hfd hne (show (1 : Word) ≠ 0 by decide)
    (fat16Read_whole hf.sectPerCluster_ne hf.isChain hf.size_le hf.place hopened'.item_eq hopened'.pos_eq hf.size_pos
      (blockAddr (b + 8)) _)
  have hne₃ : blockAddr (b + 8) ≠ 0 := blockAddr_ne_zero (by omega)
  rw [← hmem'] at haccept
  refine ⟨({ s₁ with toFileState := { fs with
      heap := h₃
      mem := (fs.mem.zero (blockAddr (b + 8)) item.fileSize.toNat).write (blockAddr (b + 8)) (v.fileBytes item chain) }
    }.setElfFile (blockAddr b) { elfMemory := blockAddr (b + 8) }).setElfFile (blockAddr b) file, ?_, ?_, ?_, hp₃, ?_⟩
  · simp only [elfLoad, hk₁]
    rw [← hs₁]
    refine bind_ok.2 ⟨_, hopen, ?_⟩
    simp only
    rw [if_neg hnonneg]
    refine bind_ok.2 ⟨_, hstat, ?_⟩
    simp only
    rw [if_neg hne₁, hsize, hk₃]
    refine bind_ok.2 ⟨_, hread, ?_⟩
    simp only [hfile₁]
    rw [if_neg (by decide), if_neg hne₃]
    simp only [Kernel.setElfFile] at haccept ⊢
    rw [haccept]
    simp only
    split <;> rfl
  · show (fs.mem.zero _ _).write _ _ = _
    rw [hmem']
  · simp [Kernel.setElfFile]
  · rw [hfs₁] at hocc
    exact { hocc with }

theorem elfLoad_packed {result : Int} {file : ElfFile}
    (haccept : elfProcessLoaded
      ((s.mem.zero (blockAddr (b + 8)) item.fileSize.toNat).write (blockAddr (b + 8)) (v.fileBytes item chain))
      { elfMemory := blockAddr (b + 8) } = (result, file)) (hresult : 0 ≤ result) :
    ∃ s', elfLoad s (0x30 :: 0x3A :: 0x2F :: name) = .ok (result, blockAddr b, s') ∧
      s'.mem = (s.mem.zero (blockAddr (b + 8)) item.fileSize.toNat).write (blockAddr (b + 8)) (v.fileBytes item chain) ∧
      s'.elfFiles (blockAddr b) = file ∧ Packed s'.heap (b + 8 + (item.fileSize.toNat + 4095) / 4096) ∧
      Occupied s.toFileState s'.toFileState i := by
  obtain ⟨s', hload, hrest⟩ := elfLoad_read hf hdisk hpriv hp hfit hslot hi haccept
  rw [if_neg (by omega)] at hload
  exact ⟨s', hload, hrest⟩

end

end EnkiOs
