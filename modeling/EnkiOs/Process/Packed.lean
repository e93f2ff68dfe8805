import EnkiOs.Elf.Packed
import EnkiOs.Fs.Theorems
import EnkiOs.Process.Lemmas
import EnkiOs.Process.Theorems
import EnkiOs.Task.Theorems

/-!
# 詰まったヒープでのプロセスの読み込み

プロセスの記録、`struct elf_file`、ファイルの本体、スタックの順に、手前のブロックから使う。
-/

namespace EnkiOs
open Machine

/-- ELF ファイルが読み込めれば、その位置がプロセスの記録に入る。 -/
theorem processLoadData_elf {s s' : Kernel} {fileName : List Byte} {proc elfFile : Word} {result : Int}
    (h : elfLoad s fileName = .ok (result, elfFile, s')) (hresult : 0 ≤ result) :
    processLoadData s fileName proc =
      .ok (result, s'.setProc proc { s'.procs proc with fileType := PROCESS_FILE_TYPE_ELF, addr := elfFile }) := by
  have hformat : ¬result = -EINVFMT := by
    rw [EINVFMT]
    omega
  refine bind_ok.2 ⟨_, bind_ok.2 ⟨_, h, if_neg (Int.not_lt.2 hresult)⟩, ?_⟩
  exact if_neg hformat

section

variable {v : Volume} {name : List Byte} {item : FatDirItem} {chain : List Nat} (hf : RootFile v name item chain)
  {s : Kernel} (hdisk : s.disk = v.disk) (hpriv : s.priv = some v.priv) {b i : Nat} (hp : Packed s.heap b)
  (hfit : b + 15 + (item.fileSize.toNat + 4095) / 4096 ≤ 25600)
  (hslot : fileFreeSlot s.toFileState ENKI_MAX_FILE_DESCRIPTORS 0 = some i) (hi : i < 511)
  (terminate : Kernel → Word → Except Fault (Int × Kernel)) {slot : Int} (hfree : processGet s slot = 0)
include hf hdisk hpriv hp hfit hslot hi hfree

/-- 受け入れられる ELF ファイルなら、スタックまで用意できる。 -/
theorem processPrepare_packed {result : Int} {file : ElfFile}
    (haccept : elfProcessLoaded
      ((s.mem.zero (blockAddr (b + 11)) item.fileSize.toNat).write (blockAddr (b + 11)) (v.fileBytes item chain))
      { elfMemory := blockAddr (b + 11) } = (result, file)) (hresult : 0 ≤ result) :
    ∃ s', processPrepareWith terminate s (0x30 :: 0x3A :: 0x2F :: name) slot = .ok (.ok (blockAddr b), s') ∧
      s'.mem = ((s.mem.zero (blockAddr (b + 11)) item.fileSize.toNat).write (blockAddr (b + 11))
        (v.fileBytes item chain)).zero (blockAddr (b + 11 + (item.fileSize.toNat + 4095) / 4096)) 16384 ∧
      (s'.procs (blockAddr b)).fileType = PROCESS_FILE_TYPE_ELF ∧
      s'.elfFiles (s'.procs (blockAddr b)).addr = file ∧
      s'.taskHead = s.taskHead ∧ s'.taskTail = s.taskTail ∧ s'.words = s.words ∧
      Packed s'.heap (b + 15 + (item.fileSize.toNat + 4095) / 4096) ∧ Occupied s.toFileState s'.toFileState i := by
  obtain ⟨hrec, hp₁⟩ := hp.kzalloc (show 0 < PROCESS_SIZE by decide) (by decide)
    (show b + (PROCESS_SIZE + 4095) / 4096 ≤ 25600 by rw [show (PROCESS_SIZE + 4095) / 4096 = 3 from rfl]; omega)
  rw [show b + (PROCESS_SIZE + 4095) / 4096 = b + 3 from rfl] at hp₁
  have hne : blockAddr b ≠ 0 := blockAddr_ne_zero (by omega)
  obtain ⟨s₁, hs₁⟩ : ∃ s₁, s₁ = (s.setHeap (kzalloc s.heap PROCESS_SIZE).2).setProc (blockAddr b) {} := ⟨_, rfl⟩
  have hmem₁ : s₁.mem = s.mem := by rw [hs₁]; rfl
  obtain ⟨s₂, hload, hmem₂, hfile₂, hp₂, hocc₂⟩ := elfLoad_packed hf (s := s₁) (by rw [hs₁]; exact hdisk)
    (by rw [hs₁]; exact hpriv) (by rw [hs₁]; exact hp₁) (by omega)
    ((fileFreeSlot_congr (by rw [hs₁]; rfl) _ _).trans hslot) hi
    (by rw [hmem₁, show b + 3 + 8 = b + 11 by omega]; exact haccept) hresult
  obtain ⟨fs, files, hs₂⟩ := elfLoad_frame hload
  obtain ⟨s₃, hs₃⟩ : ∃ s₃, s₃ = s₂.setProc (blockAddr b)
    { s₂.procs (blockAddr b) with fileType := PROCESS_FILE_TYPE_ELF, addr := blockAddr (b + 3) } := ⟨_, rfl⟩
  have hdata : processLoadData s₁ (0x30 :: 0x3A :: 0x2F :: name) (blockAddr b) = .ok (result, s₃) := by
    rw [hs₃]
    exact processLoadData_elf hload hresult
  have hstack : (BitVec.ofNat 32 ENKI_USER_PGM_STACK_SIZE).toNat = 16384 := rfl
  obtain ⟨h₄, hk₄, hp₄⟩ := kzallocBytes_packed (s := s₃)
    (by rw [hs₃]; exact hp₂) (show 0 < (BitVec.ofNat 32 ENKI_USER_PGM_STACK_SIZE).toNat by decide) (by rw [hstack]; omega)
  rw [hstack] at hk₄ hp₄
  have hb : b + 3 + 8 + (item.fileSize.toNat + 4095) / 4096 = b + 11 + (item.fileSize.toNat + 4095) / 4096 := by omega
  rw [hb] at hk₄ hp₄
  obtain ⟨s₄, hs₄⟩ : ∃ s₄, s₄ = { s₃ with
    heap := h₄, mem := s₃.mem.zero (blockAddr (b + 11 + (item.fileSize.toNat + 4095) / 4096)) 16384 } := ⟨_, rfl⟩
  rw [← hs₄] at hk₄
  have hprocs₄ : s₄.procs (blockAddr b) =
      { s₂.procs (blockAddr b) with fileType := PROCESS_FILE_TYPE_ELF, addr := blockAddr (b + 3) } := by
    rw [hs₄, hs₃]
    simp [Kernel.setProc]
  refine ⟨s₄.setProc (blockAddr b) { s₄.procs (blockAddr b) with
      stack := blockAddr (b + 11 + (item.fileSize.toNat + 4095) / 4096)
      fileName := (0x30 :: 0x3A :: 0x2F :: name).take (ENKI_MAX_PATH - 1)
      id := BitVec.ofInt 16 slot }, ?_, ?_, ?_, ?_, ?_, ?_, ?_, ?_, ?_⟩
  · simp only [processPrepareWith]
    rw [if_neg (by simp [hfree]), hrec, if_neg hne, ← hs₁]
    refine bind_ok.2 ⟨_, hdata, ?_⟩
    simp only
    rw [if_neg (by omega), hk₄]
    simp only
    rw [if_neg (blockAddr_ne_zero (by omega))]
    rfl
  · show s₄.mem = _
    rw [hs₄, hs₃]
    show s₂.mem.zero _ _ = _
    rw [hmem₂, hmem₁, show b + 3 + 8 = b + 11 by omega]
  · simp [Kernel.setProc, hprocs₄]
  · simp only [Kernel.setProc, hprocs₄, if_true]
    rw [hs₄, hs₃]
    exact hfile₂
  · rw [hs₄, hs₃, hs₂, hs₁]
    rfl
  · rw [hs₄, hs₃, hs₂, hs₁]
    rfl
  · rw [hs₄, hs₃, hs₂, hs₁]
    rfl
  · rw [hs₄]
    rw [show b + 15 + (item.fileSize.toNat + 4095) / 4096 =
      b + 11 + (item.fileSize.toNat + 4095) / 4096 + (16384 + 4095) / 4096 by omega]
    exact hp₄
  · rw [hs₁] at hocc₂
    rw [hs₄, hs₃]
    exact { hocc₂ with }

/-- 割り付けまで進めば、結果は割り付けの結果で決まる。 -/
theorem processLoadSlot_packed {result : Int} {file : ElfFile} {mem : Memory}
    (hmem : (((s.mem.zero (blockAddr (b + 11)) item.fileSize.toNat).write (blockAddr (b + 11))
      (v.fileBytes item chain)).zero (blockAddr (b + 11 + (item.fileSize.toNat + 4095) / 4096)) 16384) = mem)
    (haccept : elfProcessLoaded
      ((s.mem.zero (blockAddr (b + 11)) item.fileSize.toNat).write (blockAddr (b + 11)) (v.fileBytes item chain))
      { elfMemory := blockAddr (b + 11) } = (0, file)) (depth : Nat)
    (hroom : b + 15 + (item.fileSize.toNat + 4095) / 4096 + 1027 ≤ 25600) (hlinks : s.taskTail = 0 → s.taskHead = 0)
    (hmap : ∀ words dir, (processMapElf mem words dir file).1 = result) :
    ∃ s', s'.mem = mem ∧ (s'.procs (blockAddr b)).fileType = PROCESS_FILE_TYPE_ELF ∧
      s'.elfFiles (s'.procs (blockAddr b)).addr = file ∧
      s'.taskTail = blockAddr (b + 15 + (item.fileSize.toNat + 4095) / 4096) ∧
      Packed s'.heap (b + 15 + (item.fileSize.toNat + 4095) / 4096 + 1027) ∧ Occupied s.toFileState s'.toFileState i ∧
      processLoadSlot depth s (0x30 :: 0x3A :: 0x2F :: name) slot = .ok (if result < 0 then (result, 0, s')
        else (result, blockAddr b, { s' with processes := fun i => if i = slot then blockAddr b else s'.processes i })) := by
  obtain ⟨s₁, hprep, hmem₁, htype, hfile, hhead, htail, hwords, hp₁, hocc₁⟩ := processPrepare_packed hf hdisk hpriv hp hfit
    hslot hi (processTerminate depth) hfree haccept (Int.le_refl 0)
  obtain ⟨t, ht⟩ : ∃ t, blockAddr (b + 15 + (item.fileSize.toNat + 4095) / 4096) = t := ⟨_, rfl⟩
  have htne : t ≠ 0 := ht ▸ blockAddr_ne_zero (by omega)
  obtain ⟨s₂, hnew, hp₂⟩ := taskNew_packed (blockAddr b) hp₁ hroom (fun h0 => hhead.trans (hlinks (htail.symm.trans h0)))
  rw [ht] at hnew ⊢
  obtain ⟨heap, words, tasks, current, head, tail, hs₂⟩ := taskNew_frame hnew htne
  have htail₂ : s₂.taskTail = t := by
    obtain ⟨_, _, _, _, -, -, happend⟩ := taskNew_ok hnew htne
    exact taskAppend_tail happend
  obtain ⟨s₃, hs₃⟩ : ∃ s₃, s₃ = s₂.setProc (blockAddr b) { s₂.procs (blockAddr b) with task := t } := ⟨_, rfl⟩
  have hproc₃ : s₃.procs (blockAddr b) = { s₁.procs (blockAddr b) with task := t } := by
    rw [hs₃, hs₂]
    simp [Kernel.setProc]
  have hmem₃ : s₃.mem = mem := by
    rw [← hmem, ← hmem₁, hs₃, hs₂]
    rfl
  have hfile₃ : s₃.elfFiles (s₃.procs (blockAddr b)).addr = file := by
    rw [hproc₃, ← hfile, hs₃, hs₂]
    rfl
  obtain ⟨words₃, hmap₃⟩ : ∃ words₃, processMapMemory s₃ (blockAddr b) = .ok (result, { s₃ with words := words₃ }) := by
    have hdir : processPageDir s₃ (blockAddr b) = .ok (s₃.tasks t).pageDir := by
      rw [processPageDir, hproc₃]
      exact if_neg htne
    have himage : processMapImage s₃ (s₃.procs (blockAddr b)) (s₃.tasks t).pageDir =
        .ok (processMapElf s₃.mem s₃.words (s₃.tasks t).pageDir file) := by
      have hne : (s₃.procs (blockAddr b)).fileType = PROCESS_FILE_TYPE_ELF := by rw [hproc₃]; exact htype
      rw [processMapImage, hne, if_neg (by decide), if_pos rfl, hfile₃]
    have hresult := hmap s₃.words (s₃.tasks t).pageDir
    rw [← hmem₃] at hresult
    simp only [processMapMemory, hdir, himage, bind, Except.bind]
    rw [hresult]
    split
    · exact ⟨_, rfl⟩
    · exact ⟨_, rfl⟩
  refine ⟨{ s₃ with words := words₃ }, hmem₃, by rw [hproc₃]; exact htype, hfile₃, by rw [hs₃]; exact htail₂, ?_,
    ?_, processLoadSlotWith_eq hprep hnew htne (hs₃ ▸ hmap₃)⟩
  · rw [hs₃]
    exact hp₂
  · rw [hs₃, hs₂]
    exact { hocc₁ with }

end

/-! ## 小さなファイルのあるボリューム -/

/-- クラスタ 2 から始まる、88 バイトのファイル `A`。 -/
def imageItem : FatDirItem where
  bytes := 0x41 :: List.replicate 11 0x20 ++ List.replicate 14 0 ++ [2, 0] ++ [88, 0, 0, 0]
  length_eq := rfl

/-- ファイル `A` の内容が `image` であるディスク。 -/
def imageDisk (image : List Byte) : Disk := smallDisk fun p =>
  if p = 516 ∨ p = 517 then 0xFF
  else if 1024 ≤ p ∧ p < 1056 then byteAt imageItem.bytes (p - 1024)
  else if 1536 ≤ p then byteAt image (p - 1536) else 0

/-- `"0:/A"` -/
def imageName : List Byte := [0x30, 0x3A, 0x2F, 0x41]

theorem imageDisk_root (image : List Byte) : RootTerminated (imageDisk image) smallHeader 1 := by
  refine smallDisk_root (by decide) ?_ rfl
  intro j hj
  obtain rfl : j = 0 := by omega
  show (0x41 : Byte) ≠ 0
  decide

theorem imageItem_chain (v : Volume) : v.IsChain (fat16GetFirstCluster imageItem).toNat [2] where
  head := rfl
  next := by
    intro i c c' hi hi'
    cases hi'
  range := by decide
  nodup := by decide

section

variable {image : List Byte} {v : Volume} (hv : v.disk = imageDisk image)
include hv

theorem imageDisk_fileBytes (hlen : image.length = 88) : v.fileBytes imageItem [2] = image := by
  have hspc : v.sectPerCluster ≠ 0 := by rw [Volume.small_sectPerCluster hv]; decide
  have hsize : imageItem.fileSize.toNat = 88 := rfl
  rw [fileBytes_eq hspc (imageItem_chain v) (by rw [Volume.small_clusterSize hv]; decide), hsize]
  have hbyte : ∀ k < 88, v.disk.byte (v.filePos (fat16GetFirstCluster imageItem).toNat k) = byteAt image k := by
    intro k hk
    have hpos : v.filePos (fat16GetFirstCluster imageItem).toNat k = 1536 + k := by
      rw [Volume.filePos, Volume.small_clusterSize hv, Nat.div_eq_of_lt (by omega), Nat.mod_eq_of_lt (by omega),
        Volume.cluster_zero, Volume.small_clusterPos hv]
      rfl
    rw [hpos, hv, imageDisk, smallDisk_byte (by omega) (by omega), if_neg (by omega), if_neg (by omega),
      if_pos (by omega), Nat.add_sub_cancel_left]
  rw [List.map_congr_left (g := fun k => byteAt image k) (fun k hk => hbyte k (List.mem_range.1 hk))]
  apply List.ext_getElem
  · simp [hlen]
  · intro k h1 h2
    rw [List.getElem_map, List.getElem_range, byteAt, List.getD_eq_getElem?_getD, List.getElem?_eq_getElem h2]
    rfl

theorem imageDisk_rootFile : RootFile v [0x41] imageItem [2] := by
  have hroot : RootTerminated v.disk v.priv.header 1 := by
    rw [Volume.small_header hv, hv]
    exact imageDisk_root image
  have hitem : v.rootItem 0 = imageItem := by
    apply FatDirItem.eq_of_bytes
    rw [small_rootItem hv (show 0 < 16 by decide)]
    rfl
  have htotal : v.priv.root.total.toNat = 1 := by
    rw [Volume.root_total hroot, Int.toNat_natCast]
    show v.liveCount 1 = 1
    rw [v.liveCount_succ, hitem]
    rfl
  have hentries : v.rootEntries = 16 := by
    rw [Volume.rootEntries, Volume.small_header hv]
    rfl
  have honly : OnlyAt v [0x41] v.priv.root.total.toNat 0 := by
    rw [htotal]
    refine ⟨by decide, ?_, by omega, ?_⟩
    · rw [NameAt, hitem]
      decide
    · rw [hitem]
      decide
  refine ⟨⟨1, 0, hroot, honly, by omega, hitem⟩, by decide, by decide, by decide, by decide, ?_, imageItem_chain v,
    by decide, ?_, ?_⟩
  · rw [Volume.small_sectPerCluster hv]
    decide
  · rw [Volume.small_clusterSize hv]
    decide
  · intro c hc
    rw [Volume.small_clusterSize hv, Volume.small_clusterPos hv]
    simp only [List.mem_singleton] at hc
    omega

/-- 本体とスタックになる領域が、埋める前からゼロなら、メモリの変化はファイルの内容だけである。 -/
theorem imageDisk_load (hlen : image.length = 88) {s : Kernel} (hdisk : s.disk = v.disk) (hpriv : s.priv = some v.priv)
    {b i : Nat} (hp : Packed s.heap b) (hroom : b + 1043 ≤ 25600)
    (hslot : fileFreeSlot s.toFileState ENKI_MAX_FILE_DESCRIPTORS 0 = some i) (hi : i < 511) {slot : Int}
    (hfree : processGet s slot = 0) (hlinks : s.taskTail = 0 → s.taskHead = 0)
    (hzero : ∀ x, (x - blockAddr (b + 11)).toNat < 5 * 4096 → s.mem x = 0) {file : ElfFile}
    (haccept : elfProcessLoaded (s.mem.write (blockAddr (b + 11)) image) { elfMemory := blockAddr (b + 11) } = (0, file))
    (depth : Nat) {result : Int}
    (hmap : ∀ words dir, (processMapElf (s.mem.write (blockAddr (b + 11)) image) words dir file).1 = result) :
    ∃ s', s'.mem = s.mem.write (blockAddr (b + 11)) image ∧
      (s'.procs (blockAddr b)).fileType = PROCESS_FILE_TYPE_ELF ∧ s'.elfFiles (s'.procs (blockAddr b)).addr = file ∧
      s'.taskTail = blockAddr (b + 16) ∧ Packed s'.heap (b + 1043) ∧ Occupied s.toFileState s'.toFileState i ∧
      processLoadSlot depth s imageName slot = .ok (if result < 0 then (result, 0, s')
        else (result, blockAddr b, { s' with processes := fun i => if i = slot then blockAddr b else s'.processes i })) := by
  have hsize : imageItem.fileSize.toNat = 88 := rfl
  have hbytes := imageDisk_fileBytes hv hlen
  have hmem₁ : (s.mem.zero (blockAddr (b + 11)) 88).write (blockAddr (b + 11)) image =
      s.mem.write (blockAddr (b + 11)) image := by
    rw [Memory.zero_of_zero fun x hx => hzero x (by omega)]
  have hmem₂ : (s.mem.write (blockAddr (b + 11)) image).zero (blockAddr (b + 12)) 16384 =
      s.mem.write (blockAddr (b + 11)) image := by
    apply Memory.zero_of_zero
    intro x hx
    have hnext : x - blockAddr (b + 11) = x - blockAddr (b + 12) + 4096 := by
      rw [blockAddr, blockAddr, show (b + 12) * 4096 = (b + 11) * 4096 + 4096 by omega, BitVec.ofNat_add]
      bv_omega
    have hpage : (4096 : Word).toNat = 4096 := rfl
    have hsum : (x - blockAddr (b + 11)).toNat = (x - blockAddr (b + 12)).toNat + 4096 := by
      rw [hnext, BitVec.toNat_add, hpage]
      exact Nat.mod_eq_of_lt (by omega)
    rw [Memory.write_other _ _ (by rw [hsum, hlen]; omega)]
    exact hzero x (by omega)
  have haccept' : elfProcessLoaded ((s.mem.zero (blockAddr (b + 11)) imageItem.fileSize.toNat).write (blockAddr (b + 11))
      (v.fileBytes imageItem [2])) { elfMemory := blockAddr (b + 11) } = (0, file) := by
    rw [hbytes, hsize, hmem₁]
    exact haccept
  have hblock : (imageItem.fileSize.toNat + 4095) / 4096 = 1 := rfl
  have hload := processLoadSlot_packed (imageDisk_rootFile hv) hdisk hpriv hp (by rw [hblock]; omega) hslot hi hfree
    (by rw [hbytes, hblock, hsize, hmem₁]; exact hmem₂) haccept' depth (by rw [hblock]; omega) hlinks hmap
  rw [hblock] at hload
  exact hload

/-! ## 起動の直後の読み込み -/

/-- ファイルの本体だけが書かれたメモリ。 -/
def bootImage (image : List Byte) : Memory := Memory.write (fun _ => 0) (blockAddr 11) image

/-- 起動の直後に `A` を読み込むと、記録は番号 0、本体は 11、スタックは 12、タスクは 16 のブロックにできる。 -/
theorem boot_load (hlen : image.length = 88) {file : ElfFile}
    (haccept : elfProcessLoaded (bootImage image) { elfMemory := blockAddr 11 } = (0, file)) (depth : Nat) {result : Int}
    (hmap : ∀ words dir, (processMapElf (bootImage image) words dir file).1 = result) :
    ∃ s, s.mem = bootImage image ∧ (s.procs (blockAddr 0)).fileType = PROCESS_FILE_TYPE_ELF ∧
      s.elfFiles (s.procs (blockAddr 0)).addr = file ∧ s.taskTail = blockAddr 16 ∧
      processLoadSlot depth (Kernel.boot (stateWith v 0)) imageName 0 = .ok (if result < 0 then (result, 0, s)
        else (result, blockAddr 0, { s with processes := fun i => if i = 0 then blockAddr 0 else s.processes i })) := by
  obtain ⟨s, hmem, htype, hfile, htail, -, -, hload⟩ := imageDisk_load hv hlen (s := Kernel.boot (stateWith v 0)) rfl rfl
    bootHeap_packed (by decide) (stateWith_freeSlot v (by decide)) (by decide)
    (show processGet (Kernel.boot (stateWith v 0)) 0 = 0 from rfl) (fun _ => rfl) (fun _ _ => rfl) haccept depth hmap
  exact ⟨s, hmem, htype, hfile, htail, hload⟩

end

end EnkiOs
