import EnkiOs.Fs.Stray
import EnkiOs.Paging.Fresh
import EnkiOs.Process.LoaderTheorems
import EnkiOs.Process.Leak
import EnkiOs.Process.Registry

/-!
# 読み込みと、塞がっていたブロック

読み込みは、前から塞がっていたブロックに触れない。成功した読み込みの記録、本体、スタック、タスク、ページの表は、どれも
空いていたブロックにある。
-/

namespace EnkiOs
open Machine

variable {s s' s₁ : Kernel} {fileName : List Byte} {slot result : Int} {proc elfFile p : Word}

/-! ## 触れないもの -/

/-- 状態コードをポインタとして読んだ先には、開いたファイルが無い。 -/
def Stray (s : FileState) : Prop := ∀ a, IsErrorPointer a → (s.fatFiles a).item = ⟨0, .file none⟩

/-- 前から塞がっていたブロックと、そこにある `struct elf_file` が変わらない。 -/
structure Shelters (s s' : Kernel) : Prop where
  heap : Shielded (Taken s.heap) s.heap s'.heap
  tidy : Tidy s'.heap
  fatFiles : ∀ a, IsErrorPointer a → s'.fatFiles a = s.fatFiles a
  elfFiles : ∀ b < 25600, Taken s.heap b → s'.elfFiles (blockAddr b) = s.elfFiles (blockAddr b)

theorem Shelters.trans (h₁ : Shelters s s₁) (h₂ : Shelters s₁ s') : Shelters s s' where
  heap := h₁.heap.trans h₂.heap
  tidy := h₂.tidy
  fatFiles a ha := (h₂.fatFiles a ha).trans (h₁.fatFiles a ha)
  elfFiles b hb htaken := (h₂.elfFiles b hb (h₁.heap.taken hb htaken)).trans (h₁.elfFiles b hb htaken)

theorem Shelters.stray (h : Shelters s s') (hstray : Stray s.toFileState) : Stray s'.toFileState := by
  intro a ha
  rw [h.fatFiles a ha]
  exact hstray a ha

theorem outside_error {keep : Nat → Prop} {a : Word} (ha : IsErrorPointer a) : Outside keep a := by
  left
  rcases ha with rfl | rfl | rfl
  · decide
  · decide
  · decide

theorem Stray.safe {fs : FileState} (h : Stray fs) (keep : Nat → Prop) : StraySafe (Outside keep) fs := by
  intro a ha
  rw [h a ha]
  exact ⟨outside_error ha, .inl (Int.le_of_eq blockOf_zero), trivial⟩

/-- 囲ったブロックに触れないことと、空いたブロックの形が、ともに保たれる。 -/
theorem shieldedTidy_kept {keep : Nat → Prop} {h₀ : Heap} (htaken : ∀ b < 25600, keep b → h₀.table.freeAt b = false) :
    HeapKept (fun h => Shielded keep h₀ h ∧ Tidy h) (Outside keep) where
  null := (shielded_kept htaken).null
  kzalloc n hp :=
    ⟨⟨((shielded_kept htaken).kzalloc n hp.1).1, (tidy_kept.kzalloc n hp.2).1⟩, ((shielded_kept htaken).kzalloc n hp.1).2⟩
  kfree hp ha := ⟨(shielded_kept htaken).kfree hp.1 ha, tidy_kept.kfree hp.2 trivial⟩

theorem shelter_kept (h₀ : Heap) : HeapKept (fun h => Shielded (Taken h₀) h₀ h ∧ Tidy h) (Outside (Taken h₀)) :=
  shieldedTidy_kept fun _ _ hb => hb

namespace Shelters

theorem refl (ht : Tidy s.heap) : Shelters s s := ⟨ht.shielded, ht, fun _ _ => rfl, fun _ _ _ => rfl⟩

theorem kept (h : Shelters s s₁) : Shielded (Taken s.heap) s.heap s₁.heap ∧ Tidy s₁.heap := ⟨h.heap, h.tidy⟩

/-- ヒープと、開いたファイル、`struct elf_file` のほかは、変わってよい。 -/
theorem congr (h : Shelters s s₁) (hheap : s'.heap = s₁.heap) (hfat : s'.fatFiles = s₁.fatFiles)
    (hfiles : s'.elfFiles = s₁.elfFiles) : Shelters s s' where
  heap := hheap ▸ h.heap
  tidy := hheap ▸ h.tidy
  fatFiles a ha := by
    rw [hfat]
    exact h.fatFiles a ha
  elfFiles b hb htaken := by
    rw [hfiles]
    exact h.elfFiles b hb htaken

theorem kzalloc {n : Nat} {heap : Heap} (h : Shelters s s₁) (hk : EnkiOs.kzalloc s₁.heap n = (p, heap)) :
    Shelters s (s₁.setHeap heap) ∧ Outside (Taken s.heap) p := by
  obtain ⟨hheap, hout⟩ := (shelter_kept s.heap).kzalloc n h.kept
  rw [hk] at hheap hout
  exact ⟨⟨hheap.1, hheap.2, h.fatFiles, h.elfFiles⟩, hout⟩

theorem kfree (h : Shelters s s₁) (hp : Outside (Taken s.heap) p) : Shelters s (s₁.setHeap (EnkiOs.kfree s₁.heap p)) := by
  obtain ⟨h1, h2⟩ := (shelter_kept s.heap).kfree h.kept hp
  exact ⟨h1, h2, h.fatFiles, h.elfFiles⟩

theorem setElfFile (h : Shelters s s₁) (hp : Outside (Taken s.heap) p) (file : ElfFile) :
    Shelters s (s₁.setElfFile p file) where
  heap := h.heap
  tidy := h.tidy
  fatFiles := h.fatFiles
  elfFiles b hb htaken := by
    have hne : blockAddr b ≠ p := by
      rintro rfl
      rcases hp with hfar | ⟨c, hc, he, hfree⟩
      · rw [blockOf_blockAddr (Nat.le_of_lt hb)] at hfar
        omega
      · obtain rfl := blockAddr_inj (Nat.le_of_lt hb) (Nat.le_of_lt hc) he
        exact hfree htaken
    rw [Kernel.setElfFile]
    simp only
    rw [if_neg hne]
    exact h.elfFiles b hb htaken

theorem kzallocBytes {size : Word} (h : Shelters s s₁) (hk : EnkiOs.kzallocBytes s₁ size = (p, s')) :
    Shelters s s' ∧ Outside (Taken s.heap) p ∧ ∃ heap mem, s' = { s₁ with heap := heap, mem := mem } := by
  obtain ⟨hheap, hout, heap, mem, rfl⟩ :=
    kzallocBytes_kept (shelter_kept s.heap) (fun n hp => ((shelter_kept s.heap).kzalloc n hp).2) h.kept hk
  exact ⟨⟨hheap.1, hheap.2, h.fatFiles, h.elfFiles⟩, hout, heap, mem, rfl⟩

theorem fopen {mode : List Byte} {fd : Int} {fs : FileState} (h : Shelters s s₁) (hstray : Stray s.toFileState)
    (hopen : EnkiOs.fopen s₁.toFileState fileName mode = .ok (fd, fs)) :
    Shelters s { s₁ with toFileState := fs } ∧ Closable (Outside (Taken s.heap)) fs fd := by
  obtain ⟨hheap, -, hclose⟩ := fopen_kept (shelter_kept s.heap) h.kept ((h.stray hstray).safe _) hopen
  refine ⟨⟨hheap.1, hheap.2, ?_, h.elfFiles⟩, hclose⟩
  intro a ha
  exact (fopen_fatFiles h.tidy.toKernelHeap ha hopen).trans (h.fatFiles a ha)

theorem fread {buf size blocks : Word} {fd : Int} {fs : FileState} (h : Shelters s s₁)
    (hread : EnkiOs.fread s₁.toFileState buf size blocks fd = .ok (result, fs)) : Shelters s { s₁ with toFileState := fs } := by
  obtain ⟨mem, rfl⟩ := fread_heap hread
  exact h.congr rfl rfl rfl

theorem fclose {fd : Int} (h : Shelters s s₁) (hclose : Closable (Outside (Taken s.heap)) s₁.toFileState fd) :
    Shelters s { s₁ with toFileState := (EnkiOs.fclose s₁.toFileState fd).2 } := by
  obtain ⟨h1, h2⟩ := fclose_kept (shelter_kept s.heap) h.kept hclose
  refine ⟨h1, h2, ?_, h.elfFiles⟩
  intro a ha
  rw [fclose_fatFiles]
  exact h.fatFiles a ha

end Shelters

/-! ## 本体の読み込み -/

/-- ELF ファイルの読み込みは、失敗しても、塞がっていたブロックに触れない。 -/
theorem elfLoad_shelters (ht : Tidy s.heap) (hstray : Stray s.toFileState)
    (h : elfLoad s fileName = .ok (result, elfFile, s')) : Shelters s s' := by
  obtain ⟨p, heap₁, fd, fs, hmade, hopen, hopened⟩ := elfLoad_path h
  obtain ⟨h₁, hout⟩ := (Shelters.refl ht).kzalloc hmade
  replace h₁ := h₁.setElfFile hout {}
  obtain ⟨h₂, hclose⟩ := h₁.fopen hstray hopen
  cases hopened with
  | unopened => exact h₂.fclose fun hne => absurd rfl hne
  | unknown => exact h₂.fclose hclose
  | known _ _ _ hk hread hend =>
      obtain ⟨h₃, -, heap₃, mem₃, rfl⟩ := h₂.kzallocBytes hk
      have h₄ := h₃.fread hread
      obtain ⟨mem₄, rfl⟩ := fread_heap hread
      cases hend with
      | unread => exact (h₄.setElfFile hout _).fclose hclose
      | refused => exact ((h₄.setElfFile hout _).setElfFile hout _).fclose hclose
      | loaded => exact (h₄.setElfFile hout _).setElfFile hout _

/-- 割り当ての後も塞がったブロックに触れなければ、割り当ては残っている。 -/
theorem Made.kept {n : Nat} {heap : Heap} (hk : KernelHeap s.heap) (hpos : 0 < n) (hle : n ≤ 0xFFFFF000)
    (hmade : kzalloc s.heap n = (p, heap)) (hne : p ≠ 0) (hheap : s₁.heap = heap) (hlater : Shelters s₁ s') :
    Made s.heap s'.heap p :=
  (hk.made hpos hle hmade hne).shielded (hheap ▸ hlater.heap)

theorem kzallocBytes_made {size : Word} (hk : kzallocBytes s size = (p, s')) : kzalloc s.heap size.toNat = (p, s'.heap) := by
  simp only [kzallocBytes] at hk
  split at hk
  · rename_i h0
    cases hk
    exact Prod.ext h0 rfl
  · cases hk
    rfl

/-- 成功した読み込みの `struct elf_file` と本体は、新しい割り当てである。 -/
theorem elfLoad_made (ht : Tidy s.heap) (hstray : Stray s.toFileState)
    (h : elfLoad s fileName = .ok (result, elfFile, s')) (hresult : 0 ≤ result) :
    Made s.heap s'.heap elfFile ∧ Made s.heap s'.heap (s'.elfFiles elfFile).elfMemory := by
  obtain ⟨p, heap₁, fd, fs, hmade, hopen, hopened⟩ := elfLoad_path h
  have h₁ := ((Shelters.refl ht).kzalloc hmade).1
  obtain ⟨s₁, hs₁⟩ : ∃ s₁, (s.setHeap heap₁).setElfFile p {} = s₁ := ⟨_, rfl⟩
  have hheap₁ : s₁.heap = heap₁ := by
    rw [← hs₁]
    rfl
  have hstray₁ : Stray s₁.toFileState := by
    rw [← hs₁]
    exact h₁.stray hstray
  have hnew : Shelters s₁ s₁ := by
    refine .refl ?_
    rw [hheap₁]
    exact h₁.tidy
  rw [hs₁] at hopen hopened
  have h₂ := (hnew.fopen hstray₁ hopen).1
  generalize hs₂ : { s₁ with toFileState := fs } = s₂ at hopened h₂
  cases hopened with
  | unopened => exact absurd hresult (by decide)
  | unknown _ hstat => exact absurd hresult (Int.not_le.2 (fstat_error_neg hstat))
  | @known stat memory s₃ code _ _ _ _ _ _ hp hk hread hend =>
      have h₃ := (h₂.kzallocBytes hk).1
      obtain ⟨mem₄, rfl⟩ := fread_heap hread
      cases hend with
      | unread => omega
      | refused => omega
      | loaded hcode hmemory hge =>
          have hneg := elfProcessLoaded_neg_iff mem₄ (elfReadFile s₃ elfFile memory)
          have hvalid := not_not.1 (mt hneg.2 (Int.not_lt.2 hge))
          have hsize : stat.fileSize.toNat ≤ 0xFFFFF000 := elf_size_le hk hmemory hread hvalid
          have hpos : 0 < stat.fileSize.toNat := by
            rw [Nat.pos_iff_ne_zero]
            intro h0
            exact fread_size_ne hread hcode (BitVec.eq_of_toNat_eq h0)
          have hfile : Made s.heap s₃.heap elfFile := .kept ht.toKernelHeap (by decide) (by decide) hmade hp hheap₁ h₃
          have hbody : Made s₂.heap s₃.heap memory :=
            .kept h₂.tidy.toKernelHeap hpos hsize (kzallocBytes_made hk) hmemory rfl (.refl h₃.tidy)
          refine ⟨hfile, ?_⟩
          simp only [Kernel.setElfFile, if_true]
          rw [elfProcessLoaded_memory]
          exact hbody.later (h₁.heap.trans (hheap₁ ▸ h₂.heap))

theorem processLoadElf_shelters (ht : Tidy s.heap) (hstray : Stray s.toFileState)
    (h : processLoadElf s fileName proc = .ok (result, s')) : Shelters s s' := by
  obtain ⟨⟨code, addr, s₁⟩, hload, h⟩ := bind_ok.1 h
  have h₁ := elfLoad_shelters ht hstray hload
  simp only at h
  split at h
  · cases h
    exact h₁
  · cases h
    exact h₁.congr rfl rfl rfl

theorem processLoadBin_shelters (ht : Tidy s.heap) (hstray : Stray s.toFileState)
    (h : processLoadBin s fileName proc = .ok (result, s')) : Shelters s s' := by
  obtain ⟨fd, fs, hopen, hopened⟩ := processLoadBin_path h
  obtain ⟨h₁, hclose⟩ := (Shelters.refl ht).fopen hstray hopen
  cases hopened with
  | unopened => exact h₁
  | unknown => exact h₁.fclose hclose
  | unallocated _ _ hk =>
      obtain ⟨h₂, -, heap₂, mem₂, rfl⟩ := h₁.kzallocBytes hk
      exact h₂.fclose hclose
  | unread _ _ hk _ hread =>
      obtain ⟨h₂, hout, heap₂, mem₂, rfl⟩ := h₁.kzallocBytes hk
      have h₃ := h₂.fread hread
      obtain ⟨mem₃, rfl⟩ := fread_heap hread
      exact (h₃.kfree hout).fclose hclose
  | loaded _ _ hk _ hread =>
      obtain ⟨h₂, -, heap₂, mem₂, rfl⟩ := h₁.kzallocBytes hk
      have h₃ := h₂.fread hread
      obtain ⟨mem₃, rfl⟩ := fread_heap hread
      exact h₃.congr rfl rfl rfl

theorem processLoadData_shelters (ht : Tidy s.heap) (hstray : Stray s.toFileState)
    (h : processLoadData s fileName proc = .ok (result, s')) : Shelters s s' := by
  obtain ⟨⟨code, s₁⟩, helf, h⟩ := bind_ok.1 h
  have h₁ := processLoadElf_shelters ht hstray helf
  simp only at h
  split at h
  · exact h₁.trans (processLoadBin_shelters h₁.tidy (h₁.stray hstray) h)
  · cases h
    exact h₁

/-- 平らなバイナリの本体の領域が、アドレス空間の終わりを越えて先頭に戻らない。FAT16 のボリュームに収まるファイルは、
どれもこれより小さい。戻る大きさでは、割り当てのときの `memset` がカーネルのコードとデータを消すので、実機では読み込みが
返らない。ここではバイトの領域を構造体と分けて持つので、返った読み込みについての仮定として書く。 -/
def ImageFits (p : Process) : Prop := p.fileType = PROCESS_FILE_TYPE_BIN → p.addr.toNat + p.size.toNat ≤ 2 ^ 32

/-- 本体は新しい割り当てである。 -/
def ImageMade (h₀ : Heap) (s : Kernel) (proc : Word) : Prop :=
  Made h₀ s.heap (s.procs proc).addr ∧ ((s.procs proc).fileType = PROCESS_FILE_TYPE_BIN ∨
    (s.procs proc).fileType = PROCESS_FILE_TYPE_ELF ∧ Made h₀ s.heap (s.elfFiles (s.procs proc).addr).elfMemory)

theorem processLoadElf_made (ht : Tidy s.heap) (hstray : Stray s.toFileState)
    (h : processLoadElf s fileName proc = .ok (result, s')) (hresult : 0 ≤ result) : ImageMade s.heap s' proc := by
  obtain ⟨⟨code, addr, s₁⟩, hload, h⟩ := bind_ok.1 h
  simp only at h
  split at h
  · cases h
    omega
  · cases h
    obtain ⟨hfile, hbody⟩ := elfLoad_made ht hstray hload hresult
    simp only [ImageMade, Kernel.setProc, if_true]
    exact ⟨hfile, .inr ⟨trivial, hbody⟩⟩

theorem processLoadBin_made (ht : Tidy s.heap) (hstray : Stray s.toFileState)
    (h : processLoadBin s fileName proc = .ok (result, s')) (hresult : 0 ≤ result) (hfits : ImageFits (s'.procs proc)) :
    ImageMade s.heap s' proc := by
  obtain ⟨fd, fs, hopen, hopened⟩ := processLoadBin_path h
  have h₁ := ((Shelters.refl ht).fopen hstray hopen).1
  generalize hs₁ : { s with toFileState := fs } = s₁ at hopened h₁
  cases hopened with
  | unopened => exact absurd hresult (by decide)
  | unknown _ hstat => exact absurd hresult (Int.not_le.2 (fstat_error_neg hstat))
  | unallocated => exact absurd hresult (by decide)
  | unread => exact absurd hresult (by decide)
  | @loaded stat data s₂ _ _ _ hk hdata hread =>
      have h₂ := ((Shelters.refl h₁.tidy).kzallocBytes hk).1
      obtain ⟨mem₃, rfl⟩ := fread_heap hread
      have hmade := kzallocBytes_made hk
      have hfits : data.toNat + stat.fileSize.toNat ≤ 2 ^ 32 := by simpa [ImageFits, Kernel.setProc] using hfits
      have hsize : stat.fileSize.toNat ≤ 0xFFFFF000 := by
        rcases h₁.tidy.kzalloc_cases stat.fileSize.toNat with h0 | ⟨b, m, hb, heq, -⟩
        · rw [h0] at hmade
          exact absurd (Prod.mk.inj hmade).1.symm hdata
        · rw [heq] at hmade
          obtain ⟨rfl, -⟩ := Prod.mk.inj hmade
          have hto := blockAddr_toNat (Nat.le_of_lt hb.lt)
          omega
      have hpos : 0 < stat.fileSize.toNat := by
        rw [Nat.pos_iff_ne_zero]
        intro h0
        exact fread_size_ne hread (by decide) (BitVec.eq_of_toNat_eq h0)
      have hbody : Made s₁.heap s₂.heap data := .kept h₁.tidy.toKernelHeap hpos hsize hmade hdata rfl (.refl h₂.tidy)
      simp only [ImageMade, Kernel.setProc, if_true]
      exact ⟨hbody.later h₁.heap, .inl trivial⟩

theorem processLoadData_made (ht : Tidy s.heap) (hstray : Stray s.toFileState)
    (h : processLoadData s fileName proc = .ok (result, s')) (hresult : 0 ≤ result) (hfits : ImageFits (s'.procs proc)) :
    ImageMade s.heap s' proc := by
  obtain ⟨⟨code, s₁⟩, helf, h⟩ := bind_ok.1 h
  have h₁ := processLoadElf_shelters ht hstray helf
  simp only at h
  split at h
  · obtain ⟨haddr, htype⟩ := processLoadBin_made h₁.tidy (h₁.stray hstray) h hresult hfits
    exact ⟨haddr.later h₁.heap, htype.imp id fun hbody => ⟨hbody.1, hbody.2.later h₁.heap⟩⟩
  · cases h
    exact processLoadElf_made ht hstray helf hresult

end EnkiOs
