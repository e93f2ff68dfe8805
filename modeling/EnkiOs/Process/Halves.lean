import EnkiOs.Process.Acts

/-!
# 見せるブロックと見せないブロック

プロセスのブロックは、プログラムの書き込める本体とスタックと、カーネルだけが使う記録、タスク、ページの表に分かれる。
読み込みは、どちらにも空いたブロックだけを渡し、二つは重ならない。
-/

namespace EnkiOs
open Machine

variable {h₀ h₁ h h' : Heap} {S G T : Word → Prop} {own own' hidden ground : Nat → Prop} {a p proc : Word} {b c m : Nat}
  {s s' s₁ : Kernel} {fileName : List Byte} {result : Int}

/-! ## 割り当ての範囲 -/

/-- ブロック `b` は、アドレス `a` から始まる割り当てに属する。 -/
def InAllocation (h : Heap) (a : Word) (b : Nat) : Prop :=
  ∃ c ≤ b, b < 25600 ∧ a = blockAddr c ∧ ∀ j, c ≤ j → j < b → h.table.entries j &&& HEAP_BLOCK_HAS_NEXT ≠ 0

namespace Closed

/-- 閉じた集まりの中から始まる割り当ては、集まりの中にある。 -/
theorem inAllocation (hc : Closed h own) (ha : ∃ b, own b ∧ a = blockAddr b) (hb : InAllocation h a b) : own b := by
  obtain ⟨d, hd, rfl⟩ := ha
  obtain ⟨c, hle, hlt, heq, hnext⟩ := hb
  have hdlt := (hc.taken d hd).1
  obtain rfl := blockAddr_inj (Nat.le_of_lt hdlt) (by omega) heq
  induction hle with
  | refl => exact hd
  | @step b hle ih =>
      have hown := ih (by omega) fun j h1 h2 => hnext j h1 (by omega)
      exact hc.next b hown hlt (hnext b hle (by omega))

theorem later (hc : Closed h own) (hs : Shielded (Taken h) h h') : Closed h' own :=
  hc.congr fun b hb => hs.same b (hc.taken b hb).1 (hc.taken b hb).2

theorem or (h₁ : Closed h own) (h₂ : Closed h own') : Closed h fun b => own b ∨ own' b where
  taken b hb := hb.elim (h₁.taken b) (h₂.taken b)
  next b hb hlt hnext := hb.imp (fun hb => h₁.next b hb hlt hnext) fun hb => h₂.next b hb hlt hnext

end Closed

namespace Extent

theorem free (hb : Extent h₀ h a b) : b < 25600 ∧ h₀.table.freeAt b = true := by
  obtain ⟨c, m, -, hm, h1, h2, h3⟩ := hb
  exact ⟨h3, hm.fresh b h1 h2 h3⟩

theorem closed (h₀ h : Heap) (T : Word → Prop) : Closed h fun b => ∃ a, T a ∧ Extent h₀ h a b where
  taken := by
    rintro b ⟨a, -, c, m, -, hm, h1, h2, h3⟩
    exact hm.closed.taken b ⟨h1, h2, h3⟩
  next := by
    rintro b ⟨a, ha, c, m, heq, hm, h1, h2, h3⟩ hlt hnext
    obtain ⟨h1, h2, h3⟩ := hm.closed.next b ⟨h1, h2, h3⟩ hlt hnext
    exact ⟨a, ha, c, m, heq, hm, h1, h2, h3⟩

theorem shielded (hb : Extent h₀ h a b) (hs : Shielded (Taken h) h h') : Extent h₀ h' a b := by
  obtain ⟨c, m, heq, hm, hrange⟩ := hb
  exact ⟨c, m, heq, hm.shielded hs, hrange⟩

theorem later (hb : Extent h h' a b) (hs : Shielded (Taken h₀) h₀ h) : Extent h₀ h' a b := by
  obtain ⟨c, m, heq, hm, hrange⟩ := hb
  exact ⟨c, m, heq, hm.later hs, hrange⟩

end Extent

/-! ## 二つの集まり -/

/-- 見せないアドレス `S` から始まる割り当てと、見せるアドレス `G` から始まる割り当て。どちらも `h₀` では空いていた。 -/
structure Halves (h₀ h : Heap) (S G : Word → Prop) (hidden ground : Nat → Prop) : Prop where
  shielded : Shielded (Taken h₀) h₀ h
  hiddenClosed : Closed h hidden
  groundClosed : Closed h ground
  apart : ∀ b, hidden b → ¬ground b
  hiddenIn : ∀ b, hidden b → ∃ a, S a ∧ Extent h₀ h a b
  groundIn : ∀ b, ground b → ∃ a, G a ∧ Extent h₀ h a b
  secret : ∀ a, S a → ∃ b, hidden b ∧ a = blockAddr b
  exposed : ∀ a, G a → ∃ b, ground b ∧ a = blockAddr b

namespace Halves

theorem start (ht : Tidy h) : Halves h h (fun _ => False) (fun _ => False) (fun _ => False) fun _ => False where
  shielded := ht.shielded
  hiddenClosed := ⟨fun _ hb => hb.elim, fun _ hb => hb.elim⟩
  groundClosed := ⟨fun _ hb => hb.elim, fun _ hb => hb.elim⟩
  apart _ hb := hb.elim
  hiddenIn _ hb := hb.elim
  groundIn _ hb := hb.elim
  secret _ ha := ha.elim
  exposed _ ha := ha.elim

theorem swap (hh : Halves h₀ h S G hidden ground) : Halves h₀ h G S ground hidden where
  shielded := hh.shielded
  hiddenClosed := hh.groundClosed
  groundClosed := hh.hiddenClosed
  apart b hb hb' := hh.apart b hb' hb
  hiddenIn := hh.groundIn
  groundIn := hh.hiddenIn
  secret := hh.exposed
  exposed := hh.secret

/-- 新しい割り当てを、見せないものに加える。 -/
theorem hide (hh : Halves h₀ h S G hidden ground) (hs : Shielded (Taken h) h h') (hmade : ∀ a, T a → Made h h' a) :
    Halves h₀ h' (fun a => S a ∨ T a) G (fun b => hidden b ∨ ∃ a, T a ∧ Extent h h' a b) ground where
  shielded := hh.shielded.trans hs
  hiddenClosed := (hh.hiddenClosed.later hs).or (Extent.closed h h' T)
  groundClosed := hh.groundClosed.later hs
  apart := by
    rintro b (hb | ⟨a, -, hb⟩) hground
    · exact hh.apart b hb hground
    · have htaken := (hh.groundClosed.taken b hground).2
      rw [Taken, hb.free.2] at htaken
      cases htaken
  hiddenIn := by
    rintro b (hb | ⟨a, ha, hb⟩)
    · obtain ⟨a, ha, hb⟩ := hh.hiddenIn b hb
      exact ⟨a, .inl ha, hb.shielded hs⟩
    · exact ⟨a, .inr ha, hb.later hh.shielded⟩
  groundIn b hb := by
    obtain ⟨a, ha, hb⟩ := hh.groundIn b hb
    exact ⟨a, ha, hb.shielded hs⟩
  secret := by
    rintro a (ha | ha)
    · obtain ⟨b, hb, heq⟩ := hh.secret a ha
      exact ⟨b, .inl hb, heq⟩
    · obtain ⟨b, hb, heq⟩ := (hmade a ha).extent
      exact ⟨b, .inr ⟨a, ha, hb⟩, heq⟩
  exposed := hh.exposed

/-- 新しい割り当てを、見せるものに加える。 -/
theorem expose (hh : Halves h₀ h S G hidden ground) (hs : Shielded (Taken h) h h') (hmade : ∀ a, T a → Made h h' a) :
    Halves h₀ h' S (fun a => G a ∨ T a) hidden fun b => ground b ∨ ∃ a, T a ∧ Extent h h' a b :=
  (hh.swap.hide hs hmade).swap

/-- どちらにも加えない変化。 -/
theorem later (hh : Halves h₀ h S G hidden ground) (hs : Shielded (Taken h) h h') : Halves h₀ h' S G hidden ground where
  shielded := hh.shielded.trans hs
  hiddenClosed := hh.hiddenClosed.later hs
  groundClosed := hh.groundClosed.later hs
  apart := hh.apart
  hiddenIn b hb := by
    obtain ⟨a, ha, hb⟩ := hh.hiddenIn b hb
    exact ⟨a, ha, hb.shielded hs⟩
  groundIn b hb := by
    obtain ⟨a, ha, hb⟩ := hh.groundIn b hb
    exact ⟨a, ha, hb.shielded hs⟩
  secret := hh.secret
  exposed := hh.exposed

theorem congr (hh : Halves h₀ h S G hidden ground) {S' G' : Word → Prop} (hS : ∀ a, S a ↔ S' a) (hG : ∀ a, G a ↔ G' a) :
    Halves h₀ h S' G' hidden ground := by
  obtain rfl : S = S' := funext fun a => propext (hS a)
  obtain rfl : G = G' := funext fun a => propext (hG a)
  exact hh

end Halves

/-! ## 本体の読み込み -/

/-- 本体の先頭。 -/
def imageStart (s : Kernel) (proc : Word) : Word :=
  if (s.procs proc).fileType = PROCESS_FILE_TYPE_ELF then (s.elfFiles (s.procs proc).addr).elfMemory else (s.procs proc).addr

/-- `struct elf_file` のアドレス。 -/
def ElfRecord (s : Kernel) (proc a : Word) : Prop :=
  (s.procs proc).fileType = PROCESS_FILE_TYPE_ELF ∧ a = (s.procs proc).addr

/-- `a` から `m` 個のブロックのうち、ヒープの終わりを越えないものが、集まりの中にある。 -/
def Spans (own : Nat → Prop) (a : Word) (m : Nat) : Prop := ∃ c < 25600, a = blockAddr c ∧ ∀ i < m, c + i < 25600 → own (c + i)

/-- 平らなバイナリの本体の全体が、集まりの中にある。 -/
def BinSpans (s : Kernel) (proc : Word) (own : Nat → Prop) : Prop :=
  (s.procs proc).fileType = PROCESS_FILE_TYPE_BIN → Spans own (s.procs proc).addr (blocksFor (s.procs proc).size)

theorem Spans.or_left (hs : Spans own a m) (own' : Nat → Prop) : Spans (fun b => own b ∨ own' b) a m := by
  obtain ⟨c, hc, heq, hown⟩ := hs
  exact ⟨c, hc, heq, fun i hi hlt => .inl (hown i hi hlt)⟩

/-- 新しい割り当ての全体は、その範囲に入る。 -/
theorem KernelHeap.spans (hk : KernelHeap h) {n : Nat} (hpos : 0 < n) (hle : n ≤ 0xFFFFF000) (hmade : kzalloc h n = (p, h'))
    (hne : p ≠ 0) : Spans (fun b => own b ∨ ∃ a, a = p ∧ Extent h h' a b) p ((n + 4095) / 4096) := by
  obtain ⟨c, hc, hm⟩ := hk.madeAt hpos hle hmade hne
  exact ⟨c, hm.lt, hc, fun i hi hlt => .inr ⟨p, rfl, c, _, hc, hm, by omega, by omega, hlt⟩⟩

theorem elfLoad_halves (ht : Tidy s.heap) (hstray : Stray s.toFileState) {elfFile : Word}
    (h : elfLoad s fileName = .ok (result, elfFile, s')) (hresult : 0 ≤ result) (hh : Halves h₀ s.heap S G hidden ground) :
    ∃ hidden' ground', Halves h₀ s'.heap (fun a => S a ∨ a = elfFile) (fun a => G a ∨ a = (s'.elfFiles elfFile).elfMemory)
      hidden' ground' := by
  obtain ⟨p, heap₁, fd, fs, hmade, hopen, hopened⟩ := elfLoad_path h
  have h₁ := ((Shelters.refl ht).kzalloc hmade).1
  obtain ⟨s₁, hs₁⟩ : ∃ s₁, (s.setHeap heap₁).setElfFile p {} = s₁ := ⟨_, rfl⟩
  have hheap₁ : s₁.heap = heap₁ := by
    rw [← hs₁]
    rfl
  have hstray₁ : Stray s₁.toFileState := by
    rw [← hs₁]
    exact h₁.stray hstray
  have hnew : Shelters s₁ s₁ := by
    refine .refl ?_
    rw [hheap₁]
    exact h₁.tidy
  rw [hs₁] at hopen hopened
  have h₂ := (hnew.fopen hstray₁ hopen).1
  generalize hs₂ : { s₁ with toFileState := fs } = s₂ at hopened h₂
  cases hopened with
  | unopened => exact absurd hresult (by decide)
  | unknown _ hstat => exact absurd hresult (Int.not_le.2 (fstat_error_neg hstat))
  | @known stat memory s₃ code _ _ _ _ _ _ hp hk hread hend =>
      have h₃ := ((Shelters.refl h₂.tidy).kzallocBytes hk).1
      obtain ⟨mem₄, rfl⟩ := fread_heap hread
      cases hend with
      | unread => omega
      | refused => omega
      | loaded hcode hmemory hge =>
          have hneg := elfProcessLoaded_neg_iff mem₄ (elfReadFile s₃ elfFile memory)
          have hvalid := not_not.1 (mt hneg.2 (Int.not_lt.2 hge))
          have hsize : stat.fileSize.toNat ≤ 0xFFFFF000 := elf_size_le hk hmemory hread hvalid
          have hpos : 0 < stat.fileSize.toNat := by
            rw [Nat.pos_iff_ne_zero]
            intro h0
            exact fread_size_ne hread hcode (BitVec.eq_of_toNat_eq h0)
          have hfile : Made s.heap heap₁ elfFile := ht.made (by decide) (by decide) hmade hp
          have hbody : Made s₂.heap s₃.heap memory := h₂.tidy.made hpos hsize (kzallocBytes_made hk) hmemory
          have hopened : Shielded (Taken heap₁) heap₁ s₂.heap := hheap₁ ▸ h₂.heap
          have hhid := hh.hide (T := fun a => a = elfFile) h₁.heap fun a ha => ha ▸ hfile
          have hexp := (hhid.later hopened).expose (T := fun a => a = memory) h₃.heap fun a ha => ha ▸ hbody
          simp only [Kernel.setElfFile, if_true]
          rw [elfProcessLoaded_memory]
          exact ⟨_, _, hexp⟩

theorem processLoadElf_halves (ht : Tidy s.heap) (hstray : Stray s.toFileState)
    (h : processLoadElf s fileName proc = .ok (result, s')) (hresult : 0 ≤ result) (hh : Halves h₀ s.heap S G hidden ground) :
    ∃ hidden' ground', Halves h₀ s'.heap (fun a => S a ∨ ElfRecord s' proc a) (fun a => G a ∨ a = imageStart s' proc)
      hidden' ground' ∧ BinSpans s' proc ground' := by
  obtain ⟨⟨code, addr, s₁⟩, hload, h⟩ := bind_ok.1 h
  simp only at h
  split at h
  · cases h
    omega
  · cases h
    obtain ⟨hidden', ground', hh'⟩ := elfLoad_halves ht hstray hload hresult hh
    refine ⟨hidden', ground', hh'.congr ?_ ?_, ?_⟩
    · intro a
      simp only [ElfRecord, Kernel.setProc, if_true, true_and]
    · intro a
      simp only [imageStart, Kernel.setProc, if_true]
    · intro hbin
      simp only [Kernel.setProc, if_true] at hbin
      exact absurd hbin (by decide)

theorem processLoadBin_halves (ht : Tidy s.heap) (hstray : Stray s.toFileState)
    (h : processLoadBin s fileName proc = .ok (result, s')) (hresult : 0 ≤ result) (hfits : ImageFits (s'.procs proc))
    (hh : Halves h₀ s.heap S G hidden ground) :
    ∃ hidden' ground', Halves h₀ s'.heap (fun a => S a ∨ ElfRecord s' proc a) (fun a => G a ∨ a = imageStart s' proc)
      hidden' ground' ∧ BinSpans s' proc ground' := by
  obtain ⟨fd, fs, hopen, hopened⟩ := processLoadBin_path h
  have h₁ := ((Shelters.refl ht).fopen hstray hopen).1
  generalize hs₁ : { s with toFileState := fs } = s₁ at hopened h₁
  cases hopened with
  | unopened => exact absurd hresult (by decide)
  | unknown _ hstat => exact absurd hresult (Int.not_le.2 (fstat_error_neg hstat))
  | unallocated => exact absurd hresult (by decide)
  | unread => exact absurd hresult (by decide)
  | @loaded stat data s₂ _ _ _ hk hdata hread =>
      have h₂ := ((Shelters.refl h₁.tidy).kzallocBytes hk).1
      obtain ⟨mem₃, rfl⟩ := fread_heap hread
      have hmade := kzallocBytes_made hk
      have hpos : 0 < stat.fileSize.toNat := by
        rw [Nat.pos_iff_ne_zero]
        intro h0
        exact fread_size_ne hread (by decide) (BitVec.eq_of_toNat_eq h0)
      have hsize : stat.fileSize.toNat ≤ 0xFFFFF000 := by
        have hfits : data.toNat + stat.fileSize.toNat ≤ 2 ^ 32 := by simpa [ImageFits, Kernel.setProc] using hfits
        have hblock := kzalloc_isBlock stat.fileSize.toNat h₁.tidy.toKernelHeap
        obtain ⟨c, hc, heq⟩ := hblock.resolve_left (by rw [hmade]; exact hdata)
        rw [hmade] at heq
        rw [show data = blockAddr c from heq, blockAddr_toNat (Nat.le_of_lt hc)] at hfits
        omega
      have hbody : Made s₁.heap s₂.heap data := h₁.tidy.made hpos hsize hmade hdata
      have hexp := (hh.later h₁.heap).expose (T := fun a => a = data) h₂.heap fun a ha => ha ▸ hbody
      refine ⟨_, _, hexp.congr ?_ ?_, ?_⟩
      · intro a
        simp [ElfRecord, Kernel.setProc, PROCESS_FILE_TYPE_BIN, PROCESS_FILE_TYPE_ELF]
      · intro a
        simp [imageStart, Kernel.setProc, PROCESS_FILE_TYPE_BIN, PROCESS_FILE_TYPE_ELF]
      · intro _
        simp only [Kernel.setProc, if_true]
        exact h₁.tidy.spans hpos hsize hmade hdata

theorem processLoadData_halves (ht : Tidy s.heap) (hstray : Stray s.toFileState)
    (h : processLoadData s fileName proc = .ok (result, s')) (hresult : 0 ≤ result) (hfits : ImageFits (s'.procs proc))
    (hh : Halves h₀ s.heap S G hidden ground) :
    ∃ hidden' ground', Halves h₀ s'.heap (fun a => S a ∨ ElfRecord s' proc a) (fun a => G a ∨ a = imageStart s' proc)
      hidden' ground' ∧ BinSpans s' proc ground' := by
  obtain ⟨⟨code, s₁⟩, helf, h⟩ := bind_ok.1 h
  have h₁ := processLoadElf_shelters ht hstray helf
  simp only at h
  split at h
  · exact processLoadBin_halves h₁.tidy (h₁.stray hstray) h hresult hfits (hh.later h₁.heap)
  · cases h
    exact processLoadElf_halves ht hstray helf hresult hh

/-! ## 記録とスタック、タスク、ページの表 -/

variable {slot : Int} {terminate : Kernel → Word → Except Fault (Int × Kernel)}

/-- プログラムに見せないアドレス。記録、`struct elf_file`、タスク、ページの表である。 -/
def Secret (s : Kernel) (p a : Word) : Prop :=
  (a = p ∨ ElfRecord s p a) ∨ a = (s.procs p).task ∨ a ∈ pagingFreeCalls s.words (s.tasks (s.procs p).task).pageDir

/-- プログラムに見せるアドレス。本体とスタックである。 -/
def Shown (s : Kernel) (p a : Word) : Prop := a = imageStart s p ∨ a = (s.procs p).stack

theorem processPrepareWith_halves (ht : Tidy s.heap) (hstray : Stray s.toFileState)
    (h : processPrepareWith terminate s fileName slot = .ok (.ok proc, s')) (hfits : ImageFits (s'.procs proc)) :
    ∃ hidden ground, Halves s.heap s'.heap (fun a => a = proc ∨ ElfRecord s' proc a) (Shown s' proc) hidden ground ∧
      BinSpans s' proc ground ∧ Spans ground (s'.procs proc).stack 4 := by
  obtain ⟨heap, code, s₁, stack, s₂, hk, hne, hload, hcode, hstack, hstackne, rfl⟩ := processPrepareWith_ok h
  obtain ⟨s₀, hs₀⟩ : ∃ s₀, (s.setHeap heap).setProc proc {} = s₀ := ⟨_, rfl⟩
  have hheap₀ : s₀.heap = heap := by
    rw [← hs₀]
    rfl
  have h₀ : Shelters s s₀ := by
    rw [← hs₀]
    exact ((Shelters.refl ht).kzalloc hk).1.congr rfl rfl rfl
  rw [hs₀] at hload
  have h₁ := processLoadData_shelters h₀.tidy (h₀.stray hstray) hload
  obtain ⟨h₂, -, heap₂, mem₂, rfl⟩ := (Shelters.refl h₁.tidy).kzallocBytes hstack
  have hfits₁ : ImageFits (s₁.procs proc) := by simpa [ImageFits, Kernel.setProc] using hfits
  have hrecord : Made s.heap s₀.heap proc := by
    rw [hheap₀]
    exact ht.made (by decide) (by decide) hk hne
  have hmade := kzallocBytes_made hstack
  have hstart := (Halves.start ht).hide (T := fun a => a = proc) h₀.heap fun a ha => ha ▸ hrecord
  obtain ⟨hidden, ground, hh, hbin⟩ := processLoadData_halves h₀.tidy (h₀.stray hstray) hload hcode hfits₁ hstart
  have hexp := hh.expose (T := fun a => a = stack) h₂.heap fun a ha => ha ▸ h₁.tidy.made (by decide) (by decide) hmade hstackne
  refine ⟨_, _, hexp.congr ?_ ?_, ?_, ?_⟩
  · intro a
    simp only [ElfRecord, Kernel.setProc, if_true, false_or]
  · intro a
    simp only [Shown, imageStart, Kernel.setProc, if_true, false_or]
  · intro htype
    simp only [Kernel.setProc, if_true] at htype ⊢
    exact (hbin htype).or_left _
  · simp only [Kernel.setProc, if_true]
    exact h₁.tidy.spans (by decide) (by decide) hmade hstackne

/-- 読み込んだプロセスの、見せないブロックと見せるブロック。 -/
theorem processLoadSlotWith_halves (ht : Tidy s.heap) (hstray : Stray s.toFileState)
    (h : processLoadSlotWith terminate s fileName slot = .ok (result, proc, s')) (hresult : 0 ≤ result)
    (hfits : ImageFits (s'.procs proc)) :
    ∃ hidden ground, Halves s.heap s'.heap (Secret s' proc) (Shown s' proc) hidden ground ∧ BinSpans s' proc ground ∧
      Spans ground (s'.procs proc).stack 4 := by
  obtain ⟨s₁, t, dir, heap₁, words, words₁, hprep, htne, hkt, hpaging, -, hfiles, hproc, hdir, himg, hwords⟩ :=
    processLoadSlotWith_state h hresult
  have hfits₁ : ImageFits (s₁.procs proc) := by simpa [ImageFits, hproc] using hfits
  have hp := processPrepareWith_prepared ht hstray hprep hfits₁
  obtain ⟨hidden, ground, hh, hbin, hstack⟩ := processPrepareWith_halves ht hstray hprep hfits₁
  have h₁ := ((Shelters.refl hp.shelters.tidy).kzalloc hkt).1
  obtain ⟨hheap₂, entries, table, hpage, hmadeDir, hmadeEntries, hmadeTable⟩ := pagingNew_made h₁.tidy hpaging
  have hpage₁ : PageDir words₁ dir entries table := processMapImage_pageDir (s := { s₁ with words := words }) hpage himg
  have hcalls : pagingFreeCalls s'.words (s'.tasks (s'.procs proc).task).pageDir =
      (List.range 1024).map table ++ [entries, dir] := by
    rw [hproc, hdir, hwords, processMapStack]
    exact (hpage₁.mapTo _ _ _ _).freeCalls_eq
  have hmade : ∀ a, (a = t ∨ a ∈ (List.range 1024).map table ++ [entries, dir]) → Made s₁.heap s'.heap a := by
    rintro a (rfl | ha)
    · exact (hp.shelters.tidy.made (by decide) (by decide) hkt htne).shielded hheap₂
    · rcases List.mem_append.1 ha with ha | ha
      · obtain ⟨i, hi, rfl⟩ := List.mem_map.1 ha
        exact (hmadeTable i (List.mem_range.1 hi)).later h₁.heap
      · rcases List.mem_cons.1 ha with rfl | ha
        · exact hmadeEntries.later h₁.heap
        · rw [List.mem_singleton.1 ha]
          exact hmadeDir.later h₁.heap
  have htype : (s'.procs proc).fileType = (s₁.procs proc).fileType := by rw [hproc]
  have haddr : (s'.procs proc).addr = (s₁.procs proc).addr := by rw [hproc]
  have hsize : (s'.procs proc).size = (s₁.procs proc).size := by rw [hproc]
  have hstack' : (s'.procs proc).stack = (s₁.procs proc).stack := by rw [hproc]
  have htask : (s'.procs proc).task = t := by rw [hproc]
  refine ⟨_, ground, (hh.hide (h₁.heap.trans hheap₂) hmade).congr ?_ ?_, ?_, ?_⟩
  · intro a
    simp only [Secret, ElfRecord, htype, haddr]
    rw [hcalls, htask]
  · intro a
    simp only [Shown, imageStart, htype, haddr, hfiles, hstack']
  · rw [BinSpans, htype, haddr, hsize]
    exact hbin
  · rw [hstack']
    exact hstack

end EnkiOs
