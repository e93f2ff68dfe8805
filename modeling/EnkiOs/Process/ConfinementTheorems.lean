import EnkiOs.Paging.Translate
import EnkiOs.Process.Fence
import EnkiOs.Process.IsolationTheorems

/-!
# 書き込みの囲い込み

カーネルの動きとプログラムの書き込みのどの並びの後でも、プログラムの書き込みは自分の本体とスタックと割り当てにだけ届き、
どのプロセスの記録、タスク、ページの表にも、ほかのプロセスのブロックにも届かない。
-/

namespace EnkiOs
open Machine

variable {s s' s₁ : Kernel} {base base' : Word → Nat → Prop} {fileName : List Byte} {p q proc virt : Word}
  {terminate : Kernel → Word → Except Fault (Int × Kernel)} {a : Option Word}

/-! ## 述べること -/

/-- 物理アドレス `phys` が、`a` から始まる割り当ての中にある。 -/
def AllocatedAt (h : Heap) (a phys : Word) : Prop := ∃ b, InAllocation h a b ∧ pageOf phys = 4096 + b

/-- `q` の割り当てのアドレス。 -/
def BelongsTo (s : Kernel) (q a : Word) : Prop :=
  Secret s q a ∨ Shown s q a ∨
    ∃ i < ENKI_MAX_PGM_ALLOCATIONS, ((s.procs q).allocations i).ptr ≠ 0 ∧ ((s.procs q).allocations i).ptr = a

/-- `virt` のページの項目が、プログラムの書き込みを許す。CPU は、さらにディレクトリの項目も調べる。 -/
def MayStore (s : Kernel) (p virt : Word) : Prop :=
  UserWritable (pagingGet s.words (s.words (s.tasks (s.procs p).task).pageDir) (pagingAlignToLower virt))

/-- `phys` が、ヒープより前になく、どのプロセスの見せない割り当てにも、ほかのプロセスのどの割り当てにもない。 -/
def Confined (s : Kernel) (p phys : Word) : Prop :=
  ENKI_HEAP_ADDRESS ≤ phys ∧
    ∀ q, Registered s q → ∀ a, Secret s q a ∨ q ≠ p ∧ BelongsTo s q a → ¬AllocatedAt s.heap a phys

/-- 読み込みの直後の状態では、書き込めるプログラムヘッダが、自分のファイルに収まる。 -/
def SealedLoads (s' : Kernel) : Prop :=
  ∀ depth s fileName proc, processLoadSwitch depth s fileName = .ok (0, proc, s') → Sealed s' proc

/-- 読み込んだプロセスは、現在のプロセスである。 -/
theorem SealedLoads.of_current (hsealed : Sealed s' s'.processCurrent) : SealedLoads s' := by
  intro depth s fileName proc h
  obtain ⟨s₁, -, rfl⟩ := processLoadSwitchWith_ok h
  exact hsealed

/-- カーネルの一歩か、登録されたプロセスの 1 バイトの書き込み。 -/
inductive UserStep (s s' : Kernel) : Prop
  | kernel (a : Option Word) (h : KernelStep s s' a) (hfits : ImagesFit s') (hsealed : SealedLoads s')
  | store (p virt : Word) (v : Byte) (hp : Registered s p) (hmay : MayStore s p virt)
      (h : s' = { s with mem := s.mem.write (processPhysAddr s p virt) [v] })

def UserRun : Kernel → Kernel → Prop := Relation.ReflTransGen UserStep

/-! ## 囲い -/

theorem ProcStep.processes {op : ProcOp} (h : ProcStep s op s') : s'.processes = s.processes := by
  cases h with
  | malloc _ h => exact (processMalloc_registry h).processes
  | free h => exact (processFree_registry h).processes

/-- 登録されたどのプロセスにも、書き込める範囲が定まっている。 -/
def Fences (s : Kernel) (base : Word → Nat → Prop) : Prop :=
  ∀ p, Registered s p → ∃ entries table hidden ground, Fenced s p entries table (base p) hidden ground

theorem Fences.passes (hf : Fences s base) (hi : Estates s base) (hq : Registered s q) (hpasses : Passes s s' base base' q) :
    ∃ entries table hidden ground, Fenced s' q entries table (base' q) hidden ground := by
  obtain ⟨entries, table, hidden, ground, hfenced⟩ := hf q hq
  rw [hpasses.same]
  exact ⟨entries, table, hidden, ground, hfenced.left (hi.estate q hq) hpasses.leaves⟩

theorem Fences.switch (hf : Fences s base) (hi : Estates s base) (p : Word) : Fences (processSwitch s p).2 base :=
  fun _ hq => hf.passes hi hq (Estates.switch_passes p hq)

/-- 読み込みは、新しいプロセスの書き込める範囲を定め、前からのプロセスの範囲を変えない。 -/
theorem Fences.loadSwitch (hf : Fences s base) (hi : Estates s base)
    (h : processLoadSwitchWith terminate s fileName = .ok (0, proc, s')) (hfits : ImagesFit s') (hsealed : Sealed s' proc) :
    ∃ base', Estates s' base' ∧ Fences s' base' := by
  obtain ⟨s₁, hload, rfl⟩ := processLoadSwitchWith_ok h
  obtain ⟨slot, h1, h2, -, hen, hslot⟩ := processLoadWith_enrolls hload (Int.le_refl 0)
  have hfit := hfits proc (hen.registered h1 h2)
  obtain ⟨-, hi₁, hpasses⟩ := hi.load hload (Int.le_refl 0) hfit
  refine ⟨_, hi₁.switch proc, Fences.switch ?_ hi₁ proc⟩
  intro q hq
  by_cases hqp : q = proc
  · rw [hqp, loadBase, if_pos rfl]
    exact processLoadSlotWith_fenced hi.tidy hi.stray hslot (Int.le_refl 0) hfit hsealed
  · have hq := hen.earlier hq hqp
    exact hf.passes hi hq (hpasses q hq)

theorem KernelStep.fences (h : KernelStep s s' a) (hi : Estates s base) (hf : Fences s base) (hfits : ImagesFit s')
    (hsealed : SealedLoads s') : ∃ base', Estates s' base' ∧ Fences s' base' := by
  cases h with
  | load depth fileName proc h => exact hf.loadSwitch hi h hfits (hsealed depth s fileName proc h)
  | switch p hp h =>
      rw [h]
      exact ⟨base, hi.switch p, hf.switch hi p⟩
  | call p op hp hof h =>
      obtain ⟨hi', hpasses⟩ := hi.call hp hof h
      refine ⟨base, hi', fun q hq => ?_⟩
      have hreg : Registered s q := by
        rw [Registered, ← h.processes]
        exact hq
      by_cases hqp : q = p
      · obtain ⟨entries, table, hidden, ground, hfenced⟩ := hf q hreg
        subst hqp
        cases h with
        | malloc hserve h =>
            obtain ⟨rfl, hpos⟩ := hof
            exact ⟨entries, table, hidden, ground, hfenced.malloc (hi.estate _ hreg) hi.tidy hpos hserve h⟩
        | free h =>
            obtain rfl := hof
            exact ⟨entries, table, hidden, ground, hfenced.free (hi.estate _ hreg) hi.tidy h⟩
      · exact hf.passes hi hreg (hpasses q hreg hqp)
  | terminate depth p code hp h =>
      cases depth with
      | zero => cases h
      | succ depth =>
          obtain ⟨s₃, hi₃, hremain, hpasses, hend⟩ := hi.unlinked hp h
          have hf₃ : Fences s₃ base := fun q hq =>
            hf.passes hi (hremain q hq).1 (hpasses q (hremain q hq).1 (hremain q hq).2)
          rcases hend with rfl | ⟨r, rfl⟩ | ⟨proc, fileName, hload⟩
          · exact ⟨base, hi₃, hf₃⟩
          · exact ⟨base, hi₃.switch r, hf₃.switch hi₃ r⟩
          · exact hf₃.loadSwitch hi₃ hload hfits (hsealed depth s₃ fileName proc hload)

theorem UserStep.fences (h : UserStep s s') (hi : Estates s base) (hf : Fences s base) :
    ∃ base', Estates s' base' ∧ Fences s' base' := by
  cases h with
  | kernel a h hfits hsealed => exact h.fences hi hf hfits hsealed
  | store p virt v hp hmay h =>
      have hleaves : ∀ q, Leaves s s' q (base q) := by
        intro q
        rw [h]
        exact ⟨rfl, rfl, rfl, fun _ _ _ _ => rfl, fun _ _ => rfl, fun _ _ => rfl⟩
      have hreg : ∀ q, Registered s' q → Registered s q := by
        intro q hq
        rw [h] at hq
        exact hq
      refine ⟨base, ?_, fun q hq => hf.passes hi (hreg q hq) ⟨hq, hleaves q, rfl⟩⟩
      rw [h] at hleaves ⊢
      exact hi.left hi.tidy rfl (fun _ _ _ _ => rfl) fun q _ => hleaves q

theorem UserRun.fences (hrun : UserRun s s') (hi : Estates s base) (hf : Fences s base) :
    ∃ base', Estates s' base' ∧ Fences s' base' := by
  induction hrun with
  | refl => exact ⟨base, hi, hf⟩
  | tail _ hstep ih =>
      obtain ⟨base₁, hi₁, hf₁⟩ := ih
      exact hstep.fences hi₁ hf₁

/-! ## 書き込みの届く先 -/

variable {entries phys : Word} {table : Nat → Word} {base₁ hidden ground : Nat → Prop} {n b : Nat}

theorem Lands.pageOf_cases {own : Nat → Prop} {page : Word} (hr : Lands own page) (hal : page.toNat % 4096 = 0) {off : Word}
    (hoff : off.toNat < 4096) : (∃ b, own b ∧ pageOf (page + off) = 4096 + b) ∨ 29696 ≤ pageOf (page + off) := by
  have hlt := page.isLt
  have hsum : pageOf (page + off) = page.toNat / 4096 := by
    rw [pageOf, BitVec.toNat_add]
    omega
  rw [hsum]
  rcases hr with ⟨b, hb, hown, rfl⟩ | hle
  · exact .inl ⟨b, hown, blockAddr_page hb⟩
  · have hend : (blockAddr 25600).toNat = 0x07400000 := rfl
    exact .inr (by omega)

/-- 書き込める仮想アドレスの物理アドレスは、見せるブロックか、記録のブロックか、ヒープの終わりより後ろにある。 -/
theorem Fenced.lands (hf : Fenced s p entries table base₁ hidden ground) (he : Estate s p base₁) (hmay : MayStore s p virt) :
    (∃ b, (ground b ∨ Recorded s p b) ∧ pageOf (processPhysAddr s p virt) = 4096 + b) ∨
      29696 ≤ pageOf (processPhysAddr s p virt) := by
  rw [MayStore, hf.pageDir.dir_eq, hf.pageDir.get_alignToLower] at hmay
  have hphys : processPhysAddr s p virt = (s.words (pageSlot table (pageOf virt)) &&& 0xFFFFF000) + virt % PAGING_PAGE_SIZE := by
    rw [processPhysAddr, pagingGetPhysAddr, sub_alignToLower, hf.pageDir.dir_eq, hf.pageDir.get_alignToLower]
  have hoff : (virt % PAGING_PAGE_SIZE).toNat < 4096 := by
    rw [BitVec.toNat_umod]
    exact Nat.mod_lt _ (by decide)
  have hlands : Lands (fun b => ground b ∨ Recorded s p b) (s.words (pageSlot table (pageOf virt)) &&& 0xFFFFF000) := by
    rcases hf.entry _ (pageOf_lt virt) hmay with hr | ⟨b, hrec, -, heq⟩
    · exact hr.imp fun b hb => .inl hb
    · exact .inl ⟨b, (he.owns_taken (.inr hrec)).1, .inr hrec, heq⟩
  rw [hphys]
  exact hlands.pageOf_cases (mask_toNat_mod _) hoff

/-- 見せない割り当ては、見せない集まりの中にある。 -/
theorem Fenced.hides (hf : Fenced s q entries table base₁ hidden ground) {x : Word} (ha : Secret s q x)
    (hb : InAllocation s.heap x b) : hidden b :=
  hf.closed.inAllocation (hf.secret x ha) hb

/-- プロセスの割り当ては、持つブロックの中にある。 -/
theorem Fenced.belongs (hf : Fenced s q entries table base₁ hidden ground) (he : Estate s q base₁) {x : Word}
    (ha : BelongsTo s q x) (hb : InAllocation s.heap x b) : Owns s q base₁ b := by
  rcases ha with ha | ha | ⟨i, hi, hne, rfl⟩
  · exact .inl (hf.within b (.inl (hf.hides ha hb)))
  · refine .inl (he.closed.inAllocation ?_ hb)
    have haddr : ElfRecord s q (s.procs q).addr → (s.procs q).addr ≠ 0 := by
      intro hrec
      obtain ⟨c, hc, heq⟩ := hf.secret _ (.inl (.inr hrec))
      rw [heq]
      exact blockAddr_ne_zero (Nat.le_of_lt (hf.closed.taken c hc).1)
    rcases mem_release_of he.released haddr (.inr ha) with rfl | hmem
    · exact he.record
    · exact he.release x hmem
  · obtain ⟨⟨c, hptr, hc⟩, hpos, hclosed⟩ := he.laid i hi hne
    refine .inr ⟨i, hi, hne, hclosed.inAllocation ⟨c, ?_, hptr⟩ hb⟩
    exact (covers_blockAddr (by omega) hptr).2 ⟨Nat.le_refl c, by omega⟩

theorem Fences.confined (hf : Fences s base) (hi : Estates s base) (hp : Registered s p) (hmay : MayStore s p virt) :
    Confined s p (processPhysAddr s p virt) := by
  obtain ⟨entries, table, hidden, ground, hfenced⟩ := hf p hp
  have he := hi.estate p hp
  have hstart : ENKI_HEAP_ADDRESS.toNat = 0x1000000 := rfl
  have hlands := hfenced.lands he hmay
  refine ⟨?_, ?_⟩
  · rw [BitVec.le_def, hstart]
    rcases hlands with ⟨b, -, heq⟩ | hle
    · rw [pageOf] at heq
      omega
    · rw [pageOf] at hle
      omega
  · rintro q hq x hx ⟨c, hin, hpage⟩
    have hlt : c < 25600 := by
      obtain ⟨-, -, hlt, -⟩ := hin
      exact hlt
    -- 届いたブロック `c` は、見せるブロックか、記録のブロックである。
    have hreach : ground c ∨ Recorded s p c := by
      rcases hlands with ⟨b, hb, heq⟩ | hle
      · obtain rfl : b = c := by omega
        exact hb
      · omega
    have howns : Owns s p (base p) c := hreach.imp (fun hg => hfenced.within c (.inr hg)) id
    by_cases hqp : q = p
    · subst hqp
      have hhid : hidden c := hfenced.hides (hx.resolve_right fun h => h.1 rfl) hin
      rcases hreach with hg | ⟨i, hi', hne, hcov⟩
      · exact hfenced.apart c hhid hg
      · exact he.apart i hi' hne c hcov (hfenced.within c (.inl hhid))
    · obtain ⟨entries', table', hidden', ground', hfenced'⟩ := hf q hq
      have hbelongs : BelongsTo s q x := hx.elim .inl And.right
      exact hi.apart p q hp hq (Ne.symm hqp) c howns (hfenced'.belongs (hi.estate q hq) hbelongs hin)

/-- 起動の直後に読み込んだ ELF ファイルのプログラムは、自分の本体の先頭に書き込める。 -/
theorem boot_mayStore : ∃ (v : Volume) (s : Kernel), v.disk = imageDisk (elfImage 84 0) ∧
    processLoadSwitch 1 (Kernel.boot (stateWith v 0)) imageName = .ok (0, blockAddr 0, s) ∧ ImagesFit s ∧ SealedLoads s ∧
    Registered s (blockAddr 0) ∧ MayStore s (blockAddr 0) 0x400000 := by
  obtain ⟨v, hv⟩ : ∃ v : Volume, v.disk = imageDisk (elfImage 84 0) := smallDisk_resolved (imageDisk_root _)
  obtain ⟨s, hmem, htype, hfile, -, hload⟩ := boot_load hv rfl
    (show elfProcessLoaded (bootImage (elfImage 84 0)) { elfMemory := blockAddr 11 } = (0, _) from rfl) 1
    (fun words dir => show (processMapElf _ words dir _).1 = 0 from rfl)
  rw [if_neg (by decide)] at hload
  have hmaps : elfMappings s.mem (s.elfFiles (s.procs (blockAddr 0)).addr) = [⟨0x400000, blockAddr 11, userFlags⟩] := by
    rw [hmem, hfile]
    rfl
  have hsealed : Sealed s (blockAddr 0) := by
    intro _ m hm _
    rw [hmaps, List.mem_singleton] at hm
    rw [hm, show (s.elfFiles (s.procs (blockAddr 0)).addr).elfMemory = blockAddr 11 from congrArg ElfFile.elfMemory hfile]
    exact .inl ⟨11, by decide, ⟨11, Nat.le_refl 11, by decide, rfl, fun j _ _ => by omega⟩, rfl⟩
  have hen := processLoadSlotWith_enrolls hload (Int.le_refl 0)
  have helf : AllElf { s with processes := fun i => if i = 0 then blockAddr 0 else s.processes i } :=
    (AllElf.empty (s := Kernel.boot (stateWith v 0)) fun _ _ _ => rfl).enrolls hen htype
  obtain ⟨entries, table, hl⟩ := processLoadSlot_loaded bootHeap_packed.toKernelHeap hload (Int.le_refl 0) htype
  have hget := hl.get_eq (show PageAligned 0x400000 by decide) (by decide)
  simp only [hmaps] at hget
  have hmay : MayStore s (blockAddr 0) 0x400000 := by
    rw [MayStore]
    exact hget ▸ (userWritable_iff (pageAligned_blockAddr (by decide)) (by decide)).2 rfl
  exact ⟨v, _, hv, bind_ok.2 ⟨_, hload, rfl⟩, helf.imagesFit, .of_current hsealed, hen.registered (Int.le_refl 0) (by decide), hmay⟩

/-- 何も登録されていない状態からの、カーネルの動きとプログラムの書き込みのどの並びの後でも、書き込めるプログラムヘッダが
自分のファイルに収まる限り、プログラムの書き込みは、ヒープより前にも、プロセスの記録とタスクとページの表にも、ほかの
プロセスの割り当てにも届かない。 -/
theorem userRun_confined (hempty : ∀ i, 0 ≤ i → i < ENKI_MAX_PROCESSES → s.processes i = 0) (htidy : Tidy s.heap)
    (hstray : Stray s.toFileState) (hrun : UserRun s s') (hp : Registered s' p) (hmay : MayStore s' p virt) :
    Confined s' p (processPhysAddr s' p virt) := by
  have hnone : Fences s fun _ _ => False := by
    rintro q ⟨hne, i, h1, h2, rfl⟩
    exact absurd (hempty i h1 h2) hne
  obtain ⟨base, hi, hf⟩ := hrun.fences (Estates.start hempty htidy hstray fun _ _ => False) hnone
  exact hf.confined hi hp hmay

/-- 起動の直後に読み込んだ ELF ファイルのプログラムが、自分の本体の先頭に書き込んだ後。 -/
theorem userRun_confined_stored : ∃ (v : Volume) (s s' : Kernel), v.disk = imageDisk (elfImage 84 0) ∧
    UserRun (Kernel.boot (stateWith v 0)) s ∧
    s' = { s with mem := s.mem.write (processPhysAddr s (blockAddr 0) 0x400000) [0x90] } ∧ UserStep s s' ∧
    Registered s' (blockAddr 0) ∧ MayStore s' (blockAddr 0) 0x400000 ∧
    Confined s' (blockAddr 0) (processPhysAddr s' (blockAddr 0) 0x400000) := by
  obtain ⟨v, s, hv, hload, hfits, hsealed, hreg, hmay⟩ := boot_mayStore
  obtain ⟨s', hs'⟩ : ∃ s', s' = { s with mem := s.mem.write (processPhysAddr s (blockAddr 0) 0x400000) [0x90] } := ⟨_, rfl⟩
  have hrun : UserRun (Kernel.boot (stateWith v 0)) s :=
    .single (.kernel none (.load 1 imageName (blockAddr 0) hload) hfits hsealed)
  have hstore : UserStep s s' := .store (blockAddr 0) 0x400000 0x90 hreg hmay hs'
  have hreg' : Registered s' (blockAddr 0) := by
    rw [hs']
    exact hreg
  have hmay' : MayStore s' (blockAddr 0) 0x400000 := by
    rw [hs']
    exact hmay
  exact ⟨v, s, s', hv, hrun, hs', hstore, hreg', hmay',
    userRun_confined (fun _ _ _ => rfl) tidy_boot (fun _ _ => rfl) (hrun.tail hstore) hreg' hmay'⟩

end EnkiOs
