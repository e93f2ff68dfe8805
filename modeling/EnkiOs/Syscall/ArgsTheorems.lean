import EnkiOs.Libc.CmdList
import EnkiOs.Process.AgreeTheorems
import EnkiOs.Syscall.Basic
import EnkiOs.Task.CopyStrTheorems

/-!
# 引数を返すシステムコールの書き込み

`syscall_8_pgm_args` は、利用者のポインタを一度だけ変換し、項目のフラグを見ずに、続く 8 バイトへ書く。
-/

namespace EnkiOs
open Machine

variable {s s' : Kernel} {words : Words} {tr : Translation} {mem mem' : Memory} {dir virt a u x : Word}

/-! ## 変換 -/

/-- `virt` の属するページは、二段の項目のどちらでも、利用者が書き込める。 -/
def UserPage (words : Words) (dir virt : Word) : Prop :=
  UserWritable (words (entryAddr dir (virt / (BitVec.ofNat 32 PAGING_TOTAL_ENTRIES_PER_TABLE * PAGING_PAGE_SIZE)))) ∧
    UserWritable (pagingGet words dir (pagingAlignToLower virt))

instance (entry : Word) : Decidable (UserWritable entry) := inferInstanceAs (Decidable (_ = _))

instance (words : Words) (dir virt : Word) : Decidable (UserPage words dir virt) := inferInstanceAs (Decidable (_ ∧ _))

theorem UserWritable.present {entry : Word} (h : UserWritable entry) : entry &&& PAGING_IS_PRESENT ≠ 0 := by
  intro h0
  have hbit := congrArg (fun w : Word => w.getLsbD 0) (h : entry &&& userFlags = userFlags)
  have hzero := congrArg (fun w : Word => w.getLsbD 0) h0
  simp only [BitVec.getLsbD_and] at hbit hzero
  rw [show userFlags.getLsbD 0 = true from rfl, Bool.and_true] at hbit
  rw [hbit] at hzero
  exact absurd hzero (by decide)

/-- 表にあるページでは、CPU の変換は `paging_get_phys_addr` と同じである。 -/
theorem UserPage.translate (h : UserPage words dir virt) :
    pageTranslate words dir virt = .ok (pagingGetPhysAddr words dir virt) := by
  have hentry := h.2.present
  simp only [pagingGetPhysAddr, sub_alignToLower, pagingGet_alignToLower, pagingEntry] at hentry ⊢
  simp only [pageTranslate, if_neg h.1.present, if_neg hentry]

/-! ## 書き込み -/

theorem storeBytes_other {bytes : List Byte} (h : storeBytes tr mem a bytes = .ok mem')
    (hx : ∀ j < bytes.length, tr (a + BitVec.ofNat 32 j) ≠ .ok x) : mem' x = mem x := by
  induction bytes generalizing a mem with
  | nil =>
      cases h
      rfl
  | cons b bytes ih =>
      obtain ⟨mem₁, hstore, hrest⟩ := bind_ok.1 h
      obtain ⟨p, hp, rfl⟩ := storeByte_cases hstore
      have hne : p ≠ x := fun he => hx 0 (by simp) (by rw [← he, ← hp]; simp)
      rw [ih hrest fun j hj => by rw [add_one_add]; exact hx (j + 1) (by simpa using hj), write_outside]
      intro i hi
      simp only [List.length_cons, List.length_nil] at hi
      obtain rfl : i = 0 := by omega
      simpa using hne.symm

/-- `struct process_args` のバイト。 -/
def ProcessArgs.bytes (args : ProcessArgs) : List Byte := wordBytes (BitVec.ofInt 32 args.argc) ++ wordBytes args.argv

theorem ProcessArgs.length_bytes (args : ProcessArgs) : args.bytes.length = 8 := rfl

theorem ProcessArgs.write_at (args : ProcessArgs) (mem : Memory) (p : Word) {k : Nat} (hk : k < 8) :
    mem.write p args.bytes (p + BitVec.ofNat 32 k) = byteAt args.bytes k :=
  mem.write_at p hk (show 8 ≤ 2 ^ 32 by decide)

/-- どのバイトも `c` でない引数がある。 -/
theorem ProcessArgs.exists_bytes (c : Byte) : ∃ (args : ProcessArgs) (b : Byte), args.bytes = List.replicate 8 b ∧ b ≠ c := by
  by_cases hc : c = 0
  · exact ⟨⟨-1, -1⟩, 0xFF, rfl, by rw [hc]; decide⟩
  · exact ⟨⟨0, 0⟩, 0, rfl, Ne.symm hc⟩

/-- 呼び出したプロセスの引数を `args` にした状態。 -/
def Kernel.setArgs (s : Kernel) (args : ProcessArgs) : Kernel :=
  s.setProc (s.tasks s.taskCurrent).process { s.procs (s.tasks s.taskCurrent).process with args := args }

theorem syscall8PgmArgs_ok (hu : taskGetStackItem s s.taskCurrent 0 = .ok u) (hproc : (s.tasks s.taskCurrent).process ≠ 0)
    (args : ProcessArgs) :
    ∃ s', syscall8PgmArgs (s.setArgs args) = .ok s' ∧
      s'.mem = s.mem.write (pagingGetPhysAddr s.words (s.words (s.tasks s.taskCurrent).pageDir) u) args.bytes := by
  have htask : s.taskCurrent ≠ 0 := by
    intro h0
    rw [h0] at hu
    cases hu
  have hargs : ((s.setArgs args).procs (s.tasks s.taskCurrent).process).args = args := by
    simp only [Kernel.setArgs, Kernel.setProc, if_true]
  have hphys : taskVirtToPhysAddr (s.setArgs args) s.taskCurrent u =
      .ok (pagingGetPhysAddr s.words (s.words (s.tasks s.taskCurrent).pageDir) u) := by
    simp only [taskVirtToPhysAddr, if_neg htask]
    rfl
  have hget : ∀ p, ∃ s', processGetArgs (s.setArgs args) (s.tasks s.taskCurrent).process p (p + 4) = .ok s' ∧
      s'.mem = s.mem.write p args.bytes := by
    intro p
    have happend := Memory.write_append s.mem p (wordBytes (BitVec.ofInt 32 args.argc)) (wordBytes args.argv)
      (show 4 + 4 ≤ 2 ^ 32 by decide)
    simp only [processGetArgs, if_neg hproc, hargs]
    exact ⟨_, rfl, happend⟩
  obtain ⟨s', hrun, hmem⟩ := hget (pagingGetPhysAddr s.words (s.words (s.tasks s.taskCurrent).pageDir) u)
  exact ⟨s', bind_ok.2 ⟨u, hu, bind_ok.2 ⟨_, hphys, hrun⟩⟩, hmem⟩

/-- 引数が何であっても、書き換わるのは、利用者の書けるページを通して見た `u` からの 8 バイトだけであり、書けないページがあれば
何も書き換わらない。 -/
def WritesAllowed (s : Kernel) (u : Word) : Prop :=
  let dir := s.words (s.tasks s.taskCurrent).pageDir
  ∀ args s', syscall8PgmArgs (s.setArgs args) = .ok s' →
    ((∀ k < 8, UserPage s.words dir (u + BitVec.ofNat 32 k)) →
      storeBytes (pageTranslate s.words dir) s.mem u args.bytes = .ok s'.mem) ∧
    ((∃ k < 8, ¬UserPage s.words dir (u + BitVec.ofNat 32 k)) → s'.mem = s.mem)

/-- 成り立つのは、8 バイトのどれもが、利用者の書けるページにあって、変換しても続いているとき、そのときに限る。 -/
theorem writesAllowed_iff (hu : taskGetStackItem s s.taskCurrent 0 = .ok u) (hproc : (s.tasks s.taskCurrent).process ≠ 0) :
    WritesAllowed s u ↔ ∀ k < 8,
      UserPage s.words (s.words (s.tasks s.taskCurrent).pageDir) (u + BitVec.ofNat 32 k) ∧
      pagingGetPhysAddr s.words (s.words (s.tasks s.taskCurrent).pageDir) (u + BitVec.ofNat 32 k) =
        pagingGetPhysAddr s.words (s.words (s.tasks s.taskCurrent).pageDir) u + BitVec.ofNat 32 k := by
  obtain ⟨dir, hdir⟩ : ∃ dir, s.words (s.tasks s.taskCurrent).pageDir = dir := ⟨_, rfl⟩
  obtain ⟨p, hp⟩ : ∃ p, pagingGetPhysAddr s.words dir u = p := ⟨_, rfl⟩
  have hrun := fun args => syscall8PgmArgs_ok hu hproc args
  simp only [WritesAllowed, hdir, hp] at hrun ⊢
  constructor
  · intro hall
    have hpages : ∀ k < 8, UserPage s.words dir (u + BitVec.ofNat 32 k) := by
      by_contra hno
      push Not at hno
      obtain ⟨args, b, hbytes, hb⟩ := ProcessArgs.exists_bytes (s.mem p)
      obtain ⟨s', hs', hmem⟩ := hrun args
      have hsame := congrFun ((hall args s' hs').2 hno) p
      have hat := args.write_at s.mem p (show 0 < 8 by decide)
      rw [show p + BitVec.ofNat 32 0 = p from BitVec.add_zero p, hbytes] at hat
      rw [hmem, hbytes, hat] at hsame
      exact hb hsame
    intro k hk
    refine ⟨hpages k hk, ?_⟩
    -- 書いた先は変換した先のどれかであり、ページの中の位置から、それは `k` 番目である。
    obtain ⟨args, b, hbytes, hb⟩ := ProcessArgs.exists_bytes (s.mem (p + BitVec.ofNat 32 k))
    obtain ⟨s', hs', hmem⟩ := hrun args
    have hstore := (hall args s' hs').1 hpages
    have hat := args.write_at s.mem p hk
    have hbyte : byteAt args.bytes k = b := by
      rw [hbytes, byteAt, List.getD_eq_getElem?_getD, List.getElem?_replicate, if_pos hk]
      rfl
    obtain ⟨j, hj, htr⟩ : ∃ j < args.bytes.length, pageTranslate s.words dir (u + BitVec.ofNat 32 j) = .ok (p + BitVec.ofNat 32 k) := by
      by_contra hno
      push Not at hno
      have hsame := storeBytes_other hstore hno
      rw [hmem, hat, hbyte] at hsame
      exact hb hsame
    rw [args.length_bytes] at hj
    rw [(hpages j hj).translate] at htr
    have hphys : pagingGetPhysAddr s.words dir (u + BitVec.ofNat 32 j) = p + BitVec.ofNat 32 k := Except.ok.inj htr
    have hmodj := pagingGetPhysAddr_mod s.words dir (u + BitVec.ofNat 32 j)
    have hmod := pagingGetPhysAddr_mod s.words dir u
    rw [hphys, BitVec.toNat_add, BitVec.toNat_add, BitVec.toNat_ofNat, BitVec.toNat_ofNat] at hmodj
    rw [hp] at hmod
    obtain rfl : j = k := by omega
    exact hphys
  · intro hgood args s' h
    obtain ⟨s₁, hs₁, hmem⟩ := hrun args
    rw [hs₁] at h
    cases h
    rw [hmem]
    refine ⟨fun _ => storeBytes_ok (by rw [args.length_bytes]; decide) ?_, ?_⟩
    · intro j hj
      rw [args.length_bytes] at hj
      rw [(hgood j hj).1.translate, (hgood j hj).2]
    · rintro ⟨k, hk, hno⟩
      exact absurd (hgood k hk).1 hno

/-- スタックの先頭が `0x80000` を指すタスクと、引数が一つのプロセス。 -/
def argsKernel (words : Words) : Kernel := { flatKernel with
  words := words
  tasks := fun _ => { pageDir := 0x100000, registers := { esp := 0x3FE000 }, process := 0x110000 }
  procs := fun _ => { args := ⟨1, 0x01000000⟩ }
  mem := fun a => if a = 0x3FE002 then 0x08 else 0 }

theorem writesAllowed_iff_flat : WritesAllowed (argsKernel flatWords) 0x80000 := by
  have hitem : taskGetStackItem (argsKernel flatWords) 0x500000 0 = .ok 0x80000 := by
    have hword : (argsKernel flatWords).mem.word 0x3FE000 = 0x80000 := by decide
    exact (flat_loadWord _ 0x3FE000).trans (congrArg Except.ok hword)
  refine (writesAllowed_iff hitem (by decide)).2 ?_
  show ∀ k < 8, UserPage flatWords 0x101000 (0x80000 + BitVec.ofNat 32 k) ∧
    pagingGetPhysAddr flatWords 0x101000 (0x80000 + BitVec.ofNat 32 k) =
      pagingGetPhysAddr flatWords 0x101000 0x80000 + BitVec.ofNat 32 k
  decide

/-- `0x80000` のページだけを、読み取り専用にした表。 -/
def lockedWords : Words := flatWords.set 0x200200 (0x80000 ||| PAGING_IS_PRESENT ||| PAGING_ACCESS_FROM_ALL)

/-- 利用者の書けないページを渡しても、カーネルは 1 をそこへ書く。 -/
theorem writesAllowed_fails_locked : taskGetStackItem (argsKernel lockedWords) 0x500000 0 = .ok 0x80000 ∧
    ¬UserPage lockedWords 0x101000 0x80000 ∧ ¬WritesAllowed (argsKernel lockedWords) 0x80000 := by
  have hitem : taskGetStackItem (argsKernel lockedWords) 0x500000 0 = .ok 0x80000 := by decide
  have hlocked : ¬UserPage lockedWords 0x101000 0x80000 := by decide
  refine ⟨hitem, hlocked, fun hall => ?_⟩
  obtain ⟨s', hrun, hmem⟩ := syscall8PgmArgs_ok hitem (by decide) ⟨1, 0x01000000⟩
  have hsame := congrFun ((hall _ s' hrun).2 ⟨0, by decide, hlocked⟩) 0x80000
  have hphys : pagingGetPhysAddr lockedWords 0x101000 0x80000 = 0x80000 := by decide
  rw [hmem] at hsame
  have hone : Memory.write (argsKernel lockedWords).mem (pagingGetPhysAddr lockedWords 0x101000 0x80000)
      (ProcessArgs.bytes ⟨1, 0x01000000⟩) 0x80000 = 1 := by
    rw [hphys]
    decide
  exact absurd (hone.symm.trans hsame) (by decide)

end EnkiOs
