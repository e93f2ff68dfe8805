import EnkiOs.Idt.Dispatch
import EnkiOs.Idt.Theorems

/-!
# 番号と手続き

起動のときの登録の後、どれだけ割り込みとシステムコールがあっても、表に書かれないかぎり、番号ごとに決まった手続きが呼ばれる。
-/

namespace EnkiOs
open Machine

variable {image : KernelImage} {env : CallEnv} {m : System}

/-! ## システムコールの登録 -/

/-- 登録の並び。 -/
def syscallRegisterRun (image : KernelImage) (m : System) (calls : List (Int × Syscall)) : Except Fault System :=
  calls.foldlM (fun m call => syscallRegister image m call.1 call.2) m

theorem syscallRegister_ok {idx : Int} (fn : Syscall) (hlow : 0 ≤ idx) (hhigh : idx < ENKI_MAX_SYSCALLS)
    (hfree : m.kernel.mem.entry image.syscalls idx.toNat = 0) :
    syscallRegister image m idx fn = .ok (m.setEntry image.syscalls idx.toNat (image.syscallFn fn)) := by
  rw [syscallRegister, if_neg (by omega), if_neg (not_not.2 hfree)]

/-- 先に登録したものは、後の並びに同じ番号が無ければ、並びの先頭にあるのと同じである。 -/
theorem lookup_setEntry {mem : Memory} {base : Word} {idx : Int} {fn : Syscall} {calls : List (Int × Syscall)} (hlow : 0 ≤ idx)
    (hhigh : idx < ENKI_MAX_SYSCALLS) (hfresh : idx ∉ calls.map Prod.fst) {i : Nat} (hi : i < ENKI_MAX_SYSCALLS) :
    (calls.lookup (i : Int)).elim ((mem.setEntry base idx.toNat (image.syscallFn fn)).entry base i) image.syscallFn =
      (List.lookup (i : Int) ((idx, fn) :: calls)).elim (mem.entry base i) image.syscallFn := by
  by_cases h : (i : Int) = idx
  · subst h
    have hnone : calls.lookup (i : Int) = none := by
      rw [List.lookup_eq_none_iff]
      intro call hcall
      have hne : call.1 ≠ i := fun he => hfresh (he ▸ List.mem_map_of_mem hcall)
      simpa using hne.symm
    rw [hnone, List.lookup_cons_self]
    exact Memory.setEntry_same
  · have hbeq : ((i : Int) == idx) = false := by simpa using h
    rw [List.lookup_cons, hbeq, Memory.setEntry_other (n := ENKI_MAX_SYSCALLS) (by decide) (by omega) hi (by omega)]

/-- 空いていて重ならない番号の登録は、どれも済み、表のその番号だけが変わる。 -/
theorem syscallRegisterRun_ok {calls : List (Int × Syscall)}
    (hall : ∀ call ∈ calls, 0 ≤ call.1 ∧ call.1 < ENKI_MAX_SYSCALLS ∧ m.kernel.mem.entry image.syscalls call.1.toNat = 0)
    (hnodup : (calls.map Prod.fst).Nodup) :
    ∃ mem, syscallRegisterRun image m calls = .ok { m with kernel := { m.kernel with mem := mem } } ∧
      (∀ i < ENKI_MAX_SYSCALLS, mem.entry image.syscalls i =
        (calls.lookup (i : Int)).elim (m.kernel.mem.entry image.syscalls i) image.syscallFn) ∧
      ∀ x, 4 * ENKI_MAX_SYSCALLS ≤ (x - image.syscalls).toNat → mem x = m.kernel.mem x := by
  induction calls generalizing m with
  | nil => exact ⟨m.kernel.mem, rfl, fun _ _ => rfl, fun _ _ => rfl⟩
  | cons call calls ih =>
      obtain ⟨idx, fn⟩ := call
      obtain ⟨hfresh, hnodup⟩ := List.nodup_cons.1 hnodup
      obtain ⟨hlow, hhigh, hfree⟩ := hall (idx, fn) List.mem_cons_self
      simp only at hlow hhigh hfree
      have hrest : ∀ call ∈ calls, 0 ≤ call.1 ∧ call.1 < ENKI_MAX_SYSCALLS ∧
          (m.setEntry image.syscalls idx.toNat (image.syscallFn fn)).kernel.mem.entry image.syscalls call.1.toNat = 0 := by
        intro call hcall
        obtain ⟨hl, hh, hf⟩ := hall call (List.mem_cons_of_mem _ hcall)
        have hne : call.1 ≠ idx := fun he => hfresh (List.mem_map.2 ⟨call, hcall, he⟩)
        exact ⟨hl, hh, (Memory.setEntry_other (n := ENKI_MAX_SYSCALLS) (by decide) (by omega) (by omega) (by omega)).trans hf⟩
      obtain ⟨mem, hrun, hentries, hbytes⟩ := ih hrest hnodup
      refine ⟨mem, ?_, ?_, ?_⟩
      · rw [syscallRegisterRun, List.foldlM_cons]
        exact bind_ok.2 ⟨_, syscallRegister_ok fn hlow hhigh hfree, hrun⟩
      · intro i hi
        exact (hentries i hi).trans (lookup_setEntry hlow hhigh hfresh hi)
      · intro x hx
        exact (hbytes x hx).trans (Memory.setEntry_byte (n := ENKI_MAX_SYSCALLS) (by decide) (by omega) hx)

/-- `syscall_register_all` の並び。 -/
def registeredSyscalls : List (Int × Syscall) :=
  [(1, .print), (2, .getkey), (3, .putchar), (4, .malloc), (5, .free), (6, .procStart), (7, .system), (8, .pgmArgs), (9, .exit)]

theorem syscallRegisterAll_eq (m : System) : syscallRegisterAll image m = syscallRegisterRun image m registeredSyscalls := by
  simp only [syscallRegisterAll, syscallRegisterRun, registeredSyscalls, List.foldlM_cons, List.foldlM_nil, bind_pure]

theorem registeredSyscalls_valid : (∀ call ∈ registeredSyscalls, 0 ≤ call.1 ∧ call.1 < ENKI_MAX_SYSCALLS) ∧
    (registeredSyscalls.map Prod.fst).Nodup := by decide

/-- 空の表への登録。 -/
theorem syscallRegisterAll_ok (hempty : ∀ i < ENKI_MAX_SYSCALLS, m.kernel.mem.entry image.syscalls i = 0) :
    ∃ mem, syscallRegisterAll image m = .ok { m with kernel := { m.kernel with mem := mem } } ∧
      (∀ i < ENKI_MAX_SYSCALLS, mem.entry image.syscalls i = (registeredSyscalls.lookup (i : Int)).elim 0 image.syscallFn) ∧
      ∀ x, 4 * ENKI_MAX_SYSCALLS ≤ (x - image.syscalls).toNat → mem x = m.kernel.mem x := by
  obtain ⟨hrange, hnodup⟩ := registeredSyscalls_valid
  have hall : ∀ call ∈ registeredSyscalls, 0 ≤ call.1 ∧ call.1 < ENKI_MAX_SYSCALLS ∧
      m.kernel.mem.entry image.syscalls call.1.toNat = 0 := by
    intro call hcall
    obtain ⟨hlow, hhigh⟩ := hrange call hcall
    exact ⟨hlow, hhigh, hempty _ (by omega)⟩
  obtain ⟨mem, hrun, hentries, hbytes⟩ := syscallRegisterRun_ok hall hnodup
  refine ⟨mem, (syscallRegisterAll_eq m).trans hrun, ?_, hbytes⟩
  intro i hi
  rw [hentries i hi, hempty i hi]

/-- 登録した表の引き方。範囲の外の番号は、表を引かない。 -/
theorem syscallInvoke_registered
    (htable : ∀ i < ENKI_MAX_SYSCALLS, m.kernel.mem.entry image.syscalls i =
      (registeredSyscalls.lookup (i : Int)).elim 0 image.syscallFn) (idx : Int) :
    syscallInvoke image env m idx =
      match registeredSyscalls.lookup idx with
      | some fn => syscallRun env m fn
      | none => .ok (.back 0 m) := by
  by_cases hrange : idx < 0 ∨ (ENKI_MAX_SYSCALLS : Int) ≤ idx
  · have hnone : registeredSyscalls.lookup idx = none := by
      rw [List.lookup_eq_none_iff]
      intro call hcall
      have hin := registeredSyscalls_valid.1 call hcall
      simp only [bne_iff_ne]
      omega
    rw [syscallInvoke, if_pos hrange, hnone]
  · have hcast : (idx.toNat : Int) = idx := by omega
    have hentry := htable idx.toNat (by omega)
    rw [hcast] at hentry
    cases hfound : registeredSyscalls.lookup idx with
    | none =>
        rw [hfound, Option.elim_none] at hentry
        simp only [syscallInvoke]
        rw [if_neg hrange, if_pos hentry]
    | some fn =>
        rw [hfound] at hentry
        exact syscallInvoke_some hrange hentry

/-- 空の表への登録は済み、変わるのは表のバイトだけである。その後は、どれだけカーネルに出入りしても、二つの表に書かれないかぎり、1 から 9 の番号では、
レジスタを保存してから、登録した手続きが呼ばれる。ほかの番号では、今のタスクのレジスタを保存するだけで、0 を返す。 -/
theorem syscallHandler_dispatches {m₀ : System}
    (hempty : ∀ i < ENKI_MAX_SYSCALLS, m₀.kernel.mem.entry image.syscalls i = 0) :
    ∃ mem, syscallRegisterAll image m₀ = .ok { m₀ with kernel := { m₀.kernel with mem := mem } } ∧
      (∀ x, 4 * ENKI_MAX_SYSCALLS ≤ (x - image.syscalls).toNat → mem x = m₀.kernel.mem x) ∧
      ∀ m₁ m, m₁.kernel.mem.AgreeOn mem image.syscalls (4 * ENKI_MAX_SYSCALLS) → SystemRun image env m₁ m →
        m.kernel.taskCurrent ≠ 0 → ∀ (idx : Word) (frame : InterruptFrame),
          syscallHandler image env m idx frame =
            match registeredSyscalls.lookup idx.toInt with
            | some fn => syscallRun env (m.saved frame) fn >>= Exit.page
            | none => .ok (.back 0 (m.saved frame)) := by
  obtain ⟨mem, hreg, hentries, hbytes⟩ := syscallRegisterAll_ok hempty
  refine ⟨mem, hreg, hbytes, ?_⟩
  intro m₁ m hboot hrun hcur idx frame
  have htable : ∀ i < ENKI_MAX_SYSCALLS, (m.saved frame).kernel.mem.entry image.syscalls i =
      (registeredSyscalls.lookup (i : Int)).elim 0 image.syscallFn := by
    intro i hi
    rw [System.saved_mem, Memory.AgreeOn.entry hrun.tables.syscalls hi, Memory.AgreeOn.entry hboot hi, hentries i hi]
  rw [syscallHandler_eq idx frame hcur, syscallInvoke_registered htable]
  cases registeredSyscalls.lookup idx.toInt with
  | none => exact Exit.page_back hcur
  | some fn => rfl

/-- プログラムの場所は、表の外にある。 -/
theorem sampleImage_store (mem : Memory) (v : Byte) : SameDispatch sampleImage mem (mem.write 0x400000 [v]) where
  syscalls := Memory.AgreeOn.write fun k hk => by
    have hbase : sampleImage.syscalls = 0x180000 := rfl
    rw [List.length_singleton, hbase]
    simp only [ENKI_MAX_SYSCALLS] at hk
    bv_omega
  intCallbacks := Memory.AgreeOn.write fun k hk => by
    have hbase : sampleImage.intCallbacks = 0x180400 := rfl
    rw [List.length_singleton, hbase]
    simp only [ENKI_TOTAL_INTERRUPTS] at hk
    bv_omega

/-- 利用者のプログラムが書いた後の、登録の無い番号と、`getkey`。 -/
theorem syscallHandler_dispatches_getkey :
    ∃ mem m₁ m₂, syscallRegisterAll sampleImage keySystem = .ok m₁ ∧
      SystemRun sampleImage ⟨0, 0, 0, 0⟩ m₁ { m₁ with kernel := { m₁.kernel with mem := mem } } ∧
      mem 0x400000 = 7 ∧
      syscallHandler sampleImage ⟨0, 0, 0, 0⟩ { m₁ with kernel := { m₁.kernel with mem := mem } } 0x55
        (userFrame carryUser) = .ok (.back 0 m₂) ∧
      SystemRun sampleImage ⟨0, 0, 0, 0⟩ m₁ m₂ ∧
      syscallHandler sampleImage ⟨0, 0, 0, 0⟩ m₂ 2 (userFrame carryUser) =
        syscallRun ⟨0, 0, 0, 0⟩ (m₂.saved (userFrame carryUser)) .getkey >>= Exit.page := by
  obtain ⟨mem, hreg, -, hdispatch⟩ := @syscallHandler_dispatches sampleImage ⟨0, 0, 0, 0⟩ keySystem
    fun i _ => keySystem_entry 0x180000 i
  have hcur : keySystem.kernel.taskCurrent ≠ 0 := show (1 : Word) ≠ 0 by decide
  have hstored : SameDispatch sampleImage mem (mem.write 0x400000 [7]) := sampleImage_store mem 7
  have hstore : SystemRun sampleImage ⟨0, 0, 0, 0⟩ { keySystem with kernel := { keySystem.kernel with mem := mem } } _ :=
    Relation.ReflTransGen.single (.user _ hstored)
  have hunknown := hdispatch _ _ (fun _ _ => rfl) hstore hcur 0x55 (userFrame carryUser)
  rw [show registeredSyscalls.lookup (0x55 : Word).toInt = none by decide] at hunknown
  have hentry : kernelEntry sampleImage ⟨0, 0, 0, 0⟩ _ (userFrame carryUser) (.syscall 0x55) = .ok _ := hunknown
  have hrun := hstore.tail (.enter hentry ⟨fun _ _ => rfl, fun _ _ => rfl⟩)
  refine ⟨_, _, _, hreg, hstore, ?_, hunknown, hrun, ?_⟩
  · exact Memory.write_at _ _ (k := 0) (by decide) (by decide)
  · exact hdispatch _ _ (fun _ _ => rfl) hrun hcur 2 (userFrame carryUser)

/-! ## 割り込みの登録 -/

theorem idtRegisterIntCallback_eq {interrupt : Int} (callback : IntCallback) (hlow : 0 ≤ interrupt)
    (hhigh : interrupt < ENKI_TOTAL_INTERRUPTS) : idtRegisterIntCallback image m interrupt callback =
      (0, m.setEntry image.intCallbacks interrupt.toNat (image.callbackFn callback)) := by
  rw [idtRegisterIntCallback, if_neg (by omega)]

/-- 例外の番号だけが、例外の手続きに変わる。 -/
theorem idtMapExceptions_ok {k i : Nat} (hik : i + k ≤ ENKI_TOTAL_INTERRUPTS) (m : System) :
    ∃ mem, idtMapExceptions image k i m = { m with kernel := { m.kernel with mem := mem } } ∧
      (∀ j < ENKI_TOTAL_INTERRUPTS, mem.entry image.intCallbacks j =
        if i ≤ j ∧ j < i + k then image.callbackFn .idtHandleException else m.kernel.mem.entry image.intCallbacks j) ∧
      ∀ x, 4 * ENKI_TOTAL_INTERRUPTS ≤ (x - image.intCallbacks).toNat → mem x = m.kernel.mem x := by
  induction k generalizing i m with
  | zero => exact ⟨m.kernel.mem, rfl, fun j _ => (if_neg (by omega)).symm, fun _ _ => rfl⟩
  | succ k ih =>
      have hnext : (i : Int) + 1 = ((i + 1 : Nat) : Int) := rfl
      obtain ⟨mem, hrun, hentries, hbytes⟩ := ih (i := i + 1) (by omega)
        (m.setEntry image.intCallbacks i (image.callbackFn .idtHandleException))
      refine ⟨mem, ?_, ?_, ?_⟩
      · rw [idtMapExceptions, idtRegisterIntCallback_eq _ (by omega) (by omega), hnext, Int.toNat_natCast]
        exact hrun
      · intro j hj
        rw [hentries j hj]
        by_cases hji : j = i
        · rw [if_neg (by omega), if_pos (by omega), hji]
          exact Memory.setEntry_same
        · rw [if_congr (show i + 1 ≤ j ∧ j < i + 1 + k ↔ i ≤ j ∧ j < i + (k + 1) by omega) rfl rfl]
          exact congrArg _ (Memory.setEntry_other (n := ENKI_TOTAL_INTERRUPTS) (by decide) (by omega) hj hji)
      · intro x hx
        exact (hbytes x hx).trans (Memory.setEntry_byte (n := ENKI_TOTAL_INTERRUPTS) (by decide) (by omega) hx)

/-- 起動の後、割り込みの番号に登録されている手続き。 -/
def registeredCallback (number : Nat) : Option IntCallback :=
  if number < 0x20 then some .idtHandleException
  else if number = 0x20 then some .idtClock
  else if number = 0x21 then some .ps2HandleInterrupt
  else none

/-- 空の表への登録。 -/
theorem registered_callbacks (hempty : ∀ i < ENKI_TOTAL_INTERRUPTS, m.kernel.mem.entry image.intCallbacks i = 0) :
    ∃ mem, ps2KeyboardInit image (idtRegisterAll image m) =
        { m with kernel := { m.kernel with mem := mem }, capslock := KEYBOARD_CAPSLOCK_OFF } ∧
      (∀ j < ENKI_TOTAL_INTERRUPTS, mem.entry image.intCallbacks j = (registeredCallback j).elim 0 image.callbackFn) ∧
      ∀ x, 4 * ENKI_TOTAL_INTERRUPTS ≤ (x - image.intCallbacks).toNat → mem x = m.kernel.mem x := by
  obtain ⟨mem, hmap, hentries, hbytes⟩ := @idtMapExceptions_ok image 0x20 0 (by decide) m
  refine ⟨(mem.setEntry image.intCallbacks 0x20 (image.callbackFn .idtClock)).setEntry image.intCallbacks 0x21
    (image.callbackFn .ps2HandleInterrupt), ?_, ?_, ?_⟩
  · rw [ps2KeyboardInit, idtRegisterAll, show (0 : Int) = ((0 : Nat) : Int) from rfl, hmap,
      idtRegisterIntCallback_eq _ (by decide) (by decide), idtRegisterIntCallback_eq _ (by decide) (by decide)]
    rfl
  · intro j hj
    simp only [registeredCallback]
    by_cases hk : j = 0x21
    · rw [if_neg (by omega), if_neg (by omega), if_pos hk, hk]
      exact Memory.setEntry_same
    · rw [Memory.setEntry_other (n := ENKI_TOTAL_INTERRUPTS) (by decide) (by decide) hj hk]
      by_cases hc : j = 0x20
      · rw [if_neg (by omega), if_pos hc, hc]
        exact Memory.setEntry_same
      · rw [Memory.setEntry_other (n := ENKI_TOTAL_INTERRUPTS) (by decide) (by decide) hj hc, hentries j hj, hempty j hj,
          if_neg hc, if_neg hk]
        by_cases hlow : j < 0x20
        · rw [if_pos (by omega), if_pos hlow]
          rfl
        · rw [if_neg (by omega), if_neg hlow]
          rfl
  · intro x hx
    rw [Memory.setEntry_byte (n := ENKI_TOTAL_INTERRUPTS) (by decide) (by decide) hx,
      Memory.setEntry_byte (n := ENKI_TOTAL_INTERRUPTS) (by decide) (by decide) hx, hbytes x hx]

/-- 例外の手続きは、割り込まれたところに戻らない。 -/
theorem idtHandleException_resume {exit : Exit} (h : idtHandleException env m = .ok exit) : ∃ m', exit = .resume m' := by
  simp only [idtHandleException] at h
  split at h
  · cases h
  · obtain ⟨ended, -, hrest⟩ := bind_ok.1 h
    obtain ⟨next, -, hexit⟩ := bind_ok.1 hrest
    cases hexit
    exact ⟨_, rfl⟩

/-- 起動の登録の後は、どれだけカーネルに出入りしても、二つの表に書かれないかぎり、番号ごとに同じ手続きが、レジスタを保存してから呼ばれる。登録の無い番号では、
状態は何も変わらない。例外の手続きが終わるときは、割り込まれたところには戻らず、`task_return` で今のタスクに移る。 -/
theorem interruptHandler_dispatches {m₀ m₁ m : System}
    (hempty : ∀ i < ENKI_TOTAL_INTERRUPTS, m₀.kernel.mem.entry image.intCallbacks i = 0)
    (hboot : m₁.kernel.mem.AgreeOn (ps2KeyboardInit image (idtRegisterAll image m₀)).kernel.mem image.intCallbacks
      (4 * ENKI_TOTAL_INTERRUPTS))
    (hrun : SystemRun image env m₁ m) (hcur : m.kernel.taskCurrent ≠ 0) (sc : Byte) {number : Nat}
    (hnumber : number < ENKI_TOTAL_INTERRUPTS) (frame : InterruptFrame) :
    (interruptHandler image env sc m number frame =
      match registeredCallback number with
      | some callback => intCallbackRun env sc (m.saved frame) callback >>= Exit.page
      | none => .ok (.back 0 m)) ∧
    (number < 0x20 → ∀ exit, interruptHandler image env sc m number frame = .ok exit → ∃ m', exit = .resume m') := by
  obtain ⟨mem, hinit, hentries, -⟩ := registered_callbacks hempty
  rw [hinit] at hboot
  have hentry : m.kernel.mem.entry image.intCallbacks number = (registeredCallback number).elim 0 image.callbackFn := by
    rw [Memory.AgreeOn.entry hrun.tables.intCallbacks hnumber, Memory.AgreeOn.entry hboot hnumber]
    exact hentries number hnumber
  have heq : interruptHandler image env sc m number frame =
      match registeredCallback number with
      | some callback => intCallbackRun env sc (m.saved frame) callback >>= Exit.page
      | none => .ok (.back 0 m) := by
    cases hfound : registeredCallback number with
    | none =>
        rw [hfound] at hentry
        exact interruptHandler_none sc frame hcur hentry
    | some callback =>
        rw [hfound] at hentry
        exact interruptHandler_some sc frame hcur hentry
  refine ⟨heq, ?_⟩
  intro hlow exit hexit
  have hexception : registeredCallback number = some .idtHandleException := if_pos hlow
  rw [heq, hexception] at hexit
  obtain ⟨exit₁, hcallback, hpage⟩ := bind_ok.1 hexit
  cases Exit.page_ok hpage
  exact idtHandleException_resume hcallback

/-- 利用者のプログラムが書いた後の、登録の無い番号と、一般保護例外。 -/
theorem interruptHandler_dispatches_protection :
    ∃ mem, SystemRun sampleImage ⟨0, 0, 0, 0⟩ { keySystem with kernel := { keyKernel with mem := mem } }
        { keySystem with kernel := { keyKernel with mem := mem.write 0x400000 [7] } } ∧
      interruptHandler sampleImage ⟨0, 0, 0, 0⟩ 0 { keySystem with kernel := { keyKernel with mem := mem.write 0x400000 [7] } }
        0x30 (userFrame carryUser) = .ok (.back 0 { keySystem with kernel := { keyKernel with mem := mem.write 0x400000 [7] } }) ∧
      ∀ exit, interruptHandler sampleImage ⟨0, 0, 0, 0⟩ 0
          { keySystem with kernel := { keyKernel with mem := mem.write 0x400000 [7] } } 13 (userFrame carryUser) = .ok exit →
        ∃ m', exit = .resume m' := by
  have hempty : ∀ i < ENKI_TOTAL_INTERRUPTS, keySystem.kernel.mem.entry sampleImage.intCallbacks i = 0 :=
    fun i _ => keySystem_entry 0x180400 i
  obtain ⟨mem, hinit, -, -⟩ := registered_callbacks hempty
  have hstore : SystemRun sampleImage ⟨0, 0, 0, 0⟩ { keySystem with kernel := { keyKernel with mem := mem } }
      { keySystem with kernel := { keyKernel with mem := mem.write 0x400000 [7] } } :=
    Relation.ReflTransGen.single (.user _ (sampleImage_store mem 7))
  have hboot : mem.AgreeOn (ps2KeyboardInit sampleImage (idtRegisterAll sampleImage keySystem)).kernel.mem sampleImage.intCallbacks
      (4 * ENKI_TOTAL_INTERRUPTS) := by
    rw [hinit]
    exact fun _ _ => rfl
  have hcur : keyKernel.taskCurrent ≠ 0 := show (1 : Word) ≠ 0 by decide
  obtain ⟨hunknown, -⟩ := interruptHandler_dispatches hempty hboot hstore hcur 0 (show 0x30 < ENKI_TOTAL_INTERRUPTS by decide)
    (userFrame carryUser)
  rw [show registeredCallback 0x30 = none by decide] at hunknown
  have hentry : kernelEntry sampleImage ⟨0, 0, 0, 0⟩ _ (userFrame carryUser) (.interrupt 0x30 0) = .ok _ := hunknown
  have hrun := hstore.tail (.enter hentry ⟨fun _ _ => rfl, fun _ _ => rfl⟩)
  obtain ⟨-, hexception⟩ := interruptHandler_dispatches hempty hboot hrun hcur 0 (show 13 < ENKI_TOTAL_INTERRUPTS by decide)
    (userFrame carryUser)
  exact ⟨mem, hstore, hunknown, hexception (by decide)⟩

end EnkiOs
