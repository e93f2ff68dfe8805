import EnkiOs.Fs.Life
import EnkiOs.Fs.Theorems

/-!
# 記述子の一生の正しさ

`file_new_descriptor` は 512 番まで使うが、`file_get_descriptor` が受け付けるのは 511 番までである。
-/

namespace EnkiOs
open Machine

/-- `fs_init` の直後から始める。空いた番号が最後の一つだけのときに `fopen` を呼ばなければ、到達するどの状態でも、開いている番号は
自分の記述子に届き、ほかの番号は届かず、新しい番号は開いているどの番号とも違う。そのような状態からの `fopen` がこれを保つのは、
空いた番号が最後の一つだけではないとき、そのときに限る。 -/
theorem lifeCycle_of_safeFileRun {s : FileState} (hstart : FsStarted s) :
    (∀ t, SafeFileRun ⟨s, []⟩ t → LifeCycle t) ∧
    ∀ t t' fileName mode, SafeFileRun ⟨s, []⟩ t → FileStep t (.fopen fileName mode) t' →
      (LifeCycle t' ↔ ¬OnlyLastFree t.state) := by
  constructor
  · intro t hr
    exact (hr.inv hstart.inv).lifeCycle
  · intro t t' fileName mode hr hstep
    have hi := hr.inv hstart.inv
    constructor
    · intro hlife hlast
      cases hstep with
      | opened hopens hopen hpos =>
          obtain ⟨i, hslot, -, rfl, -⟩ := hopens.fopen_pos hopen hpos
          cases hslot.symm.trans (onlyLastFree_iff.1 hlast)
          exact not_reaches_last rfl (hlife.reaches _ List.mem_cons_self)
      | refused hopens hopen hle =>
          obtain ⟨hfull, -⟩ := hopens.fopen_nonpos hopen hle
          exact hfull 511 (by decide) hlast.2
    · intro hsafe
      exact (hstep.inv hsafe hi).lifeCycle

/-! ## 同じファイルを何度も開く -/

section

variable {v : Volume} (hv : v.disk = fragmentedDisk)
include hv

/-- 詰まったヒープでは、`"0:/A"` が 7 個のブロックで開ける。 -/
theorem fragmented_opens {s : FileState} (hdisk : s.disk = v.disk) (hpriv : s.priv = some v.priv) {b : Nat}
    (hp : Packed s.heap b) (hb : b + 7 ≤ 25600) :
    ∃ addr content heap', Opens s [0x30, 0x3A, 0x2F, 0x41] [0x72] addr content heap' ∧ Packed heap' (b + 6) := by
  have hroot := small_rootTerminated hv fragmented_root
  have hentries := small_rootEntries hv
  have honly := fragmented_onlyAt hv
  have htotal : v.priv.root.total.toNat ≤ v.rootEntries := by
    rw [Volume.root_total hroot, Int.toNat_natCast]
    exact Nat.le_trans (v.disk.liveItems_le _ _) (by omega)
  obtain ⟨heap, hparse, hp₁⟩ := pathParse_packed hp (by omega) (show [(0x41 : Byte)] ≠ [] by decide) (by decide) (by decide)
  obtain ⟨heap₁, hk, -, hp₂⟩ := hp₁.small (show 0 < 8 by decide) (by decide) (by omega)
  obtain ⟨heap', hopen, hp'⟩ := fat16Open_packed hroot (by decide) honly (by omega) hp₁ (by omega)
  obtain ⟨heap₂, hfind, -⟩ := fat16FindItemLoop_packed hroot (by decide) (by omega) (Nat.zero_le 0)
    (show OnlyAt v [0x41] (0 + v.priv.root.total.toNat) 0 by rwa [Nat.zero_add]) none hp₂ (by omega)
  obtain ⟨heap₃, hk₃, hne, -⟩ := hp'.small (show 0 < 16 by decide) (by decide) (by omega)
  rw [← hdisk] at hopen hfind
  refine ⟨_, _, heap', ⟨⟨v.priv, heap, [0x41], [], ⟨⟨_, _, [], hparse, rfl, rfl, rfl, rfl⟩, hpriv, by decide⟩, hopen, ?_⟩, ?_⟩, hp'⟩
  · intro item heap₄ h
    rw [hk, fat16FindItemInDir] at h
    cases hfind.symm.trans h
    trivial
  · right
    rw [hk₃]
    exact hne

/-- `"0:/A"` を `n` 回開いた後の状態。 -/
structure FilledTo (v : Volume) (n : Nat) (s : FileState) : Prop where
  disk_eq : s.disk = v.disk
  priv_eq : s.priv = some v.priv
  packed : Packed s.heap (7 * n)
  slots : ∀ i, s.fileDescriptors i ≠ 0 ↔ i < n

theorem FilledTo.step {n : Nat} {s : FileState} (h : FilledTo v n s) (hn : n < 512) (l : List OpenFile) :
    ∃ s' e, FileStep ⟨s, l⟩ (.fopen [0x30, 0x3A, 0x2F, 0x41] [0x72]) ⟨s', e :: l⟩ ∧ e.fd = (n : Int) + 1 ∧
      FilledTo v (n + 1) s' := by
  obtain ⟨addr, content, heap', hopens, hp'⟩ := fragmented_opens hv h.disk_eq h.priv_eq h.packed (by omega)
  have hfree : s.fileDescriptors n = 0 := by
    by_contra hne
    exact Nat.lt_irrefl n ((h.slots n).1 hne)
  have hslot : fileFreeSlot s ENKI_MAX_FILE_DESCRIPTORS 0 = some n :=
    fileFreeSlot_eq hn (fun i hi => (h.slots i).2 hi) hfree
  obtain ⟨hne, heq⟩ := hopens.fopen_slot hslot
  obtain ⟨heap₁, hk, -, hp₁⟩ := hp'.small (show 0 < 16 by decide) (by decide) (by omega)
  refine ⟨_, _, .opened hopens heq (by omega), rfl, h.disk_eq, h.priv_eq, ?_, ?_⟩
  · simp only [newDescriptorState, openedState, hk]
    exact hp₁
  · intro i
    simp only [newDescriptorState, openedState]
    split
    · rename_i hi
      exact iff_of_true hne (by omega)
    · rw [h.slots i]
      omega

theorem FilledTo.run {n : Nat} {s : FileState} (h : FilledTo v 0 s) (hn : n ≤ 512) :
    ∃ s' l, FileRun ⟨s, []⟩ ⟨s', l⟩ ∧ FilledTo v n s' := by
  induction n with
  | zero => exact ⟨s, [], .refl, h⟩
  | succ n ih =>
      obtain ⟨s₁, l, hrun, h₁⟩ := ih (by omega)
      obtain ⟨s', e, hstep, -, h'⟩ := h₁.step hv (by omega) l
      exact ⟨s', e :: l, hrun.tail ⟨_, hstep⟩, h'⟩

end

theorem stateWith_started (v : Volume) : FsStarted (stateWith v 0) := ⟨fun _ => rfl, keeps_boot⟩

theorem stateWith_filled (v : Volume) : FilledTo v 0 (stateWith v 0) :=
  ⟨rfl, rfl, bootHeap_packed, fun i => by simp [stateWith]⟩

/-- ファイルを二回開き、先の記述子を閉じた後。 -/
theorem lifeCycle_of_safeFileRun_closed : ∃ (v : Volume) (s₁ s₂ : FileState) (e₁ e₂ : OpenFile), v.disk = fragmentedDisk ∧
    FileStep ⟨stateWith v 0, []⟩ (.fopen [0x30, 0x3A, 0x2F, 0x41] [0x72]) ⟨s₁, [e₁]⟩ ∧ e₁.fd = 1 ∧
    FileStep ⟨s₁, [e₁]⟩ (.fopen [0x30, 0x3A, 0x2F, 0x41] [0x72]) ⟨s₂, [e₂, e₁]⟩ ∧ e₂.fd = 2 ∧
    LifeCycle ⟨(fclose s₂ 1).2, [e₂]⟩ := by
  obtain ⟨v, hv⟩ := fragmented_resolved
  obtain ⟨s₁, e₁, hopen₁, hfd₁, h₁⟩ := (stateWith_filled v).step hv (by decide) []
  obtain ⟨s₂, e₂, hopen₂, hfd₂, -⟩ := h₁.step hv (by decide) [e₁]
  have hsafe₁ : ¬OnlyLastFree (stateWith v 0) := fun h => h.1 0 (by decide) rfl
  have hsafe₂ : ¬OnlyLastFree s₁ := fun h => Nat.lt_irrefl 1 ((h₁.slots 1).1 (h.1 1 (by decide)))
  have hclose : FileStep ⟨s₂, [e₂] ++ e₁ :: []⟩ (.fclose e₁.fd) ⟨(fclose s₂ e₁.fd).2, [e₂] ++ []⟩ := .closed
  have hrun : SafeFileRun ⟨stateWith v 0, []⟩ ⟨(fclose s₂ e₁.fd).2, [e₂]⟩ :=
    ((Relation.ReflTransGen.single ⟨_, hopen₁, hsafe₁⟩).tail ⟨_, hopen₂, hsafe₂⟩).tail ⟨_, hclose, trivial⟩
  rw [show e₁.fd = 1 from hfd₁] at hrun
  exact ⟨v, s₁, s₂, e₁, e₂, hv, hopen₁, hfd₁, hopen₂, hfd₂, (lifeCycle_of_safeFileRun (stateWith_started v)).1 _ hrun⟩

/-- 同じファイルを 512 回開くと、最後の `fopen` は 512 を返すが、その番号はどの記述子にも届かず、閉じることもできない。 -/
theorem lifeCycle_fails_last : ∃ (v : Volume) (s : FileState) (e : OpenFile) (l : List OpenFile),
    v.disk = fragmentedDisk ∧ FsStarted (stateWith v 0) ∧ FileRun ⟨stateWith v 0, []⟩ ⟨s, e :: l⟩ ∧ e.fd = 512 ∧
    s.fileDescriptors 511 ≠ 0 ∧ Misses s e.fd ∧ ¬LifeCycle ⟨s, e :: l⟩ := by
  obtain ⟨v, hv⟩ := fragmented_resolved
  obtain ⟨s₁, l, hrun, h₁⟩ := (stateWith_filled v).run hv (show 511 ≤ 512 by decide)
  obtain ⟨s, e, hstep, hfd, h⟩ := h₁.step hv (by decide) l
  have hlast : e.fd = 512 := hfd
  refine ⟨v, s, e, l, hv, stateWith_started v, hrun.tail ⟨_, hstep⟩, hlast, (h.slots 511).2 (by decide), ?_, ?_⟩
  · rw [hlast]
    exact misses_of_zero (by simp [fileGetDescriptor])
  · intro hlife
    exact not_reaches_last hlast (hlife.reaches e List.mem_cons_self)

end EnkiOs
