import EnkiOs.Lib.PointerWalk
import EnkiOs.Process.Args
import EnkiOs.Process.Malloc
import EnkiOs.Task.Theorems
import Mathlib.Data.Finset.Card
import Mathlib.Data.Finset.Range

/-!
# 引数の並びをたどる繰り返し

引数を数える繰り返しには上限がなく、`next` が輪になっていれば終わらない。引数を写す繰り返しは、一回ごとに割り当ての
記録を一つ使うので、どのような並びでも終わる。
-/

namespace EnkiOs
open Machine PointerWalk

/-! ## 数える繰り返し -/

section

variable {mem : Memory} {arg root : Word} {k fuel : Nat} {i : Int}

theorem processCountCmdArgsFrom_ok {n : Nat} (hn : n ≤ k) (h : (cmdArgNext mem)^[n] arg = 0) :
    ∃ argc, processCountCmdArgsFrom mem k arg i = .ok argc := by
  induction k generalizing n arg i with
  | zero =>
      obtain rfl : n = 0 := by omega
      exact ⟨i, if_pos h⟩
  | succ k ih =>
      rw [processCountCmdArgsFrom]
      by_cases h0 : arg = 0
      · exact ⟨i, if_pos h0⟩
      · rw [if_neg h0]
        cases n with
        | zero => exact absurd h h0
        | succ n => exact ih (by omega) h

/-- 並びの終わりに着かないまま上限が尽きるほかに、失敗はない。 -/
theorem processCountCmdArgsFrom_hang (h : ∀ n, (cmdArgNext mem)^[n] arg ≠ 0) :
    processCountCmdArgsFrom mem k arg i = .error .hang := by
  induction k generalizing arg i with
  | zero => exact if_neg (h 0)
  | succ k ih =>
      rw [processCountCmdArgsFrom, if_neg (show arg ≠ 0 from h 0)]
      exact ih fun n => h (n + 1)

theorem processCountCmdArgs_hang (h : ¬Ends (cmdArgNext mem) 0 root) (fuel : Nat) :
    processCountCmdArgs fuel mem root = .error .hang :=
  processCountCmdArgsFrom_hang fun n hn => h ⟨n, hn⟩

theorem processCountCmdArgs_ends_iff :
    (∃ fuel argc, processCountCmdArgs fuel mem root = .ok argc) ↔ Ends (cmdArgNext mem) 0 root := by
  constructor
  · rintro ⟨fuel, argc, h⟩
    by_contra hno
    rw [processCountCmdArgs_hang hno] at h
    cases h
  · rintro ⟨n, hn⟩
    exact ⟨n, processCountCmdArgsFrom_ok (Nat.le_refl n) hn⟩

end

/-! ## 写す繰り返し -/

/-- 空いている割り当ての記録の数。 -/
def freeAllocs (p : Process) : Nat := ((Finset.range ENKI_MAX_PGM_ALLOCATIONS).filter fun i => (p.allocations i).ptr = 0).card

theorem freeAllocs_le (p : Process) : freeAllocs p ≤ ENKI_MAX_PGM_ALLOCATIONS := by
  have h := Finset.card_filter_le (Finset.range ENKI_MAX_PGM_ALLOCATIONS) fun i => (p.allocations i).ptr = 0
  rwa [Finset.card_range] at h

variable {s s' : Kernel} {proc root size ptr argv : Word}

/-- 成功した割り当ては、空いている記録を一つ使う。 -/
theorem processMalloc_freeAllocs (h : processMalloc s proc size = .ok (ptr, s')) (hptr : ptr ≠ 0) :
    freeAllocs (s'.procs proc) < freeAllocs (s.procs proc) := by
  rcases processMalloc_cases h with ⟨-, h0, -⟩ | ⟨-, h0, -⟩ | ⟨hne, -, -, -, idx, hfind, rfl⟩
  · exact absurd h0 hptr
  · exact absurd h0 hptr
  · obtain ⟨hidx, hfree⟩ := processFindFreeAlloc_some hfind
    have halloc : ∀ i, (((mallocState s proc size idx).procs proc).allocations i).ptr = 0 ↔
        i ≠ idx ∧ ((s.procs proc).allocations i).ptr = 0 := by
      intro i
      simp only [mallocState, Kernel.setProc, if_true]
      by_cases hi : i = idx
      · rw [if_pos hi]
        exact ⟨fun h0 => absurd h0 hne, fun h0 => absurd hi h0.1⟩
      · rw [if_neg hi]
        exact ⟨fun h0 => ⟨hi, h0⟩, fun h0 => h0.2⟩
    apply Finset.card_lt_card
    rw [Finset.ssubset_iff]
    refine ⟨idx, ?_, ?_⟩
    · intro hmem
      exact ((halloc idx).1 (Finset.mem_filter.1 hmem).2).1 rfl
    · intro i hi
      rcases Finset.mem_insert.1 hi with rfl | hi
      · exact Finset.mem_filter.2 ⟨Finset.mem_range.2 hidx, hfree⟩
      · obtain ⟨hrange, h0⟩ := Finset.mem_filter.1 hi
        exact Finset.mem_filter.2 ⟨hrange, ((halloc i).1 h0).2⟩

theorem processMalloc_ne_hang : processMalloc s proc size ≠ .error .hang := by
  simp only [processMalloc]
  split
  · intro h
    cases h
  · split
    · intro h
      cases h
    · refine bind_ne_error ?_ ?_
      · rw [processPageDir]
        split
        · intro h
          cases h
        · intro h
          cases h
      · intro dir _
        split
        · intro h
          cases h
        · intro h
          cases h

/-- 空いている記録より多くの上限があれば、並びがどのようなものでも尽きない。 -/
theorem processInjectLoop_ne_hang {k : Nat} {current : Word} {i : Int} (hk : freeAllocs (s.procs proc) < k) :
    processInjectLoop proc argv k s current i ≠ .error .hang := by
  induction k generalizing s current i with
  | zero => exact absurd hk (Nat.not_lt_zero _)
  | succ k ih =>
      rw [processInjectLoop]
      split
      · nofun
      · refine bind_ne_error processMalloc_ne_hang ?_
        intro ⟨sArg, s₁⟩ hmalloc
        simp only
        split
        · nofun
        · rename_i hne
          have hless := processMalloc_freeAllocs hmalloc hne
          obtain ⟨mem, hcopy⟩ := strncpyLoop_total (fun a => ⟨a, rfl⟩) ((CMD_ARG_SIZE : Int) - 1).toNat sArg current s₁.mem
          refine bind_ne_error ?_ ?_
          · rw [strncpy, hcopy]
            nofun
          · intro mem _
            exact ih (show freeAllocs (s₁.procs proc) < k by omega)

theorem processInjectArgs_ends (h : Ends (cmdArgNext s.mem) 0 root) :
    ∃ fuel, processInjectArgs fuel s proc root ≠ .error .hang := by
  obtain ⟨n, hn⟩ := h
  obtain ⟨fuel, hlen, hfuel⟩ : ∃ fuel, n ≤ fuel ∧ ENKI_MAX_PGM_ALLOCATIONS < fuel :=
    ⟨n + ENKI_MAX_PGM_ALLOCATIONS + 1, by omega, by omega⟩
  obtain ⟨argc, hcount⟩ : ∃ argc, processCountCmdArgs fuel s.mem root = .ok argc := processCountCmdArgsFrom_ok hlen hn
  refine ⟨fuel, bind_ne_error ?_ ?_⟩
  · rw [hcount]
    nofun
  · intro argc _
    split
    · nofun
    · refine bind_ne_error processMalloc_ne_hang ?_
      intro ⟨argv, s₁⟩ _
      simp only
      split
      · nofun
      · have hle := freeAllocs_le (s₁.procs proc)
        refine bind_ne_error (processInjectLoop_ne_hang (by omega)) ?_
        intro ⟨result, s₂⟩ _
        simp only
        split
        · nofun
        · nofun

theorem processInjectArgs_hang (h : ¬Ends (cmdArgNext s.mem) 0 root) (fuel : Nat) :
    processInjectArgs fuel s proc root = .error .hang := by
  rw [processInjectArgs, processCountCmdArgs_hang h]
  rfl

instance : Finite Word := .of_injective BitVec.toFin fun _ _ h => BitVec.toFin_inj.1 h

/-- どちらの歩みも、終わるのは、空のポインタに着くまでに同じ記録を二度通らないとき、そのときに限る。 -/
theorem processInjectArgs_ends_iff (s : Kernel) (proc root : Word) :
    ((∃ fuel argc, processCountCmdArgs fuel s.mem root = .ok argc) ↔ ¬Revisits (cmdArgNext s.mem) 0 root) ∧
    ((∃ fuel, processInjectArgs fuel s proc root ≠ .error .hang) ↔ ¬Revisits (cmdArgNext s.mem) 0 root) := by
  rw [← PointerWalk.ends_iff, processCountCmdArgs_ends_iff]
  refine ⟨Iff.rfl, ?_, processInjectArgs_ends⟩
  rintro ⟨fuel, h⟩
  by_contra hno
  exact h (processInjectArgs_hang hno fuel)

/-- `0x400000` の記録の `next` が、その記録自身を指すメモリ。 -/
def loopedMemory : Memory := Memory.write (fun _ => 0x41) 0x400200 (wordBytes 0x400000)

def loopedKernel : Kernel := { Kernel.boot bareState with mem := loopedMemory }

/-- 自分を指す記録からは、数える繰り返しも、引数を渡す手続きも、いつまでも終わらない。 -/
theorem processInjectArgs_fails_looped :
    (∀ fuel, processCountCmdArgs fuel loopedKernel.mem 0x400000 = .error .hang) ∧
    ∀ fuel, processInjectArgs fuel loopedKernel 0x00110000 0x400000 = .error .hang := by
  have hrev : Revisits (cmdArgNext loopedMemory) 0 0x400000 := by
    have hnext : cmdArgNext loopedMemory 0x400000 = 0x400000 := by decide
    refine ⟨0, 1, by decide, ?_, hnext.symm⟩
    intro k _
    rw [Function.iterate_fixed hnext]
    decide
  have hno : ¬Ends (cmdArgNext loopedKernel.mem) 0 0x400000 := hrev.not_ends
  exact ⟨processCountCmdArgs_hang hno, processInjectArgs_hang hno⟩

end EnkiOs
