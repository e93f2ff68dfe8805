import EnkiOs.Process.Agree
import EnkiOs.Process.TableTheorems
import EnkiOs.Task.ContextTheorems

/-!
# プロセスの持つブロック

プロセスの持つブロックは、終了のときに返すブロックと記録のブロックに、割り当ての表の記録の占めるブロックを加えたものである。
-/

namespace EnkiOs
open Machine

variable {s s' s₁ : Kernel} {h h' h₀ : Heap} {own base : Nat → Prop} {p q ptr size toFree : Word} {b c m : Nat}

/-! ## 閉じた集まり -/

/-- 塞がったブロックの集まりで、割り当ての途中で切れない。 -/
structure Closed (h : Heap) (own : Nat → Prop) : Prop where
  taken : ∀ b, own b → b < 25600 ∧ Taken h b
  next : ∀ b, own b → b + 1 < 25600 → h.table.entries b &&& HEAP_BLOCK_HAS_NEXT ≠ 0 → own (b + 1)

namespace Closed

theorem congr (hc : Closed h own) (hsame : ∀ b, own b → h'.table.entries b = h.table.entries b) : Closed h' own where
  taken b hb := by
    obtain ⟨hlt, htaken⟩ := hc.taken b hb
    refine ⟨hlt, ?_⟩
    rw [Taken, HeapTable.freeAt, hsame b hb]
    exact htaken
  next b hb hlt hnext := by
    rw [hsame b hb] at hnext
    exact hc.next b hb hlt hnext

/-- 集まりの外の塞がったブロックは、囲える。 -/
theorem shielded (hc : Closed h own) (ht : Tidy h) : Shielded (fun b => Taken h b ∧ ¬own b) h h := by
  refine ⟨ht.toKernelHeap, ht.guarded, fun _ _ _ => rfl, ?_⟩
  rintro b hb hout ⟨htaken, hnot⟩
  by_cases hown : own b
  · by_contra hnext
    exact hnot (hc.next b hown hb hnext)
  · refine ht.clean b (by omega) ?_
    by_contra hfree
    exact hout ⟨by simpa [Taken] using hfree, hown⟩

/-- 集まりの中のアドレスを、どの順に何度解放しても、外の塞がったブロックは変わらない。 -/
theorem release (hc : Closed h own) (ht : Tidy h) (calls : List Word)
    (hcalls : ∀ a ∈ calls, a = 0 ∨ ∃ b, own b ∧ a = blockAddr b) :
    Shielded (fun b => Taken h b ∧ ¬own b) h (calls.foldl kfree h) ∧ Tidy (calls.foldl kfree h) := by
  have hkept : HeapKept (fun h' => Shielded (fun b => Taken h b ∧ ¬own b) h h' ∧ Tidy h')
      (Outside fun b => Taken h b ∧ ¬own b) := shieldedTidy_kept fun _ _ hb => hb.1
  refine foldl_kfree_kept hkept ⟨hc.shielded ht, ht⟩ ?_
  intro a ha
  rcases hcalls a ha with rfl | ⟨b, hown, rfl⟩
  · exact hkept.null
  · exact .inr ⟨b, (hc.taken b hown).1, rfl, fun hb => hb.2 hown⟩

end Closed

/-- 新しい割り当ての範囲は、閉じている。 -/
theorem MadeAt.closed (hm : MadeAt h₀ h b m) : Closed h fun j => b ≤ j ∧ j < b + m ∧ j < 25600 where
  taken := fun j hj => ⟨hj.2.2, hm.taken j hj.1 hj.2.1 hj.2.2⟩
  next := by
    rintro j ⟨h1, h2, h3⟩ hlt hnext
    refine ⟨by omega, ?_, hlt⟩
    by_contra hend
    -- 割り当ての最後のブロックは、続きを持たない。
    obtain rfl : j = b + m - 1 := by omega
    exact hnext (hm.stop (by omega))

/-! ## 内訳 -/

/-- 記録の占めるブロックは、表の中の一続きの割り当てである。 -/
structure ProcessAllocation.Laid (h : Heap) (a : ProcessAllocation) : Prop where
  addr : ∃ c, a.ptr = blockAddr c ∧ c + blocksFor a.size ≤ 25600
  pos : 0 < blocksFor a.size
  closed : Closed h a.Covers

/-- `base` は、`p` が終了のときに返すブロックと記録のブロックを含む。割り当ての表の記録は、`base` とも互いにも重ならない。 -/
structure Estate (s : Kernel) (p : Word) (base : Nat → Prop) : Prop where
  closed : Closed s.heap base
  record : ∃ b, base b ∧ p = blockAddr b
  task : (s.procs p).task ≠ 0
  pageDir : ∃ entries table, PageDir s.words (s.tasks (s.procs p).task).pageDir entries table
  release : ∀ a ∈ processReleaseCalls s p, ∃ b, base b ∧ a = blockAddr b
  released : 0 ≤ (processFreePgmData s p).1
  laid : ∀ i < ENKI_MAX_PGM_ALLOCATIONS, ((s.procs p).allocations i).ptr ≠ 0 → ((s.procs p).allocations i).Laid s.heap
  apart : ∀ i < ENKI_MAX_PGM_ALLOCATIONS, ((s.procs p).allocations i).ptr ≠ 0 →
    ∀ b, ((s.procs p).allocations i).Covers b → ¬base b
  distinct : ∀ i < ENKI_MAX_PGM_ALLOCATIONS, ∀ j < ENKI_MAX_PGM_ALLOCATIONS, i ≠ j →
    ((s.procs p).allocations i).ptr ≠ 0 → ((s.procs p).allocations j).ptr ≠ 0 →
    ∀ b, ((s.procs p).allocations i).Covers b → ¬((s.procs p).allocations j).Covers b
  blank : ∀ i, ENKI_MAX_PGM_ALLOCATIONS ≤ i ∨ ((s.procs p).allocations i).ptr = 0 → (s.procs p).allocations i = {}

/-- `p` の持つブロック。 -/
def Owns (s : Kernel) (p : Word) (base : Nat → Prop) (b : Nat) : Prop := base b ∨ Recorded s p b

/-- `p` の記録と、退避したレジスタ、ページの表、ブロックの値に触れない変化。 -/
structure Leaves (s s' : Kernel) (p : Word) (base : Nat → Prop) : Prop where
  record : s'.procs p = s.procs p
  pageDir : (s'.tasks (s.procs p).task).pageDir = (s.tasks (s.procs p).task).pageDir
  registers : (s'.tasks (s.procs p).task).registers = (s.tasks (s.procs p).task).registers
  words : ∀ b, base b → ∀ k < 1024,
    s'.words (entryAddr (blockAddr b) (BitVec.ofNat 32 k)) = s.words (entryAddr (blockAddr b) (BitVec.ofNat 32 k))
  elfFiles : ∀ b, base b → s'.elfFiles (blockAddr b) = s.elfFiles (blockAddr b)
  entries : ∀ b, Owns s p base b → s'.heap.table.entries b = s.heap.table.entries b

namespace Estate

theorem owns_taken (he : Estate s p base) (hb : Owns s p base b) : b < 25600 ∧ Taken s.heap b := by
  rcases hb with hb | ⟨i, hi, hne, hcov⟩
  · exact he.closed.taken b hb
  · exact (he.laid i hi hne).closed.taken b hcov

theorem mem_release (he : Estate s p base) {a : Word}
    (ha : a = (s.procs p).task ∨ a ∈ pagingFreeCalls s.words (s.tasks (s.procs p).task).pageDir) :
    a ∈ processReleaseCalls s p := by
  refine List.mem_append_right _ ?_
  rw [if_neg (Int.not_lt.2 he.released)]
  rcases ha with rfl | ha
  · exact List.mem_append_right _ List.mem_cons_self
  · exact List.mem_append_left _ (List.mem_cons_of_mem _ ha)

/-- 表のアドレスは、どれも自分のブロックである。 -/
theorem pageDir_base (he : Estate s p base) {entries : Word} {table : Nat → Word}
    (hpage : PageDir s.words (s.tasks (s.procs p).task).pageDir entries table) {a : Word}
    (ha : a = (s.tasks (s.procs p).task).pageDir ∨ a = entries ∨ ∃ i < 1024, a = table i) : ∃ b, base b ∧ a = blockAddr b := by
  refine he.release a (he.mem_release (.inr ?_))
  rw [hpage.freeCalls_eq]
  rcases ha with rfl | rfl | ⟨i, hi, rfl⟩
  · exact List.mem_append_right _ (List.mem_cons_of_mem _ List.mem_cons_self)
  · exact List.mem_append_right _ List.mem_cons_self
  · exact List.mem_append_left _ (List.mem_map.2 ⟨i, List.mem_range.2 hi, rfl⟩)

/-! ### 触れない変化 -/

theorem left_pageDir (he : Estate s p base) (hl : Leaves s s' p base) {entries : Word} {table : Nat → Word}
    (hpage : PageDir s.words (s.tasks (s.procs p).task).pageDir entries table) :
    PageDir s'.words (s'.tasks (s'.procs p).task).pageDir entries table := by
  rw [hl.record, hl.pageDir]
  refine { hpage with dir_eq := ?_, dirEntry := ?_ }
  · obtain ⟨b, hb, heq⟩ := he.pageDir_base hpage (.inl rfl)
    have hsame := hl.words b hb 0 (by decide)
    rw [entryAddr_zero, ← heq] at hsame
    rw [hsame]
    exact hpage.dir_eq
  · intro i hi
    obtain ⟨b, hb, heq⟩ := he.pageDir_base hpage (.inr (.inl rfl))
    have hsame := hl.words b hb i hi
    rw [← heq] at hsame
    rw [hsame]
    exact hpage.dirEntry i hi

theorem left_pgmDataCalls (he : Estate s p base) (hl : Leaves s s' p base) :
    processFreePgmDataCalls s' p = processFreePgmDataCalls s p := by
  simp only [processFreePgmDataCalls, hl.record]
  by_cases hbin : (s.procs p).fileType = PROCESS_FILE_TYPE_BIN
  · rw [if_pos hbin, if_pos hbin]
  · rw [if_neg hbin, if_neg hbin]
    by_cases helf : (s.procs p).fileType = PROCESS_FILE_TYPE_ELF ∧ (s.procs p).addr ≠ 0
    · rw [if_pos helf, if_pos helf]
      have hmem : (s.procs p).addr ∈ processReleaseCalls s p := by
        refine List.mem_append_left _ ?_
        simp only [processFreePgmDataCalls]
        rw [if_neg hbin, if_pos helf]
        exact List.mem_cons_of_mem _ List.mem_cons_self
      obtain ⟨b, hb, heq⟩ := he.release _ hmem
      rw [heq, hl.elfFiles b hb]
    · rw [if_neg helf, if_neg helf]

theorem left_releaseCalls (he : Estate s p base) (hl : Leaves s s' p base) :
    processReleaseCalls s' p = processReleaseCalls s p := by
  obtain ⟨entries, table, hpage⟩ := he.pageDir
  have hpaging := (he.left_pageDir hl hpage).freeCalls_eq
  rw [processReleaseCalls, processReleaseCalls, he.left_pgmDataCalls hl, processFreePgmData_code, processFreePgmData_code,
    hpaging, hpage.freeCalls_eq, hl.record, hl.pageDir]

/-- 自分のブロックに触れない変化の後も、持つブロックは同じである。 -/
theorem left (he : Estate s p base) (hl : Leaves s s' p base) : Estate s' p base := by
  obtain ⟨entries, table, hpage⟩ := he.pageDir
  refine ⟨he.closed.congr fun b hb => hl.entries b (.inl hb), he.record, ?_, ⟨entries, table, he.left_pageDir hl hpage⟩, ?_, ?_,
    ?_, ?_, ?_, ?_⟩
  · rw [hl.record]
    exact he.task
  · rw [he.left_releaseCalls hl]
    exact he.release
  · rw [processFreePgmData_code, hl.record, ← processFreePgmData_code]
    exact he.released
  · intro i hi hne
    rw [hl.record] at hne ⊢
    obtain ⟨haddr, hpos, hclosed⟩ := he.laid i hi hne
    exact ⟨haddr, hpos, hclosed.congr fun b hb => hl.entries b (.inr ⟨i, hi, hne, hb⟩)⟩
  · rw [hl.record]
    exact he.apart
  · rw [hl.record]
    exact he.distinct
  · rw [hl.record]
    exact he.blank

end Estate

theorem Leaves.owns_iff (hl : Leaves s s' p base) : Owns s' p base b ↔ Owns s p base b := by
  rw [Owns, Owns, Recorded, Recorded, hl.record]

end EnkiOs
