import EnkiOs.Paging.New
import Mathlib.Data.List.Nodup

/-!
# ページの表の解放

`paging_free` が `heap_free` へ渡すアドレスの列。ディレクトリの形をした表では、テーブルとディレクトリが一度ずつ並ぶ。
-/

namespace EnkiOs
open Machine

variable {words : Words} {dir entries : Word} {table : Nat → Word}

def pagingFreeCalls (words : Words) (dir : Word) : List Word :=
  (List.range 1024).map (fun i => words (entryAddr (words dir) (BitVec.ofNat 32 i)) &&& 0xFFFFF000) ++ [words dir, dir]

theorem pagingFreeLoop_heap (words : Words) (entries : Word) (k i : Nat) (heap : Heap) :
    pagingFreeLoop words entries k i heap =
      ((List.range' i k).map fun j => words (entryAddr entries (BitVec.ofNat 32 j)) &&& 0xFFFFF000).foldl kfree heap := by
  induction k generalizing i heap with
  | zero => rfl
  | succ k ih =>
      rw [pagingFreeLoop, ih, List.range'_succ]
      rfl

theorem pagingFree_heap (heap : Heap) (words : Words) (dir : Word) :
    pagingFree heap words dir = (pagingFreeCalls words dir).foldl kfree heap := by
  rw [pagingFree, pagingFreeLoop_heap, pagingFreeCalls, List.foldl_append, List.range_eq_range']
  rfl

theorem PageDir.freeCalls_eq (h : PageDir words dir entries table) :
    pagingFreeCalls words dir = (List.range 1024).map table ++ [entries, dir] := by
  have hmap : (List.range 1024).map (fun i => words (entryAddr (words dir) (BitVec.ofNat 32 i)) &&& 0xFFFFF000) =
      (List.range 1024).map table := by
    apply List.map_congr_left
    intro i hi
    rw [h.dir_eq]
    exact h.dirEntry i (List.mem_range.1 hi)
  rw [pagingFreeCalls, hmap, h.dir_eq]

/-- ディレクトリは、それ自身の `entries` ではない。 -/
theorem PageDir.entries_ne_dir (h : PageDir words dir entries table) : entries ≠ dir := by
  intro he
  have hentry := h.dirEntry 0 (by decide)
  have hmask := h.entries_aligned.and_mask (show (0#32).toNat < 4096 by decide)
  rw [BitVec.or_zero] at hmask
  rw [entryAddr_zero, he, h.dir_eq, hmask] at hentry
  exact h.table_ne_entries 0 (by decide) hentry.symm

theorem PageDir.freeCalls_nodup (h : PageDir words dir entries table) :
    ((List.range 1024).map table ++ [entries, dir]).Nodup := by
  have htables : ((List.range 1024).map table).Nodup := by
    refine List.Nodup.map_on ?_ List.nodup_range
    intro i hi j hj he
    exact h.table_inj i (List.mem_range.1 hi) j (List.mem_range.1 hj) he
  have hlast : [entries, dir].Nodup := by simpa using h.entries_ne_dir
  refine List.Nodup.append htables hlast ?_
  intro a ha hlast
  obtain ⟨i, hi, rfl⟩ := List.mem_map.1 ha
  simp only [List.mem_cons, List.not_mem_nil, or_false] at hlast
  rcases hlast with he | he
  · exact h.table_ne_entries i (List.mem_range.1 hi) he
  · exact h.table_ne_dir i (List.mem_range.1 hi) he

end EnkiOs
