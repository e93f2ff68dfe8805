import EnkiOs.Lib.Fuel
import EnkiOs.Libc.Text

/-!
# 文字列のコピーの書き込み

`libc/string/string.c` の `strcpy` と `strncpy` を、書いたアドレスも残して行うもの。`written` は C の側には無く、仕様のためだけに
持つ。
-/

namespace EnkiOs
open Machine

structure Logged where
  mem : Memory
  written : List Word

def Logged.put (m : Logged) (a : Word) (c : Byte) : Logged := ⟨m.mem.write a [c], a :: m.written⟩

/-- 残りの回数を持つ。尽きたときは `stop` に続く。 -/
def copyLoop (stop : Word → Logged → Except Fault Logged) : Nat → Word → Word → Logged → Except Fault Logged
  | 0, dst, _, m => stop dst m
  | k + 1, dst, src, m =>
      if m.mem src = 0 then .ok (m.put dst 0) else copyLoop stop k (dst + 1) (src + 1) (m.put dst (m.mem src))

def strcpy (fuel : Nat) (dst src : Word) (m : Logged) : Except Fault Logged := copyLoop (fun _ _ => .error .hang) fuel dst src m

def strncpyLogged (dst src : Word) (n : Int) (m : Logged) : Except Fault Logged :=
  copyLoop (fun dst m => .ok (m.put dst 0)) (n - 1).toNat dst src m

variable {stop : Word → Logged → Except Fault Logged} {m : Logged} {dst src : Word} {k n : Nat}

/-- 書いたメモリは、`strncpy` のものである。 -/
theorem strncpyLogged_mem (dst src : Word) (n : Int) (m : Logged) :
    (strncpyLogged dst src n m).map Logged.mem = strncpy .ok dst src n m.mem := by
  rw [strncpyLogged, strncpy]
  induction (n - 1).toNat generalizing dst src m with
  | zero => rfl
  | succ k ih =>
      rw [copyLoop, strncpyLoop]
      by_cases h0 : m.mem src = 0
      · rw [if_pos h0, loadByte_ok rfl]
        exact (if_pos h0).symm
      · rw [if_neg h0, loadByte_ok rfl]
        exact (ih _ _ _).trans (if_neg h0).symm

/-- 上限を増やしても、結果は変わらない。 -/
theorem strcpy_mono {m' : Logged} {fuel : Nat} (h : strcpy k dst src m = .ok m') (hle : k ≤ fuel) :
    strcpy fuel dst src m = .ok m' := by
  unfold strcpy at h ⊢
  induction k generalizing fuel dst src m with
  | zero => cases h
  | succ k ih =>
      obtain ⟨l, rfl⟩ : ∃ l, fuel = l + 1 := ⟨fuel - 1, by omega⟩
      rw [copyLoop] at h ⊢
      split
      · rename_i h0
        rwa [if_pos h0] at h
      · rename_i h0
        rw [if_neg h0] at h
        exact ih h (Nat.le_of_succ_le_succ hle)

/-- まだ読んでいない文字を書き換えなければ、はじめの `n` 文字と終端が、`dst` から順に書かれる。 -/
theorem copyLoop_text (hne : ∀ i < n, charAt m.mem src i ≠ 0)
    (hend : (n < k ∧ charAt m.mem src n = 0) ∨ (n = k ∧ ∀ dst m, stop dst m = .ok (m.put dst 0)))
    (hapart : ∀ i ≤ n, ∀ j < i, src + BitVec.ofNat 32 i ≠ dst + BitVec.ofNat 32 j) (hn : n < 2 ^ 32 - 1) :
    ∃ m', copyLoop stop k dst src m = .ok m' ∧ m'.mem = m.mem.write dst (m.mem.read src n ++ [0]) ∧
      ∀ a, a ∈ m'.written ↔ a ∈ m.written ∨ ∃ j ≤ n, a = dst + BitVec.ofNat 32 j := by
  induction n generalizing k dst src m with
  | zero =>
      have hwritten : ∀ a, a ∈ (m.put dst 0).written ↔ a ∈ m.written ∨ ∃ j ≤ 0, a = dst + BitVec.ofNat 32 j := by
        intro a
        simp [Logged.put, or_comm]
      refine ⟨m.put dst 0, ?_, rfl, hwritten⟩
      rcases hend with ⟨hk, h0⟩ | ⟨rfl, hstop⟩
      · obtain ⟨k, rfl⟩ : ∃ l, k = l + 1 := ⟨k - 1, by omega⟩
        rw [charAt_zero] at h0
        exact if_pos h0
      · exact hstop dst m
  | succ n ih =>
      obtain ⟨k, rfl⟩ : ∃ l, k = l + 1 := ⟨k - 1, by omega⟩
      have hhead := hne 0 (Nat.succ_pos n)
      rw [charAt_zero] at hhead
      -- 後の文字は、いま書いたところにはない。
      have hsame : ∀ i ≤ n, charAt (m.put dst (m.mem src)).mem (src + 1) i = charAt m.mem src (i + 1) := by
        intro i hi
        rw [charAt, charAt, add_one_add]
        refine Memory.write_one_ne ?_ _
        have hfirst := hapart (i + 1) (by omega) 0 (Nat.succ_pos i)
        rwa [BitVec.add_zero] at hfirst
      obtain ⟨m', hrun, hmem, hwritten⟩ := @ih (m.put dst (m.mem src)) (dst + 1) (src + 1) k
        (fun i hi => by
          rw [hsame i (by omega)]
          exact hne (i + 1) (by omega))
        (by
          rw [hsame n (Nat.le_refl n)]
          rcases hend with ⟨hk, h0⟩ | ⟨hk, hstop⟩
          · exact .inl ⟨by omega, h0⟩
          · exact .inr ⟨by omega, hstop⟩)
        (fun i hi j hj => by
          rw [add_one_add, add_one_add]
          exact hapart (i + 1) (by omega) (j + 1) (by omega))
        (by omega)
      refine ⟨m', (if_neg hhead).trans hrun, ?_, ?_⟩
      · have hread : (m.put dst (m.mem src)).mem.read (src + 1) n = m.mem.read (src + 1) n := by
          refine List.map_congr_left fun i hi => ?_
          have hlt := List.mem_range.1 hi
          have heq := hsame i (by omega)
          rwa [charAt, charAt, ← add_one_add] at heq
        rw [hmem, hread, Memory.read_succ, List.cons_append, write_cons m.mem dst _ (by simp; omega)]
        rfl
      · intro a
        rw [hwritten]
        constructor
        · rintro (h | ⟨j, hj, rfl⟩)
          · rcases List.mem_cons.1 h with rfl | h
            · exact .inr ⟨0, Nat.zero_le _, (BitVec.add_zero a).symm⟩
            · exact .inl h
          · exact .inr ⟨j + 1, by omega, add_one_add dst j⟩
        · rintro (h | ⟨j, hj, rfl⟩)
          · exact .inl (List.mem_cons_of_mem _ h)
          · cases j with
            | zero =>
                rw [BitVec.add_zero]
                exact .inl List.mem_cons_self
            | succ j => exact .inr ⟨j, by omega, (add_one_add dst j).symm⟩

end EnkiOs
