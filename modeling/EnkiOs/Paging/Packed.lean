import EnkiOs.Paging.Basic
import EnkiOs.Heap.Lemmas.Packed

/-!
# 詰まったヒープでのページディレクトリの作成

ディレクトリに一つ、テーブルに 1024 個、`struct paging_page_dir` に一つのブロックを使う。
-/

namespace EnkiOs
open Machine

variable {h : Heap} {b : Nat}

theorem pagingNewLoop_packed (flags entries : Word) (k i : Nat) (offset : Word) (words : Words)
    (hp : Packed h b) (hfit : b + k ≤ 25600) :
    ∃ h' words', pagingNewLoop flags entries k i offset h words = .ok (h', words') ∧ Packed h' (b + k) := by
  induction k generalizing h b i offset words with
  | zero => exact ⟨h, words, rfl, hp⟩
  | succ k ih =>
      obtain ⟨h₁, hk, hne, hp₁⟩ := hp.small (show 0 < 4096 by omega) (by omega) (by omega)
      simp only [pagingNewLoop]
      rw [show 4 * PAGING_TOTAL_ENTRIES_PER_TABLE = 4096 from rfl, hk]
      simp only [if_neg hne]
      rw [show b + (k + 1) = b + 1 + k by omega]
      exact ih _ _ _ hp₁ (by omega)

theorem pagingNew_packed (words : Words) (flags : Byte) (hp : Packed h b) (hfit : b + 1026 ≤ 25600) :
    ∃ h' words', pagingNew h words flags = .ok (blockAddr (b + 1025), h', words') ∧ Packed h' (b + 1026) := by
  obtain ⟨h₁, hk₁, hne₁, hp₁⟩ := hp.small (show 0 < 4096 by omega) (by omega) (by omega)
  obtain ⟨h₂, words₂, hloop, hp₂⟩ :=
    pagingNewLoop_packed (flags.setWidth 32) (blockAddr b) 1024 0 0 words hp₁ (by omega)
  obtain ⟨h₃, hk₃, hne₃, hp₃⟩ := hp₂.small (show 0 < 4 by omega) (by omega) (by omega)
  refine ⟨h₃, words₂.set (blockAddr (b + 1025)) (blockAddr b), ?_, hp₃⟩
  simp only [pagingNew]
  rw [show 4 * PAGING_TOTAL_ENTRIES_PER_TABLE = 4096 from rfl, hk₁]
  simp only [if_neg hne₁]
  refine bind_ok.2 ⟨_, hloop, ?_⟩
  simp only
  rw [hk₃]
  simp only [if_neg hne₃]
  rfl

end EnkiOs
