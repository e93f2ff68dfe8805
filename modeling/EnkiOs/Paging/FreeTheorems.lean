import EnkiOs.Heap.Grown
import EnkiOs.Paging.Free

/-!
# 表を作って解放すると、ヒープが元に戻る

`paging_new` は空いたブロックを 1026 個、一つずつ塞ぐ。割り付けの呼び出しはテーブルの項目だけを書くので、`paging_free` は
その 1026 個をちょうど一度ずつ解放する。
-/

namespace EnkiOs
open Machine

variable {h₀ heap heap' : Heap} {words words' : Words} {dir entries : Word} {table : Nat → Word} {ps : List Word}

/-! ## 作成の塞ぐブロック -/

theorem pagingNewLoop_grown (hk : KernelHeap h₀) (flags entries : Word) (k i : Nat) (offset : Word) (words : Words)
    (hg : Grown h₀ heap ps) (hroom : ps.length + k ≤ h₀.table.freeCount) :
    ∃ heap' words' ps', pagingNewLoop flags entries k i offset heap words = .ok (heap', words') ∧
      Grown h₀ heap' ps' ∧ ps'.length = ps.length + k := by
  induction k generalizing heap ps i offset words with
  | zero => exact ⟨heap, words, ps, rfl, hg, rfl⟩
  | succ k ih =>
      obtain ⟨b, hb, heq, hg'⟩ := hg.kzalloc (n := 4 * PAGING_TOTAL_ENTRIES_PER_TABLE) hk (by decide) (by decide) (by omega)
      rw [pagingNewLoop_succ heq (blockAddr_ne_zero (Nat.le_of_lt hb))]
      obtain ⟨heap', words', ps', hloop, hgrown, hlen⟩ := ih _ _ _ hg' (by rw [List.length_cons]; omega)
      exact ⟨heap', words', ps', hloop, hgrown, by rw [hlen, List.length_cons]; omega⟩

/-- 空いたブロックが 1026 個あれば、`paging_new` は成功し、そのうちの 1026 個を塞ぐ。 -/
theorem pagingNew_grown (hk : KernelHeap heap) (hroom : 1026 ≤ heap.table.freeCount) (words : Words) (flags : Byte) :
    ∃ dir heap' words' ps, pagingNew heap words flags = .ok (dir, heap', words') ∧ Grown heap heap' ps ∧ ps.length = 1026 := by
  have htotal : PAGING_TOTAL_ENTRIES_PER_TABLE = 1024 := rfl
  obtain ⟨e, he, heq, hg₁⟩ := (Grown.refl heap).kzalloc (n := 4 * PAGING_TOTAL_ENTRIES_PER_TABLE) hk (by decide) (by decide)
    (by rw [List.length_nil]; omega)
  obtain ⟨heap₂, words₂, ps₂, hloop, hg₂, hlen₂⟩ := pagingNewLoop_grown hk (flags.setWidth 32) (blockAddr e)
    PAGING_TOTAL_ENTRIES_PER_TABLE 0 0 words hg₁ (by simp only [List.length_cons, List.length_nil]; omega)
  simp only [List.length_cons, List.length_nil] at hlen₂
  obtain ⟨d, hd, hdeq, hg₃⟩ := hg₂.kzalloc (n := 4) hk (by decide) (by decide) (by omega)
  refine ⟨blockAddr d, _, words₂.set (blockAddr d) (blockAddr e), blockAddr d :: ps₂, ?_, hg₃, by
    rw [List.length_cons, hlen₂, htotal]⟩
  simp only [pagingNew]
  rw [heq]
  simp only [if_neg (blockAddr_ne_zero (Nat.le_of_lt he))]
  refine bind_ok.2 ⟨_, hloop, ?_⟩
  simp only
  rw [hdeq]
  simp only [if_neg (blockAddr_ne_zero (Nat.le_of_lt hd))]
  rfl

theorem grown_kept (hk : KernelHeap h₀) : PageKept (fun h => ∃ ps, Grown h₀ h ps)
    fun a => a = 0 ∨ ∃ b < 25600, a = blockAddr b ∧ h₀.table.freeAt b = true := by
  rintro h n hpos hle ⟨ps, hg⟩
  rcases (hg.toKernelHeap hk).kzalloc_small hpos hle with h0 | ⟨b, hb, hfree, heq⟩
  · rw [h0]
    exact ⟨⟨ps, hg⟩, .inl rfl⟩
  · rw [heq]
    exact ⟨⟨_, hg.mark hb hfree⟩, .inr ⟨b, hb, rfl, ((hg.freeAt_iff hb).1 hfree).1⟩⟩

/-- 作った表の解放の並びは、塞いだブロックの並びの並べ替えである。 -/
theorem pagingNew_freeCalls {flags : Byte} (hk : KernelHeap heap) (h : pagingNew heap words flags = .ok (dir, heap', words'))
    (hg : Grown heap heap' ps) (hlen : ps.length = 1026) :
    ∃ entries table, PageDir words' dir entries table ∧ ps.Perm ((List.range 1024).map table ++ [entries, dir]) := by
  obtain ⟨-, -, entries, table, hpage, -, -, ⟨hdir, hentries, htable⟩, htaken⟩ :=
    pagingNew_built (grown_kept hk) hk ⟨[], Grown.refl heap⟩ h
  -- どのブロックも、初めは空いていて今は塞がっているので、並びにある。
  have hmem : ∀ p, (p = dir ∨ p = entries ∨ ∃ i < 1024, p = table i) →
      (p = 0 ∨ ∃ b < 25600, p = blockAddr b ∧ heap.table.freeAt b = true) → p ∈ ps := by
    intro p hp hfresh
    obtain ⟨b, hb, rfl, hbtaken⟩ := htaken p hp
    rcases hfresh with h0 | ⟨c, hc, he, hfree⟩
    · exact absurd h0 (blockAddr_ne_zero (Nat.le_of_lt hb))
    · obtain rfl := blockAddr_inj (Nat.le_of_lt hb) (Nat.le_of_lt hc) he
      by_contra hno
      rw [(hg.freeAt_iff hb).2 ⟨hfree, hno⟩] at hbtaken
      cases hbtaken
  have hsub : (List.range 1024).map table ++ [entries, dir] ⊆ ps := by
    intro p hp
    rcases List.mem_append.1 hp with hp | hp
    · obtain ⟨i, hi, rfl⟩ := List.mem_map.1 hp
      rw [List.mem_range] at hi
      exact hmem _ (.inr (.inr ⟨i, hi, rfl⟩)) (htable i hi)
    · simp only [List.mem_cons, List.not_mem_nil, or_false] at hp
      rcases hp with rfl | rfl
      · exact hmem _ (.inr (.inl rfl)) hentries
      · exact hmem _ (.inl rfl) hdir
  refine ⟨entries, table, hpage, ?_⟩
  refine ((List.subperm_of_subset hpage.freeCalls_nodup hsub).perm_of_length_le ?_).symm
  rw [List.length_append, List.length_map, List.length_range, hlen]
  exact Nat.le_refl 1026

/-! ## 割り付けの呼び出し -/

/-- 表への呼び出し。 -/
inductive PagingCall where
  | set (virtAddr val : Word)
  | map (virtAddr physAddr flags : Word)
  | mapRange (virtAddr physAddr : Word) (pageCount : Int) (flags : Word)
  | mapTo (virtAddr physAddr physEnd flags : Word)

/-- 失敗した呼び出しも、そこまでの書き込みを残す。 -/
def PagingCall.run (dir : Word) (words : Words) : PagingCall → Words
  | .set virtAddr val => (pagingSet words (words dir) virtAddr val).2
  | .map virtAddr physAddr flags => (pagingMap words dir virtAddr physAddr flags).2
  | .mapRange virtAddr physAddr pageCount flags => (pagingMapRange words dir virtAddr physAddr pageCount flags).2
  | .mapTo virtAddr physAddr physEnd flags => (pagingMapTo words dir virtAddr physAddr physEnd flags).2

theorem PageDir.run (h : PageDir words dir entries table) (call : PagingCall) :
    PageDir (call.run dir words) dir entries table := by
  cases call with
  | set virtAddr val =>
      rw [PagingCall.run, h.dir_eq]
      exact h.pagingSet virtAddr val
  | map virtAddr physAddr flags => exact h.pagingMap virtAddr physAddr flags
  | mapRange virtAddr physAddr pageCount flags => exact h.mapRange virtAddr physAddr pageCount flags
  | mapTo virtAddr physAddr physEnd flags => exact h.mapTo virtAddr physAddr physEnd flags

theorem PageDir.foldl_run (h : PageDir words dir entries table) (calls : List PagingCall) :
    PageDir (calls.foldl (PagingCall.run dir) words) dir entries table := by
  induction calls generalizing words with
  | nil => exact h
  | cons call calls ih => exact ih (h.run call)

/-! ## 解放 -/

/-- 表を作り、どのような割り付けの呼び出しの後に解放しても、ヒープは作る前に戻る。 -/
theorem pagingFree_restores (hc : CleanHeap heap) (hroom : 1026 ≤ heap.table.freeCount) (words : Words) (flags : Byte)
    (calls : List PagingCall) :
    ∃ dir heap' words', pagingNew heap words flags = .ok (dir, heap', words') ∧
      pagingFree heap' (calls.foldl (PagingCall.run dir) words') dir = heap := by
  obtain ⟨dir, heap', words', ps, hnew, hg, hlen⟩ := pagingNew_grown hc.toKernelHeap hroom words flags
  obtain ⟨entries, table, hpage, hperm⟩ := pagingNew_freeCalls hc.toKernelHeap hnew hg hlen
  refine ⟨dir, heap', words', hnew, ?_⟩
  rw [pagingFree_heap, (hpage.foldl_run calls).freeCalls_eq]
  exact (hg.perm hperm).foldl_kfree hc

/-- 起動の直後のヒープで、2 ページを割り付けて、揃わないアドレスも渡す。 -/
theorem pagingFree_restores_boot : ∃ dir heap' words', pagingNew bootHeap (fun _ => 0) 5 = .ok (dir, heap', words') ∧
    pagingFree heap' ([PagingCall.mapTo 0x400000 0x01000000 0x01002000 7, .set 0x401 0].foldl (PagingCall.run dir) words') dir =
      bootHeap :=
  pagingFree_restores cleanHeap_boot (by rw [freeCount_boot]; decide) (fun _ => 0) 5
    [.mapTo 0x400000 0x01000000 0x01002000 7, .set 0x401 0]

end EnkiOs
