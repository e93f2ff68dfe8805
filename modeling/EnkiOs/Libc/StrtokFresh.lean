import EnkiOs.Lib.Fuel
import EnkiOs.Libc.StrtokTheorems

/-!
# 途中でやめた切り分けの後の呼び出し

`if (str && !last)` なので、前の切り分けを終わりまで呼ばずにやめると、次に渡した文字列は見られず、`last` の続きから始まる。
-/

namespace EnkiOs
open Machine Segments Fuel

variable {tr : Translation} {delimiters t : List Byte} {mem mem' : Memory} {s q p p' a b tok last last' str str' : Word} {fuel k : Nat}
  {ts : List (Nat × List Byte)} {c : Byte}

/-! ## 上限を増やした呼び出し -/

theorem strtokSkip_mono (h : strtokSkip tr delimiters mem k p = .ok a) (hle : k ≤ fuel) :
    strtokSkip tr delimiters mem fuel p = .ok a := by
  induction k generalizing p fuel with
  | zero => cases h
  | succ k ih =>
      obtain ⟨fuel, rfl⟩ : ∃ l, fuel = l + 1 := ⟨fuel - 1, by omega⟩
      obtain ⟨c, hc, h⟩ := bind_ok.1 h
      refine bind_ok.2 ⟨c, hc, ?_⟩
      split at h
      · rename_i hmem
        rw [if_pos hmem]
        exact ih h (Nat.le_of_succ_le_succ hle)
      · rename_i hmem
        rwa [if_neg hmem]

theorem strtokScan_mono {r : Word × Memory} (h : strtokScan tr delimiters k p mem = .ok r) (hle : k ≤ fuel) :
    strtokScan tr delimiters fuel p mem = .ok r := by
  induction k generalizing p fuel with
  | zero => cases h
  | succ k ih =>
      obtain ⟨fuel, rfl⟩ : ∃ l, fuel = l + 1 := ⟨fuel - 1, by omega⟩
      obtain ⟨c, hc, h⟩ := bind_ok.1 h
      refine bind_ok.2 ⟨c, hc, ?_⟩
      by_cases h0 : c = 0
      · rwa [if_pos h0] at h ⊢
      · rw [if_neg h0] at h ⊢
        by_cases hmem : delimiters.idxOf c < delimiters.length
        · rwa [if_pos hmem] at h ⊢
        · rw [if_neg hmem] at h ⊢
          exact ih h (Nat.le_of_succ_le_succ hle)

/-- 値を返した呼び出しは、区切りを読み飛ばしたところで終端を読んだか、そこから語を切り出した。 -/
theorem strtok_cases (hnull : ¬(str = 0 ∧ last = 0)) (h : strtok fuel tr last str delimiters mem = .ok (tok, last', mem')) :
    ∃ a c, strtokSkip tr delimiters mem fuel (if str ≠ 0 ∧ last = 0 then str else last) = .ok a ∧ loadByte tr mem a = .ok c ∧
      ((c = 0 ∧ tok = 0 ∧ last' = 0 ∧ mem' = mem) ∨
        (c ≠ 0 ∧ tok = a ∧ strtokScan tr delimiters fuel a mem = .ok (last', mem'))) := by
  simp only [strtok, if_neg hnull] at h
  obtain ⟨a, ha, h⟩ := bind_ok.1 h
  obtain ⟨c, hc, h⟩ := bind_ok.1 h
  refine ⟨a, c, ha, hc, ?_⟩
  by_cases h0 : c = 0
  · rw [if_pos h0] at h
    cases h
    exact .inl ⟨h0, rfl, rfl, rfl⟩
  · rw [if_neg h0] at h
    obtain ⟨r, hr, h⟩ := bind_ok.1 h
    cases h
    exact .inr ⟨h0, rfl, hr⟩

/-- 読み飛ばした先が同じなら、結果も同じである。 -/
theorem strtok_congr (hnull : ¬(str = 0 ∧ last = 0)) (hnull' : ¬(str' = 0 ∧ last' = 0))
    (h : strtokSkip tr delimiters mem fuel (if str ≠ 0 ∧ last = 0 then str else last) = .ok a)
    (h' : strtokSkip tr delimiters mem fuel (if str' ≠ 0 ∧ last' = 0 then str' else last') = .ok a) :
    strtok fuel tr last str delimiters mem = strtok fuel tr last' str' delimiters mem := by
  simp only [strtok, if_neg hnull, if_neg hnull', h, h']

theorem strtok_mono (h : strtok k tr last str delimiters mem = .ok (tok, last', mem')) (hle : k ≤ fuel) :
    strtok fuel tr last str delimiters mem = .ok (tok, last', mem') := by
  by_cases hnull : str = 0 ∧ last = 0
  · rw [strtok, if_pos hnull] at h ⊢
    exact h
  · obtain ⟨a, c, hskip, hc, ⟨rfl, rfl, rfl, rfl⟩ | ⟨h0, rfl, hscan⟩⟩ := strtok_cases hnull h
    · exact strtok_end hnull (strtokSkip_mono hskip hle) hc
    · exact strtok_token hnull (strtokSkip_mono hskip hle) hc h0 (strtokScan_mono hscan hle)

theorem StrtokRun.mono (h : StrtokRun k tr delimiters s q ts last str mem mem') (hle : k ≤ fuel) :
    StrtokRun fuel tr delimiters s q ts last str mem mem' := by
  induction ts generalizing last str mem with
  | nil => exact ⟨strtok_mono h.1 hle, h.2⟩
  | cons t ts ih =>
      obtain ⟨last', mem₁, hcall, hstr, hrest⟩ := h
      exact ⟨last', mem₁, strtok_mono hcall hle, hstr, ih hrest⟩

/-- 初めの呼び出しの結果が同じなら、続きも同じである。 -/
theorem StrtokRun.congr (h : StrtokRun fuel tr delimiters s q ts last str mem mem')
    (hcall : strtok fuel tr last' str' delimiters mem = strtok fuel tr last str delimiters mem) :
    StrtokRun fuel tr delimiters s q ts last' str' mem mem' := by
  cases ts with
  | nil => exact ⟨hcall.trans h.1, h.2⟩
  | cons t ts =>
      obtain ⟨last₁, mem₁, hfirst, hstr, hrest⟩ := h
      exact ⟨last₁, mem₁, hcall.trans hfirst, hstr, hrest⟩

/-! ## 始まる位置 -/

/-- `p` から続く区切りの、すぐ後が `a` である。 -/
def FirstAt (tr : Translation) (delimiters : List Byte) (mem : Memory) (p a : Word) : Prop :=
  ∃ i, a = p + BitVec.ofNat 32 i ∧ (∀ j < i, ∃ c ∈ delimiters, loadByte tr mem (p + BitVec.ofNat 32 j) = .ok c) ∧
    ∃ c, c ∉ delimiters ∧ loadByte tr mem a = .ok c

theorem strtokSkip_first (h : strtokSkip tr delimiters mem k p = .ok a) : FirstAt tr delimiters mem p a := by
  induction k generalizing p with
  | zero => cases h
  | succ k ih =>
      obtain ⟨c, hc, h⟩ := bind_ok.1 h
      split at h
      · rename_i hmem
        obtain ⟨i, rfl, hds, hlast⟩ := ih h
        rw [add_one_add] at hlast
        refine ⟨i + 1, add_one_add p i, ?_, by rwa [add_one_add]⟩
        intro j hj
        cases j with
        | zero => exact ⟨c, List.idxOf_lt_length_iff.1 hmem, by rwa [BitVec.add_zero]⟩
        | succ j =>
            rw [← add_one_add]
            exact hds j (by omega)
      · rename_i hmem
        cases h
        exact ⟨0, (BitVec.add_zero _).symm, by simp, c, by rwa [List.idxOf_lt_length_iff] at hmem, hc⟩

theorem FirstAt.settles (h : FirstAt tr delimiters mem p a) : Settles (fun fuel => strtokSkip tr delimiters mem fuel p) a := by
  obtain ⟨i, rfl, hds, c, hc, hlast⟩ := h
  suffices hrun : strtokSkip tr delimiters mem (i + 1) p = .ok (p + BitVec.ofNat 32 i) from
    ⟨i + 1, fun fuel hfuel => strtokSkip_mono hrun hfuel⟩
  induction i generalizing p with
  | zero =>
      refine bind_ok.2 ⟨c, by rwa [BitVec.add_zero] at hlast, ?_⟩
      rw [if_neg (by rwa [List.idxOf_lt_length_iff]), BitVec.add_zero]
      rfl
  | succ i ih =>
      obtain ⟨d, hd, hload⟩ := hds 0 (Nat.succ_pos i)
      rw [BitVec.add_zero] at hload
      refine bind_ok.2 ⟨d, hload, ?_⟩
      rw [if_pos (List.idxOf_lt_length_iff.2 hd), ← add_one_add]
      refine ih (fun j hj => ?_) (by rwa [add_one_add])
      rw [add_one_add]
      exact hds (j + 1) (by omega)

/-- 進んだ先が終端のときの他は、メモリが変わる。 -/
theorem strtokScan_end (h : strtokScan tr delimiters k p mem = .ok (p', mem')) : loadByte tr mem p' = .ok 0 ∨ mem' ≠ mem := by
  induction k generalizing p with
  | zero => cases h
  | succ k ih =>
      obtain ⟨c, hc, h⟩ := bind_ok.1 h
      by_cases h0 : c = 0
      · rw [if_pos h0] at h
        cases h
        exact .inl (h0 ▸ hc)
      · rw [if_neg h0] at h
        split at h
        · obtain ⟨mem₁, hstore, h⟩ := bind_ok.1 h
          cases h
          obtain ⟨x, hx, rfl⟩ := storeByte_cases hstore
          rw [loadByte_ok hx] at hc
          cases hc
          refine .inr fun heq => h0 ?_
          rw [← congrFun heq x]
          exact write_one mem x 0
        · exact ih h

/-! ## 新しい文字列からの切り分け -/

/-- `last` が残っていても、`s` を渡すと `s` の文字列 `t` のすべての語が順に返り、最後に 0 が返る。 -/
def StartsFresh (tr : Translation) (delimiters : List Byte) (s q : Word) (t : List Byte) (last : Word) (mem : Memory) : Prop :=
  ∃ n ts mem', Located (· ∈ delimiters) 0 t ts ∧ ∀ fuel ≥ n, StrtokRun fuel tr delimiters s q ts last s mem mem'

theorem cur_last (hlast : last ≠ 0) : (if str ≠ 0 ∧ last = 0 then str else last) = last := if_neg fun h => hlast h.2

/-- 文字列の初めの区切りの、すぐ後。 -/
theorem firstAt_text (hnul : 0 ∉ delimiters) (hmap : ∀ j ≤ t.length, tr (s + BitVec.ofNat 32 j) = .ok (q + BitVec.ofNat 32 j))
    (h : StrAt mem q t) : ∃ ds t', t = ds ++ t' ∧ (∀ c ∈ ds, c ∈ delimiters) ∧ (∀ c ∈ t'.head?, c ∉ delimiters) ∧
      FirstAt tr delimiters mem s (s + BitVec.ofNat 32 ds.length) ∧
      loadByte tr mem (s + BitVec.ofNat 32 ds.length) = .ok (t'.headD 0) := by
  obtain ⟨ds, t', rfl, hds, hhead, hskip, hstr⟩ := strtokSkip_split hnul (Nat.lt_succ_self t.length) h hmap
  refine ⟨ds, t', rfl, hds, hhead, strtokSkip_first hskip, ?_⟩
  rw [loadByte_ok (hmap ds.length (by simp))]
  cases t' with
  | nil => exact congrArg _ hstr
  | cons c t' => exact congrArg _ hstr.1

/-- 残った `last` から始まるところは、`s` から始まるところか、どちらも終端である。 -/
theorem StartsFresh.first (hnul : 0 ∉ delimiters) (hend : s.toNat + t.length < 2 ^ 32) (hs : s ≠ 0)
    (hmap : ∀ j ≤ t.length, tr (s + BitVec.ofNat 32 j) = .ok (q + BitVec.ofNat 32 j)) (h : StrAt mem q t) (hlast : last ≠ 0)
    (hfresh : StartsFresh tr delimiters s q t last mem) :
    ∃ a b, FirstAt tr delimiters mem last a ∧ FirstAt tr delimiters mem s b ∧
      (a = b ∨ (loadByte tr mem a = .ok 0 ∧ loadByte tr mem b = .ok 0)) := by
  obtain ⟨ds, t', rfl, hds, hhead, hfirst, hload⟩ := firstAt_text hnul hmap h
  obtain ⟨n, ts, mem', hlocated, hrun⟩ := hfresh
  have hrun := hrun n (Nat.le_refl n)
  have hds' : ∀ c ∈ ds, decide (c ∈ delimiters) = true := by simpa using hds
  have hnull : ¬(s = 0 ∧ last = 0) := fun h => hlast h.2
  cases ts with
  | nil =>
      obtain ⟨a, c, hskip, hc, hcase⟩ := strtok_cases hnull hrun.1
      rw [cur_last hlast] at hskip
      refine ⟨a, _, strtokSkip_first hskip, hfirst, ?_⟩
      rcases hcase with ⟨rfl, -⟩ | ⟨h0, rfl, hscan⟩
      · cases t' with
        | nil => exact .inr ⟨hc, hload⟩
        | cons d t' =>
            have hall := words_eq_nil.1 hlocated.words_eq.symm d (by simp)
            exact absurd (by simpa using hall) (hhead d rfl)
      · -- 語を切り出した呼び出しは、0 を返して `last` も 0 に戻すことがない。
        rcases strtokScan_end hscan with hzero | hne
        · rw [hc] at hzero
          cases hzero
          exact absurd rfl h0
        · exact absurd rfl hne
  | cons iw ts =>
      obtain ⟨i, w⟩ := iw
      obtain ⟨last', mem₁, hcall, -, -⟩ := hrun
      obtain ⟨a, c, hskip, hc, hcase⟩ := strtok_cases hnull hcall
      rw [cur_last hlast] at hskip
      refine ⟨a, _, strtokSkip_first hskip, hfirst, .inl ?_⟩
      cases t' with
      | nil =>
          rw [List.append_nil] at hlocated
          have hwords := hlocated.words_eq
          rw [words_eq_nil.2 hds'] at hwords
          cases hwords
      | cons d t' =>
          have hi := hlocated.head hds' (by simpa using hhead d rfl)
          rw [Nat.zero_add] at hi
          subst hi
          rcases hcase with ⟨-, h0, -⟩ | ⟨-, heq, -⟩
          · rw [List.length_append] at hend
            exact absurd h0 (add_ofNat_ne_zero hs (by omega))
          · exact heq.symm

theorem startsFresh_zero (hnul : 0 ∉ delimiters) (hs : s ≠ 0) (hend : s.toNat + t.length < 2 ^ 32)
    (hmap : ∀ j ≤ t.length, tr (s + BitVec.ofNat 32 j) = .ok (q + BitVec.ofNat 32 j)) (h : StrAt mem q t) :
    StartsFresh tr delimiters s q t 0 mem := by
  obtain ⟨ts, mem', hlocated, hrun, -⟩ := strtokRun_located (k := 0) hnul (Nat.lt_succ_self t.length) hs
    (by omega) (by simpa using hmap) (.inl ⟨hs, rfl, BitVec.add_zero s⟩) (by rwa [BitVec.add_zero])
  exact ⟨t.length + 1, ts, mem', hlocated, fun fuel hfuel => hrun.mono hfuel⟩

/-- 渡した文字列から始まるのは、`last` が 0 のときと、`last` から区切りを読み飛ばした先が、`s` から読み飛ばした先と同じか、どちらも
終端のときだけである。 -/
theorem strtok_starts_iff (hnul : 0 ∉ delimiters) (hs : s ≠ 0) (hend : s.toNat + t.length < 2 ^ 32)
    (hmap : ∀ j ≤ t.length, tr (s + BitVec.ofNat 32 j) = .ok (q + BitVec.ofNat 32 j)) (h : StrAt mem q t) :
    StartsFresh tr delimiters s q t last mem ↔ last = 0 ∨ ∃ a b, FirstAt tr delimiters mem last a ∧
      FirstAt tr delimiters mem s b ∧ (a = b ∨ (loadByte tr mem a = .ok 0 ∧ loadByte tr mem b = .ok 0)) := by
  have hzero := startsFresh_zero hnul hs hend hmap h
  constructor
  · intro hfresh
    by_cases hlast : last = 0
    · exact .inl hlast
    · exact .inr (hfresh.first hnul hend hs hmap h hlast)
  · rintro (rfl | ⟨a, b, ha, hb, hsame⟩)
    · exact hzero
    · by_cases hlast : last = 0
      · rw [hlast]
        exact hzero
      · have hnull : ¬(s = 0 ∧ last = 0) := fun h => hlast h.2
        obtain ⟨n, hn⟩ := ha.settles
        obtain ⟨k, hk⟩ := hb.settles
        rcases hsame with rfl | ⟨ha0, hb0⟩
        · obtain ⟨l, ts, mem', hlocated, hrun⟩ := hzero
          refine ⟨max l (max n k), ts, mem', hlocated, fun fuel hfuel => ?_⟩
          refine (hrun fuel (by omega)).congr (strtok_congr hnull (fun h => hs h.1) (a := a) ?_ ?_)
          · rw [cur_last hlast]
            exact hn fuel (by omega)
          · rw [if_pos ⟨hs, rfl⟩]
            exact hk fuel (by omega)
        · obtain ⟨ds, t', rfl, hds, -, hfirst, hload⟩ := firstAt_text hnul hmap h
          rw [hfirst.settles.unique hb.settles, hb0] at hload
          obtain rfl : t' = [] := by
            cases t' with
            | nil => rfl
            | cons c t' =>
                cases hload
                exact absurd rfl (h.ne_zero 0 (by simp))
          refine ⟨n, [], mem, Located.skip located_nil (by simpa using hds), fun fuel hfuel => ⟨?_, rfl⟩⟩
          refine strtok_end hnull ?_ ha0
          rw [cur_last hlast]
          exact hn fuel hfuel

/-- `strtok(0x1000, " ")` で `"a b"` から `a` だけを切り出した後のメモリ。 -/
def abandonedMemory : Memory := strtokMemory.write 0x1001 [0]

theorem strtok_starts_iff_abandoned : StartsFresh .ok [0x20] 0x2000 0x2000 [0x63, 0x20, 0x64] 0x1002 abandonedMemory ↔
    (0x1002 : Word) = 0 ∨ ∃ a b, FirstAt .ok [0x20] abandonedMemory 0x1002 a ∧ FirstAt .ok [0x20] abandonedMemory 0x2000 b ∧
      (a = b ∨ (loadByte .ok abandonedMemory a = .ok 0 ∧ loadByte .ok abandonedMemory b = .ok 0)) :=
  strtok_starts_iff (by decide) (by decide) (by decide) (fun _ _ => rfl) (by decide)

/-- `"a b"` の切り分けを一度でやめた後に、`"c d"` を渡すと、`b` が返る。 -/
theorem strtok_starts_fails :
    strtok 4 .ok 0 0x1000 [0x20] strtokMemory = .ok (0x1000, 0x1002, abandonedMemory) ∧
    StrAt abandonedMemory 0x2000 [0x63, 0x20, 0x64] ∧
    (∀ fuel ≥ 4, strtok fuel .ok 0x1002 0x2000 [0x20] abandonedMemory = .ok (0x1002, 0x1003, abandonedMemory)) ∧
    ¬StartsFresh .ok [0x20] 0x2000 0x2000 [0x63, 0x20, 0x64] 0x1002 abandonedMemory := by
  refine ⟨rfl, by decide, fun fuel hfuel => strtok_mono rfl hfuel, fun hfresh => ?_⟩
  obtain ⟨a, b, ha, hb, hsame⟩ := hfresh.first (by decide) (by decide) (by decide) (fun _ _ => rfl) (by decide) (by decide)
  have ha' : a = 0x1002 := ha.settles.unique ⟨4, fun fuel hfuel => strtokSkip_mono rfl hfuel⟩
  have hb' : b = 0x2000 := hb.settles.unique ⟨4, fun fuel hfuel => strtokSkip_mono rfl hfuel⟩
  subst ha' hb'
  revert hsame
  decide

end EnkiOs
