import EnkiOs.Lib.Segments
import EnkiOs.Libc.Text

/-!
# 文字列の切り分け

`libc/string/string.c` の `strtok`。呼び出しの間に残る `last` は、渡して返す。区切りの並びは、その中身で渡す。繰り返しには
上限がないので、`fuel` で与え、尽きれば `hang` とする。
-/

namespace EnkiOs
open Machine Segments

/-- `start` を、区切りでないところまで進める。 -/
def strtokSkip (tr : Translation) (delimiters : List Byte) (mem : Memory) : Nat → Word → Except Fault Word
  | 0, _ => .error .hang
  | k + 1, start => do
      let c ← loadByte tr mem start
      if delimiters.idxOf c < delimiters.length then strtokSkip tr delimiters mem k (start + 1) else return start

/-- 次の区切りに終端を書き、その次へ進む。文字列が終われば、そこで止まる。 -/
def strtokScan (tr : Translation) (delimiters : List Byte) : Nat → Word → Memory → Except Fault (Word × Memory)
  | 0, _, _ => .error .hang
  | k + 1, last, mem => do
      let c ← loadByte tr mem last
      if c = 0 then return (last, mem)
      if delimiters.idxOf c < delimiters.length then
        let mem ← storeByte tr mem last 0
        return (last + 1, mem)
      strtokScan tr delimiters k (last + 1) mem

/-- 返すポインタと、新しい `last`、メモリ。 -/
def strtok (fuel : Nat) (tr : Translation) (last str : Word) (delimiters : List Byte) (mem : Memory) :
    Except Fault (Word × Word × Memory) := do
  if str = 0 ∧ last = 0 then return (0, last, mem)
  let last := if str ≠ 0 ∧ last = 0 then str else last
  let start ← strtokSkip tr delimiters mem fuel last
  let c ← loadByte tr mem start
  if c = 0 then return (0, 0, mem)
  let (last, mem) ← strtokScan tr delimiters fuel start mem
  return (start, last, mem)

/-! ## 切り分けの意味 -/

/-- 区切りを含まない極大の語の並び。 -/
def wordsBy (delimiters t : List Byte) : List (List Byte) := (t.splitOnP (· ∈ delimiters)).filter (· ≠ [])

variable {delimiters t w rest : List Byte} {c : Byte}

theorem wordsBy_nil : wordsBy delimiters [] = [] := rfl

theorem wordsBy_skip (hw : ∀ c ∈ w, c ∈ delimiters) : wordsBy delimiters (w ++ t) = wordsBy delimiters t :=
  words_skip fun c hc => by simpa using hw c hc

theorem wordsBy_word (hw : ∀ c ∈ w, c ∉ delimiters) (hne : w ≠ []) : wordsBy delimiters w = [w] :=
  words_word (fun c hc => by simpa using hw c hc) hne

theorem wordsBy_append (hw : ∀ c ∈ w, c ∉ delimiters) (hne : w ≠ []) (hc : c ∈ delimiters) :
    wordsBy delimiters (w ++ c :: rest) = w :: wordsBy delimiters rest :=
  words_append (fun c hc => by simpa using hw c hc) hne (by simpa using hc)

theorem wordsBy_eq_nil : wordsBy delimiters t = [] ↔ ∀ c ∈ t, c ∈ delimiters := by
  refine (words_eq_nil (p := (· ∈ delimiters))).trans ?_
  simp only [decide_eq_true_eq]

theorem length_wordsBy_le (delimiters t : List Byte) : (wordsBy delimiters t).length ≤ t.length :=
  length_words_le _ t

/-! ## 二つの繰り返し -/

variable {tr : Translation} {mem mem' : Memory} {p q a last last' str tok : Word} {fuel : Nat}

/-- 先頭の区切りを読み飛ばす。 -/
theorem strtokSkip_split (hnul : 0 ∉ delimiters) (hfuel : t.length < fuel) (h : StrAt mem q t)
    (hmap : ∀ j ≤ t.length, tr (p + BitVec.ofNat 32 j) = .ok (q + BitVec.ofNat 32 j)) :
    ∃ ds t', t = ds ++ t' ∧ (∀ c ∈ ds, c ∈ delimiters) ∧ (∀ c ∈ t'.head?, c ∉ delimiters) ∧
      strtokSkip tr delimiters mem fuel p = .ok (p + BitVec.ofNat 32 ds.length) ∧ StrAt mem (q + BitVec.ofNat 32 ds.length) t' := by
  have hzero : tr p = .ok q := by simpa using hmap 0 (Nat.zero_le _)
  induction t generalizing p q fuel with
  | nil =>
      obtain ⟨k, rfl⟩ := Nat.exists_eq_add_of_lt hfuel
      have hstop : ¬delimiters.idxOf 0 < delimiters.length := by rwa [List.idxOf_lt_length_iff]
      refine ⟨[], [], rfl, by simp, by simp, bind_ok.2 ⟨0, ?_, ?_⟩, ?_⟩
      · rw [loadByte_ok hzero, h]
      · rw [if_neg hstop, List.length_nil, BitVec.add_zero]
        rfl
      · rwa [List.length_nil, BitVec.add_zero]
  | cons c t ih =>
      obtain ⟨k, rfl⟩ : ∃ k, fuel = k + 1 := ⟨fuel - 1, by simp at hfuel; omega⟩
      obtain ⟨hc, hne, hrest⟩ := h
      by_cases hmem : c ∈ delimiters
      · have hmap' : ∀ j ≤ t.length, tr (p + 1 + BitVec.ofNat 32 j) = .ok (q + 1 + BitVec.ofNat 32 j) := maps_tail hmap
        obtain ⟨ds, t', rfl, hds, hhead, hskip, hstr⟩ := ih (by simp at hfuel; omega) hrest hmap'
          (by simpa using hmap' 0 (Nat.zero_le _))
        rw [add_one_add] at hskip hstr
        refine ⟨c :: ds, t', rfl, ?_, hhead, bind_ok.2 ⟨c, ?_, ?_⟩, hstr⟩
        · intro x hx
          rcases List.mem_cons.1 hx with rfl | hx
          · exact hmem
          · exact hds x hx
        · rw [loadByte_ok hzero, hc]
        · rw [if_pos (List.idxOf_lt_length_iff.2 hmem)]
          exact hskip
      · refine ⟨[], c :: t, rfl, by simp, by simpa using hmem, bind_ok.2 ⟨c, ?_, ?_⟩, ?_⟩
        · rw [loadByte_ok hzero, hc]
        · rw [if_neg (by rwa [List.idxOf_lt_length_iff]), List.length_nil, BitVec.add_zero]
          rfl
        · rw [List.length_nil, BitVec.add_zero]
          exact ⟨hc, hne, hrest⟩

/-- 語と残りに分かれ、書き換わるのは、文字列のあるところだけである。 -/
theorem strtokScan_text (delimiters : List Byte) (hfuel : t.length < fuel) (hlen : t.length < 2 ^ 32 - 1) (h : StrAt mem q t)
    (hmap : ∀ j ≤ t.length, tr (p + BitVec.ofNat 32 j) = .ok (q + BitVec.ofNat 32 j)) :
    ∃ i w rest mem', strtokScan tr delimiters fuel p mem = .ok (p + BitVec.ofNat 32 i, mem') ∧
      StrAt mem' q w ∧ StrAt mem' (q + BitVec.ofNat 32 i) rest ∧ i + rest.length = t.length ∧ w.length ≤ t.length ∧
      (∀ x, (∀ j < t.length, x ≠ q + BitVec.ofNat 32 j) → mem' x = mem x) ∧ (∀ c ∈ w, c ∉ delimiters) ∧
      ((t = w ∧ rest = []) ∨ ∃ c ∈ delimiters, t = w ++ c :: rest) := by
  have hzero : tr p = .ok q := by simpa using hmap 0 (Nat.zero_le _)
  induction t generalizing p q fuel mem with
  | nil =>
      obtain ⟨k, rfl⟩ := Nat.exists_eq_add_of_lt hfuel
      refine ⟨0, [], [], mem, bind_ok.2 ⟨0, ?_, ?_⟩, h, ?_, rfl, Nat.le_refl _, fun _ _ => rfl, by simp, .inl ⟨rfl, rfl⟩⟩
      · rw [loadByte_ok hzero, h]
      · rw [if_pos rfl, BitVec.add_zero]
        rfl
      · rwa [BitVec.add_zero]
  | cons c t ih =>
      obtain ⟨k, rfl⟩ : ∃ k, fuel = k + 1 := ⟨fuel - 1, by simp at hfuel; omega⟩
      simp only [List.length_cons] at hfuel hlen
      obtain ⟨hc, hne, hrest⟩ := h
      have hload : loadByte tr mem p = .ok c := by rw [loadByte_ok hzero, hc]
      by_cases hmem : c ∈ delimiters
      · -- 区切りに終端を書くので、語はここで終わり、残りはその次から続く。
        refine ⟨1, [], t, mem.write q [0], bind_ok.2 ⟨c, hload, ?_⟩, write_one mem q 0, ?_, by simp; omega, Nat.zero_le _,
          ?_, by simp, .inr ⟨c, hmem, rfl⟩⟩
        · rw [if_neg hne, if_pos (List.idxOf_lt_length_iff.2 hmem)]
          exact bind_ok.2 ⟨_, storeByte_ok hzero, rfl⟩
        · refine hrest.congr ?_
          intro j hj
          exact Memory.write_one_ne (ne_add_one_add q (by omega)).symm 0
        · intro x hx
          have hxq : x ≠ q := by simpa using hx 0 (Nat.succ_pos _)
          exact Memory.write_one_ne hxq 0
      · have hmap' : ∀ j ≤ t.length, tr (p + 1 + BitVec.ofNat 32 j) = .ok (q + 1 + BitVec.ofNat 32 j) := maps_tail hmap
        have hfuel' : t.length < k := by omega
        obtain ⟨i, w, rest, mem', hscan, hw, hr, hsum, hwle, hframe, hclean, hsplit⟩ := ih hfuel' (by omega) hrest hmap'
          (by simpa using hmap' 0 (Nat.zero_le _))
        rw [add_one_add] at hscan hr
        refine ⟨i + 1, c :: w, rest, mem', bind_ok.2 ⟨c, hload, ?_⟩, ⟨?_, hne, hw⟩, hr, by simp; omega, by simpa using hwle, ?_, ?_,
          ?_⟩
        · rw [if_neg hne, if_neg (by rwa [List.idxOf_lt_length_iff])]
          exact hscan
        · rw [hframe q ?_, hc]
          intro j hj
          exact ne_add_one_add q (by omega)
        · intro x hx
          refine hframe x ?_
          intro j hj
          rw [add_one_add]
          exact hx (j + 1) (by simp; omega)
        · intro x hx
          rcases List.mem_cons.1 hx with rfl | hx
          · exact hmem
          · exact hclean x hx
        · rcases hsplit with ⟨rfl, rfl⟩ | ⟨d, hd, rfl⟩
          · exact .inl ⟨rfl, rfl⟩
          · exact .inr ⟨d, hd, rfl⟩

/-! ## 一度の呼び出し -/

theorem strtok_end (hnull : ¬(str = 0 ∧ last = 0))
    (hskip : strtokSkip tr delimiters mem fuel (if str ≠ 0 ∧ last = 0 then str else last) = .ok a) (h0 : loadByte tr mem a = .ok 0) :
    strtok fuel tr last str delimiters mem = .ok (0, 0, mem) := by
  simp only [strtok, if_neg hnull]
  exact bind_ok.2 ⟨a, hskip, bind_ok.2 ⟨0, h0, rfl⟩⟩

theorem strtok_token (hnull : ¬(str = 0 ∧ last = 0))
    (hskip : strtokSkip tr delimiters mem fuel (if str ≠ 0 ∧ last = 0 then str else last) = .ok a) (hc : loadByte tr mem a = .ok c)
    (h0 : c ≠ 0) (hscan : strtokScan tr delimiters fuel a mem = .ok (last', mem')) :
    strtok fuel tr last str delimiters mem = .ok (a, last', mem') := by
  simp only [strtok, if_neg hnull]
  refine bind_ok.2 ⟨a, hskip, bind_ok.2 ⟨c, hc, ?_⟩⟩
  rw [if_neg h0]
  exact bind_ok.2 ⟨_, hscan, rfl⟩

/-- 区切りを読み飛ばした後に、語を一つ切り出して残りへ進むか、語が無ければ 0 を返して `last` を 0 に戻す。 -/
theorem strtok_step {ptr : Word} (hnul : 0 ∉ delimiters) (hfuel : t.length < fuel) (hlen : t.length < 2 ^ 32 - 1)
    (hmap : ∀ j ≤ t.length, tr (ptr + BitVec.ofNat 32 j) = .ok (q + BitVec.ofNat 32 j))
    (hstart : (str ≠ 0 ∧ last = 0 ∧ ptr = str) ∨ (last ≠ 0 ∧ ptr = last)) (h : StrAt mem q t) :
    ∃ ds t', t = ds ++ t' ∧ (∀ c ∈ ds, c ∈ delimiters) ∧
      ((t' = [] ∧ strtok fuel tr last str delimiters mem = .ok (0, 0, mem)) ∨
      ∃ w rest l mem', w ≠ [] ∧ (∀ c ∈ w, c ∉ delimiters) ∧ ((t' = w ∧ rest = []) ∨ ∃ c ∈ delimiters, t' = w ++ c :: rest) ∧
        l + rest.length = t.length ∧
        strtok fuel tr last str delimiters mem = .ok (ptr + BitVec.ofNat 32 ds.length, ptr + BitVec.ofNat 32 l, mem') ∧
        StrAt mem' (q + BitVec.ofNat 32 ds.length) w ∧ StrAt mem' (q + BitVec.ofNat 32 l) rest ∧
        ∀ x, (∀ j, ds.length ≤ j → j < t.length → x ≠ q + BitVec.ofNat 32 j) → mem' x = mem x) := by
  have hnull : ¬(str = 0 ∧ last = 0) := by
    rintro ⟨h1, h2⟩
    rcases hstart with ⟨h, -⟩ | ⟨h, -⟩
    · exact h h1
    · exact h h2
  have hcur : (if str ≠ 0 ∧ last = 0 then str else last) = ptr := by
    rcases hstart with ⟨h1, h2, h3⟩ | ⟨h1, h2⟩
    · rw [if_pos ⟨h1, h2⟩, h3]
    · rw [if_neg fun h => h1 h.2, h2]
  obtain ⟨ds, t', rfl, hds, hhead, hskip, hstr⟩ := strtokSkip_split hnul hfuel h hmap
  rw [List.length_append] at hfuel hlen hmap
  have hzero := hmap ds.length (Nat.le_add_right _ _)
  refine ⟨ds, t', rfl, hds, ?_⟩
  cases t' with
  | nil =>
      refine .inl ⟨rfl, strtok_end hnull (by rwa [hcur]) ?_⟩
      rw [loadByte_ok hzero, hstr]
  | cons c t' =>
      have hmap' : ∀ j ≤ (c :: t').length, tr (ptr + BitVec.ofNat 32 ds.length + BitVec.ofNat 32 j) =
          .ok (q + BitVec.ofNat 32 ds.length + BitVec.ofNat 32 j) := by
        intro j hj
        rw [BitVec.add_assoc, BitVec.add_assoc, ← BitVec.ofNat_add]
        exact hmap (ds.length + j) (by omega)
      obtain ⟨l, w, rest, mem', hscan, hw, hr, hsum, -, hframe, hclean, hsplit⟩ := strtokScan_text delimiters
        (by omega : (c :: t').length < fuel) (by omega) hstr hmap'
      rw [BitVec.add_assoc, ← BitVec.ofNat_add] at hscan hr
      have hwne : w ≠ [] := by
        rintro rfl
        rcases hsplit with ⟨h0, -⟩ | ⟨d, hd, heq⟩
        · cases h0
        · cases heq
          exact hhead c rfl hd
      refine .inr ⟨w, rest, ds.length + l, mem', hwne, hclean, hsplit, by rw [List.length_append]; omega, ?_, hw, hr, ?_⟩
      · refine strtok_token hnull (by rwa [hcur]) ?_ hstr.2.1 hscan
        rw [loadByte_ok hzero, hstr.1]
      · intro x hx
        refine hframe x fun j hj => ?_
        rw [BitVec.add_assoc, ← BitVec.ofNat_add]
        exact hx (ds.length + j) (by omega) (by rw [List.length_append]; omega)

/-! ## 配列の中の切り分け -/

/-- `ptr` は、`scmd` からの `n` バイトの配列の中を指し、そこから文字列 `t` が続く。配列は `q` から置かれている。 -/
def BufferAt (mem : Memory) (scmd q : Word) (n : Nat) (ptr : Word) (t : List Byte) : Prop :=
  ∃ i, ptr = scmd + BitVec.ofNat 32 i ∧ StrAt mem (q + BitVec.ofNat 32 i) t ∧ i + t.length < n

variable {scmd ptr : Word} {n : Nat}

theorem BufferAt.congr (h : BufferAt mem scmd q n ptr t) (hsame : ∀ j < n, mem' (q + BitVec.ofNat 32 j) = mem (q + BitVec.ofNat 32 j)) :
    BufferAt mem' scmd q n ptr t := by
  obtain ⟨i, hptr, hstr, hi⟩ := h
  refine ⟨i, hptr, hstr.congr ?_, hi⟩
  intro j hj
  rw [BitVec.add_assoc, ← BitVec.ofNat_add]
  exact hsame (i + j) (by omega)

/-- 一度の呼び出しは、語を一つ切り出して残りへ進むか、語が無ければ 0 を返して `last` を 0 に戻す。 -/
theorem strtok_buffer (hnul : 0 ∉ delimiters) (hn : n < 2 ^ 32 - 1) (hfuel : n ≤ fuel)
    (hmap : ∀ j < n, tr (scmd + BitVec.ofNat 32 j) = .ok (q + BitVec.ofNat 32 j))
    (hstart : (str ≠ 0 ∧ last = 0 ∧ ptr = str) ∨ (last ≠ 0 ∧ ptr = last)) (h : BufferAt mem scmd q n ptr t) :
    (wordsBy delimiters t = [] ∧ strtok fuel tr last str delimiters mem = .ok (0, 0, mem)) ∨
    ∃ w rest tok last' mem', wordsBy delimiters t = w :: wordsBy delimiters rest ∧
      strtok fuel tr last str delimiters mem = .ok (tok, last', mem') ∧ BufferAt mem' scmd q n tok w ∧
      BufferAt mem' scmd q n last' rest ∧ rest.length < t.length ∧
      ∀ x, (∀ j < n, x ≠ q + BitVec.ofNat 32 j) → mem' x = mem x := by
  obtain ⟨i, rfl, hstr, hi⟩ := h
  have hmap' : ∀ j ≤ t.length, tr (scmd + BitVec.ofNat 32 i + BitVec.ofNat 32 j) = .ok (q + BitVec.ofNat 32 i + BitVec.ofNat 32 j) := by
    intro j hj
    rw [BitVec.add_assoc, BitVec.add_assoc, ← BitVec.ofNat_add]
    exact hmap (i + j) (by omega)
  obtain ⟨ds, t', rfl, hds, hcall⟩ := strtok_step hnul (by omega : t.length < fuel) (by omega) hmap' hstart hstr
  rw [wordsBy_skip hds]
  rcases hcall with ⟨rfl, hcall⟩ | ⟨w, rest, l, mem', hwne, hclean, hsplit, hsum, hcall, hw, hr, hframe⟩
  · exact .inl ⟨rfl, hcall⟩
  · have hwpos := List.length_pos_iff.2 hwne
    have hwords : wordsBy delimiters t' = w :: wordsBy delimiters rest ∧ ds.length + w.length + rest.length ≤ (ds ++ t').length := by
      rw [List.length_append]
      rcases hsplit with ⟨rfl, rfl⟩ | ⟨d, hd, rfl⟩
      · exact ⟨by rw [wordsBy_word hclean hwne, wordsBy_nil], by simp⟩
      · exact ⟨wordsBy_append hclean hwne hd, by simp; omega⟩
    rw [BitVec.add_assoc, ← BitVec.ofNat_add] at hw hr
    rw [BitVec.add_assoc, BitVec.add_assoc, ← BitVec.ofNat_add, ← BitVec.ofNat_add] at hcall
    refine .inr ⟨w, rest, _, _, mem', hwords.1, hcall, ⟨i + ds.length, rfl, hw, by omega⟩, ⟨i + l, rfl, hr, by omega⟩, by omega, ?_⟩
    intro x hx
    refine hframe x fun j hj hj' => ?_
    rw [BitVec.add_assoc, ← BitVec.ofNat_add]
    exact hx (i + j) (by omega)

end EnkiOs
