import EnkiOs.Libc.Strtok

/-!
# 切り分けの一続きの呼び出し

`strtok` は、`last` が 0 なら、渡された文字列の語を先頭から順にすべて返し、`last` を 0 に戻す。
-/

namespace EnkiOs
open Machine Segments

variable {tr : Translation} {delimiters t : List Byte} {mem mem' : Memory} {s q ptr last str : Word} {fuel k : Nat}
  {ts : List (Nat × List Byte)}

/-- 初めは `str` を、続いて 0 を渡して呼ぶと、`ts` の位置に、その語が順に返り、最後に 0 が返って `last` が 0 になる。文字列は
`s` にあり、`q` から置かれている。 -/
def StrtokRun (fuel : Nat) (tr : Translation) (delimiters : List Byte) (s q : Word) :
    List (Nat × List Byte) → Word → Word → Memory → Memory → Prop
  | [], last, str, mem, mem' => strtok fuel tr last str delimiters mem = .ok (0, 0, mem) ∧ mem' = mem
  | (i, w) :: ts, last, str, mem, mem' => ∃ last' mem₁,
      strtok fuel tr last str delimiters mem = .ok (s + BitVec.ofNat 32 i, last', mem₁) ∧
      StrAt mem₁ (q + BitVec.ofNat 32 i) w ∧ StrtokRun fuel tr delimiters s q ts last' 0 mem₁ mem'

/-- 残りの文字列が `k` 番目から続くところからの呼び出し。 -/
theorem strtokRun_located (hnul : 0 ∉ delimiters) (hfuel : t.length < fuel) (hs : s ≠ 0) (hend : s.toNat + k + t.length < 2 ^ 32)
    (hmap : ∀ j ≤ t.length, tr (s + BitVec.ofNat 32 (k + j)) = .ok (q + BitVec.ofNat 32 (k + j)))
    (hstart : (str ≠ 0 ∧ last = 0 ∧ s + BitVec.ofNat 32 k = str) ∨ (str = 0 ∧ last ≠ 0 ∧ s + BitVec.ofNat 32 k = last))
    (h : StrAt mem (q + BitVec.ofNat 32 k) t) :
    ∃ ts mem', Located (· ∈ delimiters) k t ts ∧ StrtokRun fuel tr delimiters s q ts last str mem mem' ∧
      (∀ i w, (i, w) ∈ ts → StrAt mem' (q + BitVec.ofNat 32 i) w) ∧
      ∀ x, (∀ j, k ≤ j → j < k + t.length → x ≠ q + BitVec.ofNat 32 j) → mem' x = mem x := by
  have hspos : 0 < s.toNat := BitVec.toNat_pos_of_ne_zero hs
  induction hn : t.length using Nat.strong_induction_on generalizing t k mem last str with
  | _ n ih =>
      have hmap' : ∀ j ≤ t.length, tr (s + BitVec.ofNat 32 k + BitVec.ofNat 32 j) = .ok (q + BitVec.ofNat 32 k + BitVec.ofNat 32 j) := by
        intro j hj
        rw [BitVec.add_assoc, BitVec.add_assoc, ← BitVec.ofNat_add]
        exact hmap j hj
      obtain ⟨ds, t', rfl, hds, hcall⟩ := strtok_step hnul hfuel (by omega) hmap' (hstart.imp_right And.right) h
      have hds' : ∀ c ∈ ds, decide (c ∈ delimiters) = true := by simpa using hds
      rcases hcall with ⟨rfl, hcall⟩ | ⟨w, rest, l, mem₁, hwne, hclean, hsplit, hsum, hcall, hw, hr, hframe⟩
      · exact ⟨[], mem, Located.skip located_nil hds', ⟨hcall, rfl⟩, by simp, fun _ _ => rfl⟩
      · rw [List.length_append] at hfuel hend hmap hsum hn hframe
        rw [BitVec.add_assoc, ← BitVec.ofNat_add] at hw hr
        rw [BitVec.add_assoc, BitVec.add_assoc, ← BitVec.ofNat_add, ← BitVec.ofNat_add] at hcall
        have hwpos := List.length_pos_iff.2 hwne
        have hnext : s + BitVec.ofNat 32 (k + l) ≠ 0 := add_ofNat_ne_zero hs (by omega)
        -- 語は残りより手前にあり、残りの呼び出しでは書き換わらない。
        have hbefore : rest.length = 0 ∨ l = ds.length + w.length + 1 := by
          rcases hsplit with ⟨-, rfl⟩ | ⟨c, -, rfl⟩
          · exact .inl rfl
          · refine .inr ?_
            rw [List.length_append, List.length_cons] at hsum
            omega
        have hwle : ds.length + w.length ≤ l := by
          rcases hsplit with ⟨rfl, rfl⟩ | ⟨c, -, rfl⟩
          · rw [List.length_nil] at hsum
            omega
          · rw [List.length_append, List.length_cons] at hsum
            omega
        obtain ⟨ts, mem', hlocated, hrun, htokens, hframe'⟩ := @ih rest.length (by omega) rest mem₁ (s + BitVec.ofNat 32 (k + l)) 0 (k + l)
          (by omega) (by omega)
          (fun j hj => by
            rw [Nat.add_assoc]
            exact hmap (l + j) (by omega))
          (.inr ⟨rfl, hnext, rfl⟩) hr rfl
        have hkept : StrAt mem' (q + BitVec.ofNat 32 (k + ds.length)) w := by
          refine hw.congr fun j hj => ?_
          rw [BitVec.add_assoc, ← BitVec.ofNat_add]
          refine hframe' _ fun i hi hi' => ?_
          rw [Ne, add_ofNat_inj q (by omega) (by omega)]
          omega
        refine ⟨(k + ds.length, w) :: ts, mem', ?_, ⟨_, mem₁, hcall, hw, hrun⟩, ?_, ?_⟩
        · have hclean' : ∀ c ∈ w, decide (c ∈ delimiters) = false := by simpa using hclean
          refine Located.skip ?_ hds'
          rcases hsplit with ⟨rfl, rfl⟩ | ⟨c, hc, rfl⟩
          · rw [List.map_eq_nil_iff.1 hlocated.words_eq]
            exact located_word _ hclean' hwne
          · rw [List.length_append, List.length_cons] at hsum
            have hl : k + l = k + ds.length + w.length + 1 := by omega
            rw [hl] at hlocated
            exact hlocated.append hclean' hwne (by simpa using hc)
        · intro i v hmem
          rcases List.mem_cons.1 hmem with heq | hmem
          · cases heq
            exact hkept
          · exact htokens i v hmem
        · intro x hx
          rw [hframe' x fun j hj hj' => hx j (by omega) (by omega)]
          refine hframe x fun j hj hj' => ?_
          rw [BitVec.add_assoc, ← BitVec.ofNat_add]
          exact hx (k + j) (by omega) (by omega)

/-- 渡した文字列の極大の語が、先頭から順に、終端を付けて返り、最後に 0 が返る。`tr` は、文字列と終端の他のアドレスでは、値を返さなくて
もよいので、そこは読み書きしない。 -/
theorem strtok_tokens (hnul : 0 ∉ delimiters) (hfuel : t.length < fuel) (hs : s ≠ 0) (hend : s.toNat + t.length < 2 ^ 32)
    (hmap : ∀ j ≤ t.length, tr (s + BitVec.ofNat 32 j) = .ok (q + BitVec.ofNat 32 j)) (h : StrAt mem q t) :
    ∃ ts mem', ts.Pairwise (fun a b => a.1 < b.1) ∧ (∀ i w, (i, w) ∈ ts ↔ Maximal (· ∈ delimiters) t i w) ∧
      StrtokRun fuel tr delimiters s q ts 0 s mem mem' ∧ (∀ i w, (i, w) ∈ ts → StrAt mem' (q + BitVec.ofNat 32 i) w) ∧
      ∀ x, (∀ j < t.length, x ≠ q + BitVec.ofNat 32 j) → mem' x = mem x := by
  obtain ⟨ts, mem', hlocated, hrun, htokens, hframe⟩ := strtokRun_located (k := 0) hnul hfuel hs
    (by omega) (by simpa using hmap) (.inl ⟨hs, rfl, BitVec.add_zero s⟩) (by rwa [BitVec.add_zero])
  refine ⟨ts, mem', hlocated.sorted, ?_, hrun, htokens, ?_⟩
  · intro i w
    rw [hlocated.mem_iff]
    simp
  · intro x hx
    exact hframe x fun j _ hj => hx j (by omega)

/-- `0x1000` に `"a b"`、`0x2000` に `"c d"` がある。 -/
def strtokMemory : Memory := fun x =>
  if x = 0x1000 then 0x61 else if x = 0x1001 then 0x20 else if x = 0x1002 then 0x62
  else if x = 0x2000 then 0x63 else if x = 0x2001 then 0x20 else if x = 0x2002 then 0x64 else 0

theorem strtok_tokens_ab : ∃ ts mem', ts.Pairwise (fun a b => a.1 < b.1) ∧
    (∀ i w, (i, w) ∈ ts ↔ Maximal (· ∈ [(0x20 : Byte)]) [0x61, 0x20, 0x62] i w) ∧
    StrtokRun 4 .ok [0x20] 0x1000 0x1000 ts 0 0x1000 strtokMemory mem' ∧
    (∀ i w, (i, w) ∈ ts → StrAt mem' (0x1000 + BitVec.ofNat 32 i) w) ∧
    ∀ x, (∀ j < 3, x ≠ 0x1000 + BitVec.ofNat 32 j) → mem' x = strtokMemory x :=
  strtok_tokens (by decide) (by decide) (by decide) (by decide) (fun _ _ => rfl) (by decide)

end EnkiOs
