import EnkiOs.Lib.Fuel
import EnkiOs.Libc.Text

/-!
# 文字列の先頭の部分

`libc/string/string.c` の `strcspn` と `strspn`。二つは、`s2` の中を探した後に止まる条件だけが違う。`s1` を進める文は `break`
の後にあり、実行されない。
-/

namespace EnkiOs
open Machine Fuel

/-- `s2` の中の `*s1` を探す。見つかったところか、終端を返す。 -/
def spanScan (tr : Translation) (mem : Memory) (s1 : Word) : Nat → Word → Except Fault Word
  | 0, _ => .error .hang
  | k + 1, c => do
      let b ← loadByte tr mem c
      if b = 0 then return c
      let a ← loadByte tr mem s1
      if a = b then return c
      spanScan tr mem s1 k (c + 1)

/-- 残りの上限を持つ。`stop` は、外側の繰り返しを止める `*c` の条件である。 -/
def spanLoop (stop : Byte → Bool) (tr : Translation) (mem : Memory) (fuel : Nat) (s1 s2 : Word) : Nat → Except Fault Word
  | 0 => .error .hang
  | k + 1 => do
      let a ← loadByte tr mem s1
      if a = 0 then return s1
      let c ← spanScan tr mem s1 fuel s2
      let b ← loadByte tr mem c
      if stop b then return s1
      spanLoop stop tr mem fuel s1 s2 k

def span (stop : Byte → Bool) (tr : Translation) (mem : Memory) (s1 s2 : Word) (fuel : Nat) : Except Fault Word := do
  let p ← spanLoop stop tr mem fuel s1 s2 fuel
  return p - s1

def strcspn : Translation → Memory → Word → Word → Nat → Except Fault Word := span (· ≠ 0)

def strspn : Translation → Memory → Word → Word → Nat → Except Fault Word := span (· = 0)

/-! ## 結果 -/

variable {tr : Translation} {mem : Memory} {off : Word → Prop} {s1 s2 c : Word} {a : Byte} {t1 t2 : List Byte} {stop : Byte → Bool}

theorem TextAt.load (h : TextAt tr mem off s1 t1) : loadByte tr mem s1 = .ok (t1.headD 0) := by
  cases t1 with
  | nil =>
      obtain ⟨x, hx, h0, -⟩ := h
      rw [loadByte_ok hx, h0]
      rfl
  | cons c t1 =>
      obtain ⟨⟨x, hx, hc, -⟩, -, -⟩ := h
      rw [loadByte_ok hx, hc]
      rfl

/-- 上限が足りれば、`a` が `t2` にあるときはその文字で、ないときは終端で止まる。 -/
theorem spanScan_text (h1 : loadByte tr mem s1 = .ok a) (ha : a ≠ 0) (h2 : TextAt tr mem off c t2) :
    ∃ j p, j ≤ t2.length ∧ loadByte tr mem p = .ok (if a ∈ t2 then a else 0) ∧
      ∀ k, spanScan tr mem s1 k c = if j < k then .ok p else .error .hang := by
  induction t2 generalizing c with
  | nil =>
      refine ⟨0, c, Nat.le_refl 0, h2.load, ?_⟩
      intro k
      cases k with
      | zero => rfl
      | succ k =>
          rw [if_pos (Nat.succ_pos k)]
          exact bind_ok.2 ⟨0, h2.load, if_pos rfl⟩
  | cons b t2 ih =>
      by_cases hab : a = b
      · subst hab
        refine ⟨0, c, Nat.zero_le _, ?_, ?_⟩
        · rw [if_pos List.mem_cons_self]
          exact h2.load
        · intro k
          cases k with
          | zero => rfl
          | succ k =>
              rw [if_pos (Nat.succ_pos k)]
              refine bind_ok.2 ⟨a, h2.load, ?_⟩
              rw [if_neg ha]
              exact bind_ok.2 ⟨a, h1, if_pos rfl⟩
      · obtain ⟨j, p, hj, hp, hscan⟩ := ih h2.2.2
        refine ⟨j + 1, p, Nat.succ_le_succ hj, ?_, ?_⟩
        · rw [hp]
          simp [hab]
        · intro k
          cases k with
          | zero => rfl
          | succ k =>
              have hstep : spanScan tr mem s1 (k + 1) c = spanScan tr mem s1 k (c + 1) := by
                rw [spanScan, h2.load, h1]
                exact (if_neg h2.2.1).trans (if_neg hab)
              rw [hstep, hscan k]
              simp only [Nat.succ_lt_succ_iff]

/-- 空の文字列か、止まる文字で始まる文字列には、0 を返す。 -/
theorem span_stops (h1 : TextAt tr mem off s1 t1) (h2 : TextAt tr mem off s2 t2)
    (hstop : ∀ a ∈ t1.head?, stop (if a ∈ t2 then a else 0)) : Settles (span stop tr mem s1 s2) 0 := by
  refine ⟨t2.length + 1, ?_⟩
  intro fuel hfuel
  obtain ⟨k, rfl⟩ : ∃ k, fuel = k + 1 := ⟨fuel - 1, by omega⟩
  have hloop : spanLoop stop tr mem (k + 1) s1 s2 (k + 1) = .ok s1 := by
    rw [spanLoop, h1.load]
    cases t1 with
    | nil => rfl
    | cons a t1 =>
        obtain ⟨j, p, hj, hp, hscan⟩ := spanScan_text h1.load h1.2.1 h2
        refine (if_neg h1.2.1).trans ?_
        rw [hscan (k + 1), if_pos (by omega)]
        exact bind_ok.2 ⟨p, rfl, bind_ok.2 ⟨_, hp, if_pos (hstop a rfl)⟩⟩
  refine bind_ok.2 ⟨s1, hloop, ?_⟩
  rw [BitVec.sub_self]
  rfl

/-- 止まらない文字で始まる文字列では、`s1` を進めないまま、いつまでも繰り返す。 -/
theorem span_hangs (h1 : TextAt tr mem off s1 (a :: t1)) (h2 : TextAt tr mem off s2 t2)
    (hstop : ¬stop (if a ∈ t2 then a else 0)) (fuel : Nat) : span stop tr mem s1 s2 fuel = .error .hang := by
  obtain ⟨j, p, -, hp, hscan⟩ := spanScan_text h1.load h1.2.1 h2
  have hloop : ∀ k, spanLoop stop tr mem fuel s1 s2 k = .error .hang := by
    intro k
    induction k with
    | zero => rfl
    | succ k ih =>
        rw [spanLoop, h1.load]
        refine (if_neg h1.2.1).trans ?_
        rw [hscan fuel]
        by_cases hj : j < fuel
        · rw [if_pos hj]
          show (loadByte tr mem p >>= fun b => if stop b then Except.ok s1 else spanLoop stop tr mem fuel s1 s2 k) = .error .hang
          rw [hp]
          exact (if_neg hstop).trans ih
        · rw [if_neg hj]
          rfl
  rw [span, hloop fuel]
  rfl

theorem takeWhile_length_zero {p : Byte → Bool} (h : ∀ a ∈ t1.head?, ¬p a) : (t1.takeWhile p).length = 0 := by
  cases t1 with
  | nil => rfl
  | cons a t1 => rw [List.takeWhile_cons_of_neg (h a rfl), List.length_nil]

theorem strspn_settles_iff (h1 : TextAt tr mem off s1 t1) (h2 : TextAt tr mem off s2 t2) :
    Settles (strspn tr mem s1 s2) (BitVec.ofNat 32 (t1.takeWhile (· ∈ t2)).length) ↔ ∀ a ∈ t1.head?, a ∉ t2 := by
  constructor
  · intro h a ha hmem
    cases t1 with
    | nil => cases ha
    | cons b t1 =>
        cases ha
        refine not_settles (span_hangs h1 h2 ?_) h
        rw [if_pos hmem]
        simpa using h1.2.1
  · intro h
    rw [takeWhile_length_zero fun a ha => by simpa using h a ha]
    refine span_stops h1 h2 fun a ha => ?_
    rw [if_neg (h a ha)]
    rfl

theorem strcspn_settles_iff (h1 : TextAt tr mem off s1 t1) (h2 : TextAt tr mem off s2 t2) :
    Settles (strcspn tr mem s1 s2) (BitVec.ofNat 32 (t1.takeWhile (· ∉ t2)).length) ↔ ∀ a ∈ t1.head?, a ∈ t2 := by
  constructor
  · intro h a ha
    cases t1 with
    | nil => cases ha
    | cons b t1 =>
        cases ha
        by_contra hmem
        refine not_settles (span_hangs h1 h2 ?_) h
        rw [if_neg hmem]
        decide
  · intro h
    rw [takeWhile_length_zero fun a ha => by simpa using h a ha]
    refine span_stops h1 h2 fun a ha => ?_
    rw [if_pos (h a ha)]
    simpa using h1.ne_zero a (List.mem_of_head? ha)

/-- 終わって正しい長さを返すのは、`strspn` では先頭の文字が `s2` にないとき、`strcspn` では先頭の文字が `s2` にあるときと、
どちらも `s1` が空のときだけである。 -/
theorem span_settles_iff (h1 : TextAt tr mem off s1 t1) (h2 : TextAt tr mem off s2 t2) :
    (Settles (strspn tr mem s1 s2) (BitVec.ofNat 32 (t1.takeWhile (· ∈ t2)).length) ↔ ∀ a ∈ t1.head?, a ∉ t2) ∧
    (Settles (strcspn tr mem s1 s2) (BitVec.ofNat 32 (t1.takeWhile (· ∉ t2)).length) ↔ ∀ a ∈ t1.head?, a ∈ t2) :=
  ⟨strspn_settles_iff h1 h2, strcspn_settles_iff h1 h2⟩

/-- `0x1000` に `"ab"` があり、`0x2000` に `"a"` がある。 -/
def spanMemory : Memory := fun x => if x = 0x1000 ∨ x = 0x2000 then 0x61 else if x = 0x1001 then 0x62 else 0

theorem spanMemory_text : TextAt .ok spanMemory (fun _ => True) 0x1000 [0x61, 0x62] ∧
    TextAt .ok spanMemory (fun _ => True) 0x2000 [0x61] :=
  ⟨⟨⟨_, rfl, by decide, trivial⟩, by decide, ⟨_, rfl, by decide, trivial⟩, by decide, _, rfl, by decide, trivial⟩,
    ⟨_, rfl, by decide, trivial⟩, by decide, _, rfl, by decide, trivial⟩

theorem span_settles_iff_ab :
    (Settles (strspn .ok spanMemory 0x1000 0x2000) 1 ↔ ∀ a ∈ [0x61, 0x62].head?, a ∉ [(0x61 : Byte)]) ∧
    (Settles (strcspn .ok spanMemory 0x1000 0x2000) 0 ↔ ∀ a ∈ [0x61, 0x62].head?, a ∈ [(0x61 : Byte)]) :=
  span_settles_iff spanMemory_text.1 spanMemory_text.2

/-- `strspn("ab", "a")` も `strcspn("b", "a")` も終わらない。 -/
theorem span_settles_fails :
    (TextAt .ok spanMemory (fun _ => True) 0x1000 [0x61, 0x62] ∧ TextAt .ok spanMemory (fun _ => True) 0x2000 [0x61]) ∧
    (∀ fuel, strspn .ok spanMemory 0x1000 0x2000 fuel = .error .hang) ∧
    ∀ fuel, strcspn .ok spanMemory 0x1001 0x2000 fuel = .error .hang :=
  ⟨spanMemory_text, span_hangs spanMemory_text.1 spanMemory_text.2 (by decide),
    span_hangs spanMemory_text.1.2.2 spanMemory_text.2 (by decide)⟩

end EnkiOs
