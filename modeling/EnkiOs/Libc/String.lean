import EnkiOs.Status
import EnkiOs.Lib.Memory

/-!
# 文字列

`libc/string/string.c` の `strncpy` と、その下のメモリの読み書き。バイトの読み書きは、CPU のアドレスの変換 `tr` を通す。変換できないアドレスに
当たると、値を返さずに終わる。ページングの効かない読み書きでは、`tr` は `.ok` である。
-/

namespace EnkiOs
open Machine

/-- アドレスの変換。 -/
abbrev Translation := Word → Except Fault Word

def loadByte (tr : Translation) (mem : Memory) (a : Word) : Except Fault Byte := do
  return mem (← tr a)

/-- 小さい順の四つのバイト。 -/
def loadWord (tr : Translation) (mem : Memory) (a : Word) : Except Fault Word := do
  let b0 ← loadByte tr mem a
  let b1 ← loadByte tr mem (a + 1)
  let b2 ← loadByte tr mem (a + 2)
  let b3 ← loadByte tr mem (a + 3)
  return (b3 ++ b2) ++ (b1 ++ b0)

/-- 小さい順の 4 バイト。 -/
def wordBytes (w : Word) : List Byte :=
  [w.setWidth 8, (w >>> 8).setWidth 8, (w >>> 16).setWidth 8, (w >>> 24).setWidth 8]

def storeByte (tr : Translation) (mem : Memory) (a : Word) (b : Byte) : Except Fault Memory := do
  return mem.write (← tr a) [b]

/-- 残りの回数を持つ。`dst` と `src` は `&dst[i]` と `&src[i]` である。 -/
def strncpyLoop (tr : Translation) : Nat → Word → Word → Memory → Except Fault Memory
  | 0, dst, _, mem => storeByte tr mem dst 0
  | k + 1, dst, src, mem => do
      let c ← loadByte tr mem src
      if c = 0 then storeByte tr mem dst 0
      else
        let mem ← storeByte tr mem dst c
        strncpyLoop tr k (dst + 1) (src + 1) mem

def strncpy (tr : Translation) (dst src : Word) (n : Int) (mem : Memory) : Except Fault Memory :=
  strncpyLoop tr (n - 1).toNat dst src mem

/-! ## 読み書き -/

section

variable {tr : Translation} {mem mem' : Memory} {a p q : Word} {b c : Byte}

theorem loadByte_ok (h : tr a = .ok p) : loadByte tr mem a = .ok (mem p) := by
  rw [loadByte, h]
  rfl

theorem storeByte_ok (h : tr a = .ok p) : storeByte tr mem a b = .ok (mem.write p [b]) := by
  rw [storeByte, h]
  rfl

theorem storeByte_cases (h : storeByte tr mem a b = .ok mem') : ∃ p, tr a = .ok p ∧ mem' = mem.write p [b] := by
  obtain ⟨p, hp, h⟩ := bind_ok.1 h
  cases h
  exact ⟨p, hp, rfl⟩

/-- 変わっていないところからは、同じバイトが読める。 -/
theorem loadByte_congr (h : ∀ p, tr a = .ok p → mem' p = mem p) : loadByte tr mem' a = loadByte tr mem a := by
  cases hp : tr a with
  | error fault =>
      rw [loadByte, loadByte, hp]
      rfl
  | ok p => rw [loadByte_ok hp, loadByte_ok hp, h p hp]

theorem maps_tail {p : Word} {n : Nat} (h : ∀ j ≤ n + 1, tr (p + BitVec.ofNat 32 j) = .ok (q + BitVec.ofNat 32 j)) :
    ∀ j ≤ n, tr (p + 1 + BitVec.ofNat 32 j) = .ok (q + 1 + BitVec.ofNat 32 j) := by
  intro j hj
  rw [add_one_add, add_one_add]
  exact h (j + 1) (Nat.succ_le_succ hj)

theorem write_one (mem : Memory) (q : Word) (c : Byte) : mem.write q [c] q = c := by
  simp [Memory.write]

theorem write_one_other (mem : Memory) (c : Byte) (h : 1 ≤ (p - q).toNat) : mem.write q [c] p = mem p :=
  Memory.write_other mem q h

end

theorem loadWord_total {tr : Translation} (htr : ∀ a, ∃ p, tr a = .ok p) (mem : Memory) (a : Word) :
    ∃ w, loadWord tr mem a = .ok w := by
  have hbyte : ∀ a, ∃ b, loadByte tr mem a = .ok b := by
    intro a
    obtain ⟨p, hp⟩ := htr a
    exact ⟨_, loadByte_ok hp⟩
  obtain ⟨b0, h0⟩ := hbyte a
  obtain ⟨b1, h1⟩ := hbyte (a + 1)
  obtain ⟨b2, h2⟩ := hbyte (a + 2)
  obtain ⟨b3, h3⟩ := hbyte (a + 3)
  exact ⟨_, bind_ok.2 ⟨b0, h0, bind_ok.2 ⟨b1, h1, bind_ok.2 ⟨b2, h2, bind_ok.2 ⟨b3, h3, rfl⟩⟩⟩⟩⟩

/-! ## コピーの結果 -/

/-- `src` から見える文字列のはじめの `len` バイトが、`q` からの `k + 1` バイトの中に、終端を付けて書かれている。
文字列は `len` バイトで終わるか、`k` バイトで打ち切られている。 -/
structure Copied (tr : Translation) (mem : Memory) (src : Word) (mem' : Memory) (q : Word) (k len : Nat) : Prop where
  le : len ≤ k
  bytes : ∀ j < len, mem' (q + BitVec.ofNat 32 j) ≠ 0 ∧
    loadByte tr mem (src + BitVec.ofNat 32 j) = .ok (mem' (q + BitVec.ofNat 32 j))
  last : mem' (q + BitVec.ofNat 32 len) = 0
  stop : len = k ∨ loadByte tr mem (src + BitVec.ofNat 32 len) = .ok 0
  frame : ∀ x, k + 1 ≤ (x - q).toNat → mem' x = mem x

/-- 続きのコピーの結果に、先頭の一バイトを足す。 -/
theorem Copied.cons {tr : Translation} {mem mem' : Memory} {src q : Word} {c : Byte} {k len : Nat}
    (hk : k + 1 < 2 ^ 32) (hload : loadByte tr mem src = .ok c) (hc : c ≠ 0)
    (hfar : ∀ j ≤ len, j < k → ∀ p, tr (src + BitVec.ofNat 32 (j + 1)) = .ok p → k + 2 ≤ (p - q).toNat)
    (h : Copied tr (mem.write q [c]) (src + 1) mem' (q + 1) k len) : Copied tr mem src mem' q (k + 1) (len + 1) := by
  have hsame : ∀ j ≤ len, j < k → loadByte tr (mem.write q [c]) (src + 1 + BitVec.ofNat 32 j) =
      loadByte tr mem (src + BitVec.ofNat 32 (j + 1)) := by
    intro j hj hjk
    rw [add_one_add]
    apply loadByte_congr
    intro p hp
    have := hfar j hj hjk p hp
    exact write_one_other mem c (by omega)
  have hhead : mem' q = c := by
    rw [h.frame q, write_one]
    have : (q - (q + 1)).toNat = 2 ^ 32 - 1 := by
      rw [sub_add_eq_sub_sub, BitVec.sub_self]
      rfl
    omega
  have hle := h.le
  refine ⟨by omega, ?_, ?_, ?_, ?_⟩
  · intro j hj
    cases j with
    | zero =>
        rw [BitVec.add_zero, BitVec.add_zero, hhead]
        exact ⟨hc, hload⟩
    | succ j =>
        have hb := h.bytes j (by omega)
        rw [hsame j (by omega) (by omega), add_one_add] at hb
        exact hb
  · rw [← add_one_add]
    exact h.last
  · rcases h.stop with hs | hs
    · exact .inl (by rw [hs])
    · by_cases hlen : len = k
      · exact .inl (by rw [hlen])
      · rw [hsame len (Nat.le_refl _) (by omega)] at hs
        exact .inr hs
  · intro x hx
    rw [h.frame x, write_one_other mem c (by omega)]
    rw [sub_add_eq_sub_sub, BitVec.toNat_sub]
    have h1 : (1 : Word).toNat = 1 := rfl
    have := (x - q).isLt
    omega

/-- 空の文字列か、一バイトも写せないときは、終端だけが書かれる。 -/
theorem Copied.empty {tr : Translation} {mem : Memory} {src q : Word} {k : Nat}
    (hstop : k = 0 ∨ loadByte tr mem src = .ok 0) : Copied tr mem src (mem.write q [0]) q k 0 := by
  refine ⟨Nat.zero_le _, by simp, ?_, ?_, ?_⟩
  · rw [BitVec.add_zero, write_one]
  · rw [BitVec.add_zero]
    exact hstop.imp Eq.symm id
  · intro x hx
    exact write_one_other mem 0 (by omega)

/-- 文字列の終端の位置 `m` まで、またはそこまでに打ち切られるまでの読み取りが、書き込む範囲を通らなければ、文字列が
そのまま写る。 -/
theorem strncpyLoop_copied {tr : Translation} {k m : Nat} {dst src q : Word} {mem mem' : Memory} (hk : k + 1 < 2 ^ 32)
    (hdst : ∀ j ≤ k, tr (dst + BitVec.ofNat 32 j) = .ok (q + BitVec.ofNat 32 j))
    (hfar : ∀ j ≤ m, j < k → ∀ p, tr (src + BitVec.ofNat 32 j) = .ok p → k + 1 ≤ (p - q).toNat)
    (hend : k ≤ m ∨ loadByte tr mem (src + BitVec.ofNat 32 m) = .ok 0)
    (h : strncpyLoop tr k dst src mem = .ok mem') : ∃ len ≤ m, Copied tr mem src mem' q k len := by
  have hzero : tr dst = .ok q := by
    have := hdst 0 (Nat.zero_le _)
    rwa [BitVec.add_zero, BitVec.add_zero] at this
  induction k generalizing m dst src q mem with
  | zero =>
      rw [strncpyLoop, storeByte_ok hzero] at h
      cases h
      exact ⟨0, Nat.zero_le _, .empty (.inl rfl)⟩
  | succ k ih =>
      obtain ⟨c, hc, h⟩ := bind_ok.1 h
      by_cases h0 : c = 0
      · subst h0
        rw [if_pos rfl, storeByte_ok hzero] at h
        cases h
        exact ⟨0, Nat.zero_le _, .empty (.inr hc)⟩
      · rw [if_neg h0, storeByte_ok hzero] at h
        cases m with
        | zero =>
            rcases hend with hm | hm
            · omega
            · rw [BitVec.add_zero, hc] at hm
              cases hm
              exact absurd rfl h0
        | succ m =>
            have hfar' : ∀ j ≤ m, j < k → ∀ p, tr (src + BitVec.ofNat 32 (j + 1)) = .ok p → k + 2 ≤ (p - q).toNat :=
              fun j hj hjk => hfar (j + 1) (by omega) (by omega)
            have hdst' := maps_tail hdst
            have hzero' : tr (dst + 1) = .ok (q + 1) := by
              have := hdst' 0 (Nat.zero_le _)
              rwa [BitVec.add_zero, BitVec.add_zero] at this
            have hnext : ∀ j ≤ m, j < k → ∀ p, tr (src + 1 + BitVec.ofNat 32 j) = .ok p →
                k + 1 ≤ (p - (q + 1)).toNat := by
              intro j hj hjk p hp
              rw [add_one_add] at hp
              have hfar := hfar' j hj hjk p hp
              have h1 : (1 : Word).toNat = 1 := rfl
              have := (p - q).isLt
              rw [sub_add_eq_sub_sub, BitVec.toNat_sub]
              omega
            have hend' : k ≤ m ∨ loadByte tr (mem.write q [c]) (src + 1 + BitVec.ofNat 32 m) = .ok 0 := by
              by_cases hkm : k ≤ m
              · exact .inl hkm
              · refine .inr ?_
                rw [add_one_add, ← hend.resolve_left (by omega)]
                apply loadByte_congr
                intro p hp
                have := hfar' m (Nat.le_refl _) (by omega) p hp
                exact write_one_other mem c (by omega)
            obtain ⟨len, hlen, hcopied⟩ := ih (by omega) hdst' hnext hend' h hzero'
            refine ⟨len + 1, by omega, hcopied.cons (by omega) hc h0 ?_⟩
            intro j hj hjk
            exact hfar' j (by omega) hjk

/-- はじめて現れる終端の位置。`k` までに無ければ `k` である。 -/
theorem exists_terminator (f : Nat → Except Fault Byte) (k : Nat) :
    ∃ m ≤ k, (∀ j < m, f j ≠ .ok 0) ∧ (k ≤ m ∨ f m = .ok 0) := by
  induction k with
  | zero => exact ⟨0, Nat.le_refl _, by simp, .inl (Nat.le_refl _)⟩
  | succ k ih =>
      obtain ⟨m, hm, hne, hstop⟩ := ih
      by_cases h0 : f m = .ok 0
      · exact ⟨m, by omega, hne, .inr h0⟩
      · refine ⟨k + 1, Nat.le_refl _, ?_, .inl (Nat.le_refl _)⟩
        obtain rfl : m = k := Nat.le_antisymm hm (hstop.resolve_right h0)
        intro j hj
        rcases Nat.lt_succ_iff_lt_or_eq.1 hj with hj | rfl
        · exact hne j hj
        · exact h0

theorem strncpyLoop_dst {tr : Translation} {k : Nat} {dst src : Word} {mem mem' : Memory}
    (h : strncpyLoop tr k dst src mem = .ok mem') : ∃ p, tr dst = .ok p := by
  have hstore : ∀ {mem mem' : Memory} {c : Byte}, storeByte tr mem dst c = .ok mem' → ∃ p, tr dst = .ok p := by
    intro mem mem' c h
    obtain ⟨p, hp, -⟩ := storeByte_cases h
    exact ⟨p, hp⟩
  cases k with
  | zero => exact hstore h
  | succ k =>
      obtain ⟨c, -, h⟩ := bind_ok.1 h
      by_cases h0 : c = 0
      · rw [if_pos h0] at h
        exact hstore h
      · rw [if_neg h0] at h
        obtain ⟨mem, h, -⟩ := bind_ok.1 h
        exact hstore h

theorem strncpyLoop_total {tr : Translation} (htr : ∀ a, ∃ p, tr a = .ok p) (k : Nat) (dst src : Word) (mem : Memory) :
    ∃ mem', strncpyLoop tr k dst src mem = .ok mem' := by
  induction k generalizing dst src mem with
  | zero =>
      obtain ⟨p, hp⟩ := htr dst
      exact ⟨_, storeByte_ok hp⟩
  | succ k ih =>
      obtain ⟨p, hp⟩ := htr src
      obtain ⟨q, hq⟩ := htr dst
      by_cases h0 : mem p = 0
      · refine ⟨mem.write q [0], bind_ok.2 ⟨mem p, loadByte_ok hp, ?_⟩⟩
        rw [if_pos h0]
        exact storeByte_ok hq
      · obtain ⟨mem', h⟩ := ih (dst + 1) (src + 1) (mem.write q [mem p])
        refine ⟨mem', bind_ok.2 ⟨mem p, loadByte_ok hp, ?_⟩⟩
        rw [if_neg h0]
        exact bind_ok.2 ⟨_, storeByte_ok hq, h⟩

end EnkiOs
