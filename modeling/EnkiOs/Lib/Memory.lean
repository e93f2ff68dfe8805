import EnkiOs.Lib.Int32

/-!
# バイトの並びとメモリ

構造体を読み書きするための、小さい順のバイト列と、アドレスからバイトへの関数としてのメモリ。
-/

namespace Machine

/-! ## 小さい順のバイト列 -/

/-- 並びの外は 0 と読む。 -/
def byteAt (bytes : List Byte) (i : Nat) : Byte := bytes.getD i 0

def halfAt (bytes : List Byte) (i : Nat) : BitVec 16 := byteAt bytes (i + 1) ++ byteAt bytes i

def wordAt (bytes : List Byte) (i : Nat) : Word := halfAt bytes (i + 2) ++ halfAt bytes i

theorem byteAt_map_range {n i : Nat} (f : Nat → Byte) (h : i < n) :
    byteAt ((List.range n).map f) i = f i := by
  simp [byteAt, h]

/-! ## メモリ -/

abbrev Memory := Word → Byte

/-- アドレス `a` から順に `bytes` を書く。アドレスは `2^32` で折り返す。 -/
def Memory.write (m : Memory) (a : Word) (bytes : List Byte) : Memory := fun x =>
  (bytes[(x - a).toNat]?).getD (m x)

/-- `memset(a, 0, n)` -/
def Memory.zero (m : Memory) (a : Word) (n : Nat) : Memory := m.write a (List.replicate n 0)

/-- アドレス `a` からの `n` バイト。 -/
def Memory.read (m : Memory) (a : Word) (n : Nat) : List Byte :=
  (List.range n).map fun i => m (a + BitVec.ofNat 32 i)

/-- 小さい順に読む 16 ビットと 32 ビットの値。 -/
def Memory.half (m : Memory) (a : Word) : BitVec 16 := m (a + 1) ++ m a

def Memory.word (m : Memory) (a : Word) : Word := m.half (a + 2) ++ m.half a

@[simp] theorem Memory.write_nil (m : Memory) (a : Word) : m.write a [] = m := rfl

theorem toNat_add_ofNat_sub (a : Word) {k : Nat} (h : k < 2 ^ 32) :
    (a + BitVec.ofNat 32 k - a).toNat = k := by
  rw [BitVec.add_comm, BitVec.add_sub_cancel, BitVec.toNat_ofNat, Nat.mod_eq_of_lt h]

theorem add_one_add (a : Word) (j : Nat) : a + 1 + BitVec.ofNat 32 j = a + BitVec.ofNat 32 (j + 1) := by
  rw [BitVec.add_assoc, BitVec.ofNat_add, BitVec.add_comm 1]
  rfl

theorem ne_add_one_add (a : Word) {j : Nat} (h : j + 1 < 2 ^ 32) : a ≠ a + 1 + BitVec.ofNat 32 j := by
  intro he
  rw [add_one_add] at he
  have hsub := toNat_add_ofNat_sub a h
  rw [← he, BitVec.sub_self] at hsub
  exact absurd hsub (Nat.succ_ne_zero j).symm

theorem add_ofNat_inj (a : Word) {i j : Nat} (hi : i < 2 ^ 32) (hj : j < 2 ^ 32) :
    a + BitVec.ofNat 32 i = a + BitVec.ofNat 32 j ↔ i = j := by
  refine ⟨fun he => ?_, fun he => by rw [he]⟩
  rw [← toNat_add_ofNat_sub a hi, ← toNat_add_ofNat_sub a hj, he]

/-- 折り返さない範囲の足し算。 -/
theorem toNat_add_ofNat {a : Word} {k : Nat} (h : a.toNat + k < 2 ^ 32) : (a + BitVec.ofNat 32 k).toNat = a.toNat + k := by
  rw [BitVec.toNat_add, BitVec.toNat_ofNat]
  omega

/-- 折り返さない範囲では、位置の違うアドレスは違う。 -/
theorem add_ofNat_ne {a b : Word} {i j : Nat} (ha : a.toNat + i < 2 ^ 32) (hb : b.toNat + j < 2 ^ 32)
    (hne : a.toNat + i ≠ b.toNat + j) : a + BitVec.ofNat 32 i ≠ b + BitVec.ofNat 32 j := by
  intro he
  have hnat := congrArg BitVec.toNat he
  rw [toNat_add_ofNat ha, toNat_add_ofNat hb] at hnat
  exact hne hnat

theorem add_ofNat_ne_zero {a : Word} {k : Nat} (ha : a ≠ 0) (h : a.toNat + k < 2 ^ 32) : a + BitVec.ofNat 32 k ≠ 0 := by
  intro h0
  have hpos : 0 < a.toNat := BitVec.toNat_pos_of_ne_zero ha
  have hnat := congrArg BitVec.toNat h0
  rw [toNat_add_ofNat h, show (0 : Word).toNat = 0 from rfl] at hnat
  omega

theorem sub_add_eq_sub_sub (x a b : Word) : x - (a + b) = x - a - b := by
  apply BitVec.eq_of_toNat_eq
  simp only [BitVec.toNat_sub, BitVec.toNat_add]
  omega

/-- 書いた範囲の中は、書いたバイトである。 -/
theorem Memory.write_at (m : Memory) (a : Word) {bytes : List Byte} {k : Nat} (h : k < bytes.length)
    (hb : bytes.length ≤ 2 ^ 32) : m.write a bytes (a + BitVec.ofNat 32 k) = byteAt bytes k := by
  rw [Memory.write, toNat_add_ofNat_sub a (by omega), byteAt, List.getD_eq_getElem?_getD,
    List.getElem?_eq_getElem h]
  rfl

theorem Memory.write_other (m : Memory) (a : Word) {bytes : List Byte} {x : Word}
    (h : bytes.length ≤ (x - a).toNat) : m.write a bytes x = m x := by
  rw [Memory.write, List.getElem?_eq_none h]
  rfl

theorem write_outside {mem : Memory} {a p : Word} {bytes : List Byte} (h : ∀ i < bytes.length, p ≠ a + BitVec.ofNat 32 i) :
    mem.write a bytes p = mem p := by
  refine Memory.write_other mem a (Nat.le_of_not_lt ?_)
  intro hlt
  refine h (p - a).toNat hlt ?_
  rw [BitVec.ofNat_toNat, BitVec.setWidth_eq, BitVec.add_comm, BitVec.sub_add_cancel]

theorem Memory.write_one_ne {m : Memory} {a x : Word} (h : x ≠ a) (c : Byte) : m.write a [c] x = m x := by
  refine write_outside fun i hi => ?_
  obtain rfl : i = 0 := Nat.lt_one_iff.1 hi
  rwa [BitVec.add_zero]

/-- 続けて書いた二つの並びは、一度に書いたのと同じである。 -/
theorem Memory.write_append (m : Memory) (a : Word) (xs ys : List Byte)
    (h : xs.length + ys.length ≤ 2 ^ 32) :
    (m.write a xs).write (a + BitVec.ofNat 32 xs.length) ys = m.write a (xs ++ ys) := by
  funext x
  by_cases hx : (x - a).toNat < xs.length
  · have hge : ys.length ≤ (x - (a + BitVec.ofNat 32 xs.length)).toNat := by
      rw [sub_add_eq_sub_sub, BitVec.toNat_sub, BitVec.toNat_ofNat]
      have := (x - a).isLt
      omega
    rw [Memory.write_other _ _ hge, Memory.write, Memory.write, List.getElem?_append_left hx]
  · have hsub : (x - (a + BitVec.ofNat 32 xs.length)).toNat = (x - a).toNat - xs.length := by
      rw [sub_add_eq_sub_sub, BitVec.toNat_sub, BitVec.toNat_ofNat]
      have := (x - a).isLt
      omega
    rw [Memory.write, hsub, Memory.write_other m a (by omega), Memory.write,
      List.getElem?_append_right (by omega)]

/-- 後ろから続けて書いた二つの並びも、一度に書いたのと同じである。 -/
theorem Memory.write_prepend (m : Memory) (a : Word) (xs ys : List Byte) (h : xs.length + ys.length ≤ 2 ^ 32) :
    (m.write (a + BitVec.ofNat 32 xs.length) ys).write a xs = m.write a (xs ++ ys) := by
  funext x
  by_cases hx : (x - a).toNat < xs.length
  · simp only [Memory.write, List.getElem?_eq_getElem hx, List.getElem?_append_left hx, Option.getD_some]
  · rw [← Memory.write_append m a xs ys h, Memory.write_other _ _ (Nat.le_of_not_lt hx), Memory.write, Memory.write,
      Memory.write_other m a (Nat.le_of_not_lt hx)]

theorem write_cons (mem : Memory) (a : Word) (c : Byte) {bytes : List Byte} (h : bytes.length < 2 ^ 32) :
    mem.write a (c :: bytes) = (mem.write a [c]).write (a + 1) bytes := by
  have happend := Memory.write_append mem a [c] bytes (by simp; omega)
  exact happend.symm

@[simp] theorem Memory.length_read (m : Memory) (a : Word) (n : Nat) : (m.read a n).length = n := by
  simp [Memory.read]

theorem Memory.read_succ (m : Memory) (a : Word) (n : Nat) : m.read a (n + 1) = m a :: m.read (a + 1) n := by
  rw [Memory.read, List.range_succ_eq_map, List.map_cons, List.map_map, Memory.read]
  refine List.cons_eq_cons.2 ⟨by simp, ?_⟩
  apply List.map_congr_left
  intro i _
  simp only [Function.comp_apply, add_one_add]

theorem Memory.read_concat (m : Memory) (a : Word) (n : Nat) : m.read a (n + 1) = m.read a n ++ [m (a + BitVec.ofNat 32 n)] := by
  rw [Memory.read, List.range_succ, List.map_append, Memory.read, List.map_singleton]

/-- 読む範囲の後に書いても、読むバイトは変わらない。 -/
theorem Memory.read_write_after (m : Memory) (a : Word) (n : Nat) {bytes : List Byte} (h : n + bytes.length ≤ 2 ^ 32) :
    (m.write (a + BitVec.ofNat 32 n) bytes).read a n = m.read a n := by
  refine List.map_congr_left fun i hi => write_outside fun j hj => ?_
  have hlt := List.mem_range.1 hi
  rw [BitVec.add_assoc, ← BitVec.ofNat_add, Ne, add_ofNat_inj a (by omega) (by omega)]
  omega

theorem Memory.zero_of_zero {m : Memory} {a : Word} {n : Nat} (h : ∀ x, (x - a).toNat < n → m x = 0) :
    m.zero a n = m := by
  funext x
  rw [Memory.zero, Memory.write]
  by_cases hx : (x - a).toNat < n
  · rw [List.getElem?_replicate, if_pos hx, h x hx]
    rfl
  · rw [List.getElem?_replicate, if_neg hx]
    rfl

/-- 一バイトの書き込みは、同じところからの書き込みで消える。 -/
theorem Memory.write_over (m : Memory) (a : Word) (c : Byte) {bytes : List Byte} (hne : bytes ≠ []) :
    (m.write a [c]).write a bytes = m.write a bytes := by
  have hpos := List.length_pos_iff.2 hne
  funext x
  by_cases hx : (x - a).toNat < bytes.length
  · simp only [Memory.write, List.getElem?_eq_getElem hx, Option.getD_some]
  · rw [Memory.write_other _ _ (Nat.le_of_not_lt hx), Memory.write_other _ _ (Nat.le_of_not_lt hx),
      Memory.write_other _ _ (by rw [List.length_singleton]; omega)]

/-- ゼロで埋めたところに書くと、書いたバイトの後はゼロである。 -/
theorem Memory.zero_write_at (m : Memory) (a : Word) {bytes : List Byte} {n k : Nat} (hk : k < n) (hn : n ≤ 2 ^ 32)
    (hb : bytes.length ≤ 2 ^ 32) : (m.zero a n).write a bytes (a + BitVec.ofNat 32 k) = byteAt bytes k := by
  by_cases hin : k < bytes.length
  · exact Memory.write_at _ _ hin hb
  · rw [Memory.write_other _ _ (by rw [toNat_add_ofNat_sub _ (by omega)]; omega), Memory.zero,
      Memory.write_at _ _ (by rwa [List.length_replicate]) (by rwa [List.length_replicate]), byteAt, byteAt,
      List.getD_eq_getElem?_getD, List.getD_eq_getElem?_getD, List.getElem?_replicate, if_pos hk,
      List.getElem?_eq_none (Nat.le_of_not_lt hin)]
    rfl

/-- `a` からの `n` バイトが同じである。 -/
def Memory.AgreeOn (m m' : Memory) (a : Word) (n : Nat) : Prop :=
  ∀ k < n, m (a + BitVec.ofNat 32 k) = m' (a + BitVec.ofNat 32 k)

theorem Memory.AgreeOn.sub {m m' : Memory} {a : Word} {n : Nat} (h : m.AgreeOn m' a n) {k l : Nat} (hk : k + l ≤ n) :
    m.AgreeOn m' (a + BitVec.ofNat 32 k) l := by
  intro j hj
  rw [BitVec.add_assoc, ← BitVec.ofNat_add]
  exact h (k + j) (by omega)

theorem Memory.AgreeOn.half {m m' : Memory} {a : Word} (h : m.AgreeOn m' a 2) : m.half a = m'.half a := by
  have h0 := h 0 (by decide)
  have h1 := h 1 (by decide)
  rw [show a + BitVec.ofNat 32 0 = a from BitVec.add_zero a] at h0
  rw [Memory.half, Memory.half, h0]
  exact congrArg (· ++ m' a) h1

theorem Memory.AgreeOn.word {m m' : Memory} {a : Word} (h : m.AgreeOn m' a 4) : m.word a = m'.word a := by
  have h0 : m.AgreeOn m' a 2 := fun k hk => h k (by omega)
  have h2 : m.AgreeOn m' (a + 2) 2 := h.sub (k := 2) (l := 2) (by decide)
  rw [Memory.word, Memory.word, h0.half, h2.half]

/-- 書いた範囲から離れたところは同じである。 -/
theorem Memory.AgreeOn.write {m : Memory} {a b : Word} {n : Nat} {bytes : List Byte}
    (h : ∀ k < n, bytes.length ≤ (a + BitVec.ofNat 32 k - b).toNat) : (m.write b bytes).AgreeOn m a n := by
  intro k hk
  exact Memory.write_other m b (h k hk)

/-! ## 語の並び -/

/-- アドレスから語への関数。ページの表のように、語ごとに読み書きする領域に使う。 -/
abbrev Words := Word → Word

def Words.set (w : Words) (a v : Word) : Words := fun x => if x = a then v else w x

@[simp] theorem Words.set_same (w : Words) (a v : Word) : w.set a v a = v := by
  simp [Words.set]

theorem Words.set_other {w : Words} {a x : Word} (v : Word) (h : x ≠ a) : w.set a v x = w x := by
  simp [Words.set, h]

end Machine
