import EnkiOs.Lib.Memory

/-!
# 80386 の一部

レジスタとメモリの状態と、スタックを使う命令。命令は状態から状態への関数として書き、命令の並びは関数の合成になる。
`eip` は、飛んだ先だけを持つ。演算の命令が変えるフラグには未定義のものがあるので、演算の後のフラグは、どの関数で
決まってもよいものとする（`Alu`）。
-/

namespace Machine

/-! ## 語の並びを置いたメモリ -/

/-- 小さい順のバイト。 -/
def wordBytes (v : Word) : List Byte :=
  [v.extractLsb' 0 8, v.extractLsb' 8 8, v.extractLsb' 16 8, v.extractLsb' 24 8]

def Memory.setWord (m : Memory) (a v : Word) : Memory := m.write a (wordBytes v)

theorem append_wordBytes (v : Word) :
    ((v.extractLsb' 24 8 ++ v.extractLsb' 16 8 : BitVec 16) ++ (v.extractLsb' 8 8 ++ v.extractLsb' 0 8 : BitVec 16) : Word) =
      v := by
  rw [BitVec.extractLsb'_append_extractLsb'_eq_extractLsb' (by rfl),
    BitVec.extractLsb'_append_extractLsb'_eq_extractLsb' (by rfl),
    BitVec.extractLsb'_append_extractLsb'_eq_extractLsb' (by rfl)]
  simp

theorem Memory.setWord_word (m : Memory) (a v : Word) : (m.setWord a v).word a = v := by
  have hlen : (wordBytes v).length = 4 := rfl
  have hat : ∀ k < 4, m.setWord a v (a + BitVec.ofNat 32 k) = byteAt (wordBytes v) k := fun k hk =>
    m.write_at a (by omega) (by omega)
  have h0 := hat 0 (by decide)
  have h1 := hat 1 (by decide)
  have h2 := hat 2 (by decide)
  have h3 := hat 3 (by decide)
  rw [show a + BitVec.ofNat 32 0 = a from BitVec.add_zero a] at h0
  rw [Memory.word, Memory.half, Memory.half, h0, show a + 2 + 1 = a + BitVec.ofNat 32 3 by rw [BitVec.add_assoc]; rfl, h3,
    show a + 2 = a + BitVec.ofNat 32 2 from rfl, h2, show a + 1 = a + BitVec.ofNat 32 1 from rfl, h1]
  exact append_wordBytes v

/-- 重ならない語は変わらない。 -/
theorem Memory.setWord_other (m : Memory) {a b : Word} (v : Word) (h : 4 ≤ (a - b).toNat) (h' : 4 ≤ (b - a).toNat) :
    (m.setWord b v).word a = m.word a := by
  refine Memory.AgreeOn.word (Memory.AgreeOn.write ?_)
  intro k hk
  have hlen : (wordBytes v).length = 4 := rfl
  rw [hlen]
  bv_omega

/-- `a` から順に、語の並びが置かれている。 -/
def Memory.Holds (m : Memory) : Word → List Word → Prop
  | _, [] => True
  | a, w :: ws => m.word a = w ∧ m.Holds (a + 4) ws

theorem Memory.Holds.get {m : Memory} {a w : Word} {ws : List Word} (h : m.Holds a ws) {i : Nat} (hi : ws[i]? = some w) :
    m.word (a + BitVec.ofNat 32 (4 * i)) = w := by
  induction ws generalizing a i with
  | nil => cases hi
  | cons x ws ih =>
      cases i with
      | zero =>
          cases hi
          rw [Nat.mul_zero, show a + BitVec.ofNat 32 0 = a from BitVec.add_zero a]
          exact h.1
      | succ i =>
          rw [show a + BitVec.ofNat 32 (4 * (i + 1)) = a + 4 + BitVec.ofNat 32 (4 * i) by
            rw [BitVec.add_assoc, Nat.mul_succ, Nat.add_comm, BitVec.ofNat_add]
            rfl]
          exact ih h.2 hi

/-- `a` から数えて、並びが `b` に戻ってこない。 -/
theorem Memory.Holds.setWord {m : Memory} {a b : Word} {ws : List Word} (h : m.Holds a ws) (v : Word)
    (hlow : 4 ≤ (a - b).toNat) (hhigh : (a - b).toNat + 4 * ws.length ≤ 2 ^ 32) : (m.setWord b v).Holds a ws := by
  induction ws generalizing a with
  | nil => trivial
  | cons w ws ih =>
      simp only [List.length_cons] at hhigh
      obtain ⟨hw, hrest⟩ := h
      refine ⟨?_, ?_⟩
      · rw [m.setWord_other v hlow (by bv_omega)]
        exact hw
      · cases ws with
        | nil => trivial
        | cons w' ws =>
            simp only [List.length_cons] at hhigh ih
            have hnext : (a + 4 - b).toNat = (a - b).toNat + 4 := by bv_omega
            exact ih hrest (by omega) (by omega)

/-- 語の並びを書いたメモリ。 -/
def Memory.setWords (m : Memory) : Word → List Word → Memory
  | _, [] => m
  | a, w :: ws => (m.setWords (a + 4) ws).setWord a w

theorem Memory.holds_setWords (m : Memory) (a : Word) (ws : List Word) (hlen : ws.length < 2 ^ 30) :
    (m.setWords a ws).Holds a ws := by
  induction ws generalizing a with
  | nil => trivial
  | cons w ws ih =>
      simp only [List.length_cons] at hlen
      have hdist : (a + 4 - a).toNat = 4 := by bv_omega
      exact ⟨Memory.setWord_word _ a w, (ih (a + 4) (by omega)).setWord w (by omega) (by omega)⟩

/-! ## 語の表 -/

/-- `base` から語の並ぶ表の、`i` 番目の語。 -/
def Memory.entry (m : Memory) (base : Word) (i : Nat) : Word := m.word (base + BitVec.ofNat 32 (4 * i))

def Memory.setEntry (m : Memory) (base : Word) (i : Nat) (v : Word) : Memory := m.setWord (base + BitVec.ofNat 32 (4 * i)) v

section

variable {m m' : Memory} {base x v : Word} {i j n : Nat}

theorem Memory.setEntry_same : (m.setEntry base i v).entry base i = v := Memory.setWord_word _ _ _

theorem Memory.setEntry_other (hn : n ≤ 2 ^ 30) (hi : i < n) (hj : j < n) (hne : j ≠ i) :
    (m.setEntry base i v).entry base j = m.entry base j :=
  Memory.setWord_other m v (by bv_omega) (by bv_omega)

/-- 表の外は変わらない。 -/
theorem Memory.setEntry_byte (hn : n ≤ 2 ^ 30) (hi : i < n) (hx : 4 * n ≤ (x - base).toNat) : m.setEntry base i v x = m x := by
  have hlen : (wordBytes v).length = 4 := rfl
  refine Memory.write_other m _ ?_
  rw [hlen]
  bv_omega

theorem Memory.AgreeOn.entry (h : m'.AgreeOn m base (4 * n)) (hi : i < n) : m'.entry base i = m.entry base i :=
  (h.sub (k := 4 * i) (l := 4) (by omega)).word

end

/-! ## 状態 -/

structure Cpu where
  eax : Word
  ecx : Word
  edx : Word
  ebx : Word
  esp : Word
  ebp : Word
  esi : Word
  edi : Word
  eip : Word
  eflags : Word
  cs : BitVec 16
  ss : BitVec 16
  ds : BitVec 16
  es : BitVec 16
  fs : BitVec 16
  gs : BitVec 16
  mem : Memory

/-- 演算の後のフラグ。前のフラグと二つの被演算子から決まる。 -/
structure Alu where
  orFlags : Word → Word → Word → Word
  addFlags : Word → Word → Word → Word

/-- セグメントの特権の水準。 -/
def privilege (selector : BitVec 16) : BitVec 2 := selector.setWidth 2

namespace Cpu

/-! ## 命令 -/

def push (c : Cpu) (v : Word) : Cpu := { c with esp := c.esp - 4, mem := c.mem.setWord (c.esp - 4) v }

/-- 積んだ語を読み、下ろす。 -/
def pop (c : Cpu) : Word × Cpu := (c.mem.word c.esp, { c with esp := c.esp + 4 })

/-- `pushf`。`VM` と `RF` は 0 として積む。 -/
def pushf (c : Cpu) : Cpu := c.push (c.eflags &&& 0x00FCFFFF)

/-- 順に積む。 -/
def pushAll (c : Cpu) (vs : List Word) : Cpu := vs.foldl push c

/-- `pushad`。積む `esp` は、命令の前の値である。 -/
def pushad (c : Cpu) : Cpu := c.pushAll [c.eax, c.ecx, c.edx, c.ebx, c.esp, c.ebp, c.esi, c.edi]

def popEax (c : Cpu) : Cpu := { c.pop.2 with eax := c.pop.1 }

/-- `mov ax, v` は `eax` の下位だけを変える。 -/
def setAx (c : Cpu) (v : BitVec 16) : Cpu := { c with eax := c.eax.extractLsb' 16 16 ++ v }

def orEax (alu : Alu) (c : Cpu) (v : Word) : Cpu := { c with eax := c.eax ||| v, eflags := alu.orFlags c.eflags c.eax v }

def addEsp (alu : Alu) (c : Cpu) (v : Word) : Cpu := { c with esp := c.esp + v, eflags := alu.addFlags c.eflags c.esp v }

def ret (c : Cpu) : Cpu :=
  let (ip, c) := c.pop
  { c with eip := ip }

/-- `next` は `call` の次の命令の位置である。`f` がそこに戻らなければ、続きは実行されない。 -/
def call (c : Cpu) (next : Word) (f : Cpu → Cpu) : Option Cpu :=
  let c := f (c.push next)
  if c.eip = next then some c else none

/-- `iretd`。特権の低い側に戻るときだけ、`esp` と `ss` も下ろす。 -/
def iretd (c : Cpu) : Cpu :=
  let current := privilege c.cs
  let (ip, c) := c.pop
  let (cs, c) := c.pop
  let (flags, c) := c.pop
  let c := { c with eip := ip, cs := cs.setWidth 16, eflags := flags }
  if current < privilege c.cs then
    let (sp, c) := c.pop
    let (ss, c) := c.pop
    { c with esp := sp, ss := ss.setWidth 16 }
  else c

/-- 特権の低い側での、割り込みゲートによる割り込み。スタックを切り替えて、戻り先を積む。`TF`、`IF`、`NT`、`RF`、`VM`
は 0 になる。 -/
def interrupt (c : Cpu) (sp entry : Word) (ss cs : BitVec 16) : Cpu :=
  let k := { c with esp := sp, ss := ss }.pushAll [c.ss.setWidth 32, c.esp, c.eflags, c.cs.setWidth 32, c.eip]
  { k with cs := cs, eip := entry, eflags := c.eflags &&& 0xFFFCBCFF }

/-! ## スタックの中身 -/

/-- スタックの上から順に `ws` が積まれている。 -/
def Stack (c : Cpu) (ws : List Word) : Prop := c.mem.Holds c.esp ws

theorem Stack.push {c : Cpu} {ws : List Word} (h : c.Stack ws) (hlen : ws.length < 2 ^ 29) (v : Word) :
    (c.push v).Stack (v :: ws) := by
  have hback : c.esp - 4 + 4 = c.esp := BitVec.sub_add_cancel c.esp 4
  have hdist : (c.esp - (c.esp - 4)).toNat = 4 := by bv_omega
  refine ⟨Memory.setWord_word _ _ _, ?_⟩
  show (c.mem.setWord (c.esp - 4) v).Holds (c.esp - 4 + 4) ws
  rw [hback]
  exact Memory.Holds.setWord h v (by omega) (by omega)

theorem Stack.pushAll {c : Cpu} {ws : List Word} (h : c.Stack ws) (vs : List Word)
    (hlen : vs.length + ws.length < 2 ^ 29) : (c.pushAll vs).Stack (vs.reverse ++ ws) := by
  induction vs generalizing c ws with
  | nil => exact h
  | cons v vs ih =>
      simp only [List.length_cons] at hlen
      have hrest := ih (h.push (by omega) v) (by simp only [List.length_cons]; omega)
      rw [List.reverse_cons, List.append_assoc]
      exact hrest

/-- 積むと変わるのは、`esp` とメモリだけである。 -/
theorem pushAll_eq (c : Cpu) (vs : List Word) :
    ∃ mem, c.pushAll vs = { c with esp := c.esp - BitVec.ofNat 32 (4 * vs.length), mem := mem } := by
  induction vs generalizing c with
  | nil => exact ⟨c.mem, by simp [pushAll]⟩
  | cons v vs ih =>
      obtain ⟨mem, heq⟩ := ih (c.push v)
      refine ⟨mem, ?_⟩
      have hesp : c.esp - 4 - BitVec.ofNat 32 (4 * vs.length) = c.esp - BitVec.ofNat 32 (4 * (v :: vs).length) := by
        rw [List.length_cons, Nat.mul_succ, Nat.add_comm, BitVec.ofNat_add]
        exact (sub_add_eq_sub_sub _ _ _).symm
      rw [← hesp]
      exact heq

theorem Stack.pop {c : Cpu} {w : Word} {ws : List Word} (h : c.Stack (w :: ws)) : c.pop.1 = w ∧ c.pop.2.Stack ws := h

/-- 特権の低い側への復帰は、積まれた五語をすべて読む。 -/
theorem iretd_outer {c : Cpu} {ip cs flags sp ss : Word} {ws : List Word}
    (h : c.Stack (ip :: cs :: flags :: sp :: ss :: ws)) (hp : privilege c.cs < privilege (cs.setWidth 16)) :
    c.iretd = { c with eip := ip, cs := cs.setWidth 16, eflags := flags, esp := sp, ss := ss.setWidth 16 } := by
  obtain ⟨h1, h2, h3, h4, h5, -⟩ := h
  simp only [iretd, pop, h1, h2, h3, h4, h5]
  rw [if_pos hp]

theorem holds_push {c : Cpu} {a : Word} {ws : List Word} (h : c.mem.Holds a ws) (v : Word) (hpos : 4 ≤ c.esp.toNat)
    (habove : c.esp.toNat ≤ a.toNat) (hend : a.toNat + 4 * ws.length ≤ 2 ^ 32) : (c.push v).mem.Holds a ws := by
  have hdist : (a - (c.esp - 4)).toNat = a.toNat - c.esp.toNat + 4 := by bv_omega
  exact Memory.Holds.setWord h v (by omega) (by omega)

end Cpu

end Machine
