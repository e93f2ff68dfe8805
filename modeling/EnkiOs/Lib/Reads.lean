import EnkiOs.Lib.Memory

/-!
# 読み取りの記録

メモリを一バイトずつ読みながら進む計算。読んだアドレスは、必ず記録に残る。
-/

namespace Machine

variable {α β : Type} {m m' : Memory} {I : Word → Prop}

/-- 終わるか、一バイトを読んで続ける。 -/
inductive Reads (α : Type) where
  | done (result : α)
  | read (a : Word) (next : Byte → Reads α)

namespace Reads

def bind : Reads α → (α → Reads β) → Reads β
  | done result, f => f result
  | read a next, f => read a fun b => (next b).bind f

instance : Monad Reads where
  pure := done
  bind := bind

/-- メモリ `m` の上で進めた結果。 -/
def value (m : Memory) : Reads α → α
  | done result => result
  | read a next => (next (m a)).value m

/-- メモリ `m` の上で読んだアドレスの列。 -/
def trace (m : Memory) : Reads α → List Word
  | done _ => []
  | read a next => a :: (next (m a)).trace m

def byte (a : Word) : Reads Byte := read a done

def half (a : Word) : Reads (BitVec 16) := do
  let low ← byte a
  let high ← byte (a + 1)
  return high ++ low

def word (a : Word) : Reads Word := do
  let low ← half a
  let high ← half (a + 2)
  return high ++ low

/-! ## 結果 -/

@[simp] theorem value_pure (result : α) : (pure result : Reads α).value m = result := rfl

@[simp] theorem value_bind (r : Reads α) (f : α → Reads β) : (r >>= f).value m = (f (r.value m)).value m := by
  show (r.bind f).value m = _
  induction r with
  | done result => rfl
  | read a next ih => exact ih (m a)

-- 条件の中でも書き換えられるように、定義からの等式にはしない。
@[simp] theorem value_byte (a : Word) : (byte a).value m = m a := (rfl)

@[simp] theorem value_half (a : Word) : (half a).value m = m.half a := by
  simp only [half, value_bind, value_byte, value_pure, Memory.half]

@[simp] theorem value_word (a : Word) : (word a).value m = m.word a := by
  simp only [word, value_bind, value_half, value_pure, Memory.word]

@[simp] theorem value_ite (p : Prop) [Decidable p] (r s : Reads α) :
    (if p then r else s).value m = if p then r.value m else s.value m := by
  split <;> rfl

/-! ## 読む範囲 -/

/-- 読むアドレスがどれも `I` を満たす。 -/
def Within (m : Memory) (I : Word → Prop) (r : Reads α) : Prop := ∀ a ∈ r.trace m, I a

@[simp] theorem within_pure (result : α) : (pure result : Reads α).Within m I ↔ True := by
  simp [Within, show (pure result : Reads α).trace m = [] from rfl]

theorem trace_bind (r : Reads α) (f : α → Reads β) : (r >>= f).trace m = r.trace m ++ (f (r.value m)).trace m := by
  show (r.bind f).trace m = _
  induction r with
  | done result => rfl
  | read a next ih => exact congrArg (List.cons a) (ih (m a))

@[simp] theorem within_bind (r : Reads α) (f : α → Reads β) :
    (r >>= f).Within m I ↔ r.Within m I ∧ (f (r.value m)).Within m I := by
  simp only [Within, trace_bind, List.mem_append, or_imp, forall_and]

@[simp] theorem within_byte (a : Word) : (byte a).Within m I ↔ I a := by
  simp [Within, show (byte a).trace m = [a] from rfl]

@[simp] theorem within_half (a : Word) : (half a).Within m I ↔ I a ∧ I (a + 1) := by
  simp [half]

@[simp] theorem within_word (a : Word) : (word a).Within m I ↔ (I a ∧ I (a + 1)) ∧ I (a + 2) ∧ I (a + 2 + 1) := by
  simp [word]

@[simp] theorem within_ite (p : Prop) [Decidable p] (r s : Reads α) :
    (if p then r else s).Within m I ↔ if p then r.Within m I else s.Within m I := by
  split <;> rfl

/-- 読んだバイトが同じなら、結果も同じである。 -/
theorem value_congr (r : Reads α) (h : ∀ a ∈ r.trace m, m' a = m a) : r.value m' = r.value m := by
  induction r with
  | done result => rfl
  | read a next ih =>
      rw [trace, List.forall_mem_cons] at h
      rw [value, value, h.1]
      exact ih (m a) h.2

end Reads

end Machine
