import EnkiOs.Lib.Cpu

/-!
# 手続きの呼び出しと文脈の復帰

呼ばれる手続きは、最初の命令から `ret` の後までの、状態の関数として渡す。手続きが守る約束は `Cdecl` で述べる。
-/

namespace Machine

theorem Memory.Holds.congr {m m' : Memory} {a : Word} {ws : List Word} (h : m.Holds a ws)
    (hm : m'.AgreeOn m a (4 * ws.length)) : m'.Holds a ws := by
  induction ws generalizing a with
  | nil => trivial
  | cons w ws ih =>
      simp only [List.length_cons] at hm
      have hword : m'.AgreeOn m a 4 := fun k hk => hm k (by omega)
      have hrest : m'.AgreeOn m (a + 4) (4 * ws.length) := hm.sub (k := 4) (by omega)
      exact ⟨hword.word.trans h.1, ih h.2 hrest⟩

/-- 語を書いた四バイトのほかは変わらない。 -/
theorem Memory.setWord_byte (m : Memory) {a x : Word} (v : Word) (h : 4 ≤ (x - a).toNat) : m.setWord a v x = m x :=
  Memory.write_other m a h

namespace Cpu

def popEbp (c : Cpu) : Cpu := { c.pop.2 with ebp := c.pop.1 }

/-- `popad`。積まれた `esp` は読み捨てる。 -/
def popad (c : Cpu) : Cpu :=
  { c with
    edi := c.mem.word c.esp
    esi := c.mem.word (c.esp + 4)
    ebp := c.mem.word (c.esp + 8)
    ebx := c.mem.word (c.esp + 16)
    edx := c.mem.word (c.esp + 20)
    ecx := c.mem.word (c.esp + 24)
    eax := c.mem.word (c.esp + 28)
    esp := c.esp + 32 }

/-- 特権の変わらない割り込み。スタックは切り替わらず、`esp` と `ss` は積まれない。 -/
def interruptSame (c : Cpu) (entry : Word) (cs : BitVec 16) : Cpu :=
  let k := c.pushAll [c.eflags, c.cs.setWidth 32, c.eip]
  { k with cs := cs, eip := entry, eflags := c.eflags &&& 0xFFFCBCFF }

theorem push_eax (c : Cpu) (v : Word) : (c.push v).eax = c.eax := rfl

theorem Stack.popad {c : Cpu} {edi esi ebp sp ebx edx ecx eax : Word} {ws : List Word}
    (h : c.Stack (edi :: esi :: ebp :: sp :: ebx :: edx :: ecx :: eax :: ws)) :
    c.popad = { c with
      edi := edi, esi := esi, ebp := ebp, ebx := ebx, edx := edx, ecx := ecx, eax := eax, esp := c.esp + 32 } ∧
    c.popad.Stack ws := by
  have hget : ∀ {i : Nat} {w : Word},
      (edi :: esi :: ebp :: sp :: ebx :: edx :: ecx :: eax :: ws)[i]? = some w →
      c.mem.word (c.esp + BitVec.ofNat 32 (4 * i)) = w := fun hi => Memory.Holds.get h hi
  have h0 : c.mem.word c.esp = edi := h.1
  have h1 : c.mem.word (c.esp + 4) = esi := hget (i := 1) rfl
  have h2 : c.mem.word (c.esp + 8) = ebp := hget (i := 2) rfl
  have h4 : c.mem.word (c.esp + 16) = ebx := hget (i := 4) rfl
  have h5 : c.mem.word (c.esp + 20) = edx := hget (i := 5) rfl
  have h6 : c.mem.word (c.esp + 24) = ecx := hget (i := 6) rfl
  have h7 : c.mem.word (c.esp + 28) = eax := hget (i := 7) rfl
  refine ⟨?_, ?_⟩
  · rw [Cpu.popad, h0, h1, h2, h4, h5, h6, h7]
  · obtain ⟨-, -, -, -, -, -, -, -, hrest⟩ := h
    have hesp : c.esp + 4 + 4 + 4 + 4 + 4 + 4 + 4 + 4 = c.esp + 32 := by bv_omega
    rw [hesp] at hrest
    exact hrest

/-- 積んだ語の場所のほかは変わらない。 -/
theorem pushAll_byte (c : Cpu) (vs : List Word) {x : Word} (hlen : vs.length < 2 ^ 29)
    (h : 4 * vs.length ≤ (x - (c.esp - BitVec.ofNat 32 (4 * vs.length))).toNat) : (c.pushAll vs).mem x = c.mem x := by
  induction vs generalizing c with
  | nil => rfl
  | cons v vs ih =>
      simp only [List.length_cons] at hlen h
      have hbase : c.esp - 4 - BitVec.ofNat 32 (4 * vs.length) = c.esp - BitVec.ofNat 32 (4 * (vs.length + 1)) := by
        rw [Nat.mul_succ, Nat.add_comm, BitVec.ofNat_add]
        exact (sub_add_eq_sub_sub _ _ _).symm
      have hrest := ih (c.push v) (by omega) (by
        rw [show (c.push v).esp = c.esp - 4 from rfl, hbase]
        omega)
      refine hrest.trans (Memory.setWord_byte c.mem v ?_)
      have hsub : (x - (c.esp - 4)).toNat = (x - (c.esp - BitVec.ofNat 32 (4 * (vs.length + 1)))).toNat - 4 * vs.length := by
        rw [← hbase]
        bv_omega
      omega

/-! ## 呼び出しの約束 -/

/-- `f` は、戻り先と `args` 個の引数が積まれた `c` から始まり、戻り先に戻る。引数より上の `room` バイトは呼んだ側のもので、
`ebx`、`ebp`、`esi`、`edi` とともに保たれる。 -/
structure Cdecl (f : Cpu → Cpu) (c : Cpu) (args room : Nat) : Prop where
  eip : (f c).eip = c.mem.word c.esp
  esp : (f c).esp = c.esp + 4
  ebx : (f c).ebx = c.ebx
  ebp : (f c).ebp = c.ebp
  esi : (f c).esi = c.esi
  edi : (f c).edi = c.edi
  cs : (f c).cs = c.cs
  ss : (f c).ss = c.ss
  kept : (f c).mem.AgreeOn c.mem (c.esp + 4 + BitVec.ofNat 32 (4 * args)) room

/-- すぐに戻る手続き。 -/
theorem ret_cdecl (c : Cpu) (args room : Nat) : Cdecl ret c args room :=
  ⟨rfl, rfl, rfl, rfl, rfl, rfl, rfl, rfl, fun _ _ => rfl⟩

variable {f : Cpu → Cpu} {c : Cpu} {next : Word} {args room : Nat}

theorem Cdecl.call (h : Cdecl f (c.push next) args room) : c.call next f = some (f (c.push next)) := by
  have hip : (f (c.push next)).eip = next := h.eip.trans (Memory.setWord_word _ _ _)
  simp only [Cpu.call]
  rw [if_pos hip]

end Cpu

end Machine
