import EnkiOs.Tty.Basic
import Mathlib.Logic.Relation

/-!
# 端末の出力の範囲
-/

namespace EnkiOs
open Machine

variable {t t' : Tty} {c color : Byte}

/-- カーソルの列は画面の中にあり、書いたセルは、どれも画面の中にある。 -/
structure OnScreen (t : Tty) : Prop where
  col_lt : t.col.toNat < VGA_WIDTH
  written_lt : ∀ i ∈ t.written, 0 ≤ i ∧ i < VGA_WIDTH * VGA_HEIGHT

/-- カーソルの位置の番号。 -/
def Tty.pos (t : Tty) : Nat := t.row.toNat * VGA_WIDTH + t.col.toNat

/-- 文字 `c` を書くと、書くセルはどれも画面の中にあり、列も画面の中に留まる。行の先頭で戻せるのは、画面の先頭だけである。 -/
def Tty.Fits (t : Tty) (c : Byte) : Prop :=
  if c = 0x0A then True
  else if c = 0x09 then t.pos + 3 < VGA_WIDTH * VGA_HEIGHT
  else if c = KEY_BACKSPACE then (t.row = 0 ∧ t.col = 0) ∨ (t.col ≠ 0 ∧ t.pos ≤ VGA_WIDTH * VGA_HEIGHT)
  else t.pos < VGA_WIDTH * VGA_HEIGHT

def TtyRun : Tty → Tty → Prop := Relation.ReflTransGen fun t t' => ∃ c color, t' = ttyWritechar t c color

def FitTtyRun : Tty → Tty → Prop := Relation.ReflTransGen fun t t' => ∃ c color, t' = ttyWritechar t c color ∧ t.Fits c

/-! ## 一文字 -/

theorem pos_lt (t : Tty) : t.pos < 2 ^ 31 := by
  have hrow := t.row.isLt
  have hcol := t.col.isLt
  simp only [Tty.pos, VGA_WIDTH]
  omega

theorem cursor_index (t : Tty) : i32 ((t.row.toNat : Int) * VGA_WIDTH + t.col.toNat) = t.pos := by
  have hlt := pos_lt t
  simp only [Tty.pos, VGA_WIDTH] at hlt ⊢
  rw [i32_of_bounds (by omega) (by omega)]
  omega

theorem ttyPutchar_written (t : Tty) (c color : Byte) :
    (ttyPutchar t t.col.toNat t.row.toNat c color).written = (t.pos : Int) :: t.written := by
  rw [ttyPutchar, cursor_index]

theorem ttyPrint_written (t : Tty) (c color : Byte) : (ttyPrint t c color).written = (t.pos : Int) :: t.written := by
  rw [← ttyPutchar_written t c color]
  simp only [ttyPrint]
  split
  · rfl
  · rfl

/-- 行の端では、次の行の先頭に移る。 -/
theorem ttyPrint_col (t : Tty) (c color : Byte) : (ttyPrint t c color).col.toNat < VGA_WIDTH := by
  by_cases hge : VGA_WIDTH ≤ (t.col + 1).toNat
  · simp only [ttyPrint, ttyPutchar, hge, if_true]
    decide
  · simp only [ttyPrint, ttyPutchar, hge, if_false]
    exact Nat.not_le.1 hge

theorem ttyPrint_pos (hcol : t.col.toNat < VGA_WIDTH) (hrow : t.row.toNat < 65535) :
    (ttyPrint t c color).pos = t.pos + 1 := by
  have hsucc : (t.col + 1).toNat = t.col.toNat + 1 := by
    rw [BitVec.toNat_add]
    simp only [VGA_WIDTH] at hcol
    show (t.col.toNat + 1) % 2 ^ 16 = _
    omega
  have hrsucc : (t.row + 1).toNat = t.row.toNat + 1 := by
    rw [BitVec.toNat_add]
    show (t.row.toNat + 1) % 2 ^ 16 = _
    omega
  by_cases hge : VGA_WIDTH ≤ (t.col + 1).toNat
  · simp only [ttyPrint, ttyPutchar, Tty.pos, hge, if_true]
    rw [hsucc] at hge
    rw [hrsucc]
    show (t.row.toNat + 1) * VGA_WIDTH + 0 = _
    simp only [VGA_WIDTH] at hge hcol ⊢
    omega
  · simp only [ttyPrint, ttyPutchar, Tty.pos, hge, if_false]
    rw [hsucc]
    omega

theorem ttyPrint_iff (h : OnScreen t) : OnScreen (ttyPrint t c color) ↔ t.pos < VGA_WIDTH * VGA_HEIGHT := by
  constructor
  · intro h'
    have hpos := (h'.written_lt t.pos (by rw [ttyPrint_written]; exact List.mem_cons_self)).2
    omega
  · intro hlt
    refine ⟨ttyPrint_col t c color, ?_⟩
    rw [ttyPrint_written]
    intro i hi
    rcases List.mem_cons.1 hi with rfl | hi
    · omega
    · exact h.written_lt i hi

theorem mem_written_ttySpaces {i : Int} (h : i ∈ t.written) (k : Nat) : i ∈ (ttySpaces k t).written := by
  induction k generalizing t with
  | zero => exact h
  | succ k ih =>
      apply ih
      rw [ttyPrint_written]
      exact List.mem_cons_of_mem _ h

theorem row_lt_of_pos (h : t.pos < VGA_WIDTH * VGA_HEIGHT) : t.row.toNat < 65535 := by
  simp only [Tty.pos, VGA_WIDTH, VGA_HEIGHT] at h
  omega

theorem ttySpaces_iff (h : OnScreen t) (k : Nat) : OnScreen (ttySpaces (k + 1) t) ↔ t.pos + k < VGA_WIDTH * VGA_HEIGHT := by
  induction k generalizing t with
  | zero => exact ttyPrint_iff h
  | succ k ih =>
      rw [ttySpaces]
      by_cases hlt : t.pos < VGA_WIDTH * VGA_HEIGHT
      · rw [ih ((ttyPrint_iff h).2 hlt), ttyPrint_pos h.col_lt (row_lt_of_pos hlt)]
        omega
      · refine iff_of_false ?_ (by omega)
        intro h'
        have hmem : (t.pos : Int) ∈ (ttyPrint t 0x20 VGA_COLOR_WHITE).written := by
          rw [ttyPrint_written]
          exact List.mem_cons_self
        have := (h'.written_lt _ (mem_written_ttySpaces hmem (k + 1))).2
        omega

/-- 行の先頭でない位置からは、一つ手前のセルを消して、そこへ戻る。 -/
theorem ttyBackspace_inside (h : OnScreen t) (hcol : t.col ≠ 0) :
    (ttyBackspace t).written = ((t.pos - 1 : Nat) : Int) :: t.written ∧ (ttyBackspace t).col.toNat < VGA_WIDTH := by
  have hlt := h.col_lt
  have hne : t.col.toNat ≠ 0 := fun h0 => hcol (BitVec.eq_of_toNat_eq h0)
  have hpred : (t.col - 1).toNat = t.col.toNat - 1 := by
    rw [BitVec.toNat_sub]
    show (2 ^ 16 - 1 + t.col.toNat) % 2 ^ 16 = _
    simp only [VGA_WIDTH] at hlt
    omega
  have hback : t.col - 1 + 1 = t.col := BitVec.sub_add_cancel t.col 1
  have hstay : ¬VGA_WIDTH ≤ t.col.toNat := Nat.not_le.2 hlt
  have hpos : ({ t with col := t.col - 1 } : Tty).pos = t.pos - 1 := by
    simp only [Tty.pos, hpred]
    omega
  have hcond : ¬(t.row = 0 ∧ t.col = 0) := fun h0 => hcol h0.2
  have hwritten := ttyPrint_written { t with col := t.col - 1 } 0x20 15
  rw [hpos] at hwritten
  have hend : (ttyPrint { t with col := t.col - 1 } 0x20 15).col = t.col := by
    simp only [ttyPrint, ttyPutchar, hback, hstay, if_false]
  rw [ttyBackspace, if_neg hcond]
  simp only [hcol, if_false]
  refine ⟨hwritten, ?_⟩
  rw [hend, hpred]
  omega

/-- 二行目からの行の先頭では、列が 0 から一つ戻って 65535 になる。 -/
theorem ttyBackspace_start (hrow : t.row ≠ 0) (hcol : t.col = 0) : (ttyBackspace t).col = 65535 := by
  have hcond : ¬(t.row = 0 ∧ t.col = 0) := fun h0 => hrow h0.1
  have hedge : VGA_WIDTH ≤ (BitVec.ofNat 16 VGA_WIDTH - 1 + 1).toNat := by decide
  rw [ttyBackspace, if_neg hcond]
  simp only [hcol, if_true, ttyPrint, ttyPutchar, hedge]
  rfl

theorem ttyBackspace_iff (h : OnScreen t) :
    OnScreen (ttyBackspace t) ↔ (t.row = 0 ∧ t.col = 0) ∨ (t.col ≠ 0 ∧ t.pos ≤ VGA_WIDTH * VGA_HEIGHT) := by
  by_cases hcol : t.col = 0
  · by_cases hrow : t.row = 0
    · rw [ttyBackspace, if_pos ⟨hrow, hcol⟩]
      exact iff_of_true h (.inl ⟨hrow, hcol⟩)
    · refine iff_of_false ?_ ?_
      · intro h'
        have hlt := h'.col_lt
        rw [ttyBackspace_start hrow hcol] at hlt
        exact absurd hlt (by decide)
      · rintro (⟨h0, -⟩ | ⟨hne, -⟩)
        · exact hrow h0
        · exact hne hcol
  · obtain ⟨hwritten, hlt⟩ := ttyBackspace_inside h hcol
    have hne : t.col.toNat ≠ 0 := fun h0 => hcol (BitVec.eq_of_toNat_eq h0)
    have hpos : 0 < t.pos := by
      simp only [Tty.pos]
      omega
    constructor
    · intro h'
      have hmem := (h'.written_lt ((t.pos - 1 : Nat) : Int) (by rw [hwritten]; exact List.mem_cons_self)).2
      exact .inr ⟨hcol, by omega⟩
    · rintro (⟨-, h0⟩ | ⟨-, hle⟩)
      · exact absurd h0 hcol
      · refine ⟨hlt, ?_⟩
        rw [hwritten]
        intro i hi
        rcases List.mem_cons.1 hi with rfl | hi
        · omega
        · exact h.written_lt i hi

/-- 画面の中から書いた文字が画面の中に留まるのは、`Fits` のときに限る。 -/
theorem ttyWritechar_iff (h : OnScreen t) (c color : Byte) : OnScreen (ttyWritechar t c color) ↔ t.Fits c := by
  simp only [ttyWritechar, Tty.Fits]
  split
  · exact iff_of_true ⟨by simp [ttyNewline], h.written_lt⟩ trivial
  · split
    · exact ttySpaces_iff h 3
    · split
      · exact ttyBackspace_iff h
      · exact ttyPrint_iff h

/-! ## 文字の列 -/

theorem ttyClearRow_onScreen {y k x : Nat} (h : OnScreen t) (hy : y < VGA_HEIGHT) (hx : x + k ≤ VGA_WIDTH) :
    OnScreen (ttyClearRow y k x t) ∧ (ttyClearRow y k x t).row = t.row ∧ (ttyClearRow y k x t).col = t.col := by
  induction k generalizing x t with
  | zero => exact ⟨h, rfl, rfl⟩
  | succ k ih =>
      have hbound : 0 ≤ (y : Int) * VGA_WIDTH + x ∧ (y : Int) * VGA_WIDTH + x < VGA_WIDTH * VGA_HEIGHT := by
        simp only [VGA_WIDTH, VGA_HEIGHT] at hy hx ⊢
        omega
      have hidx : i32 ((y : Int) * VGA_WIDTH + x) = y * VGA_WIDTH + x := by
        simp only [VGA_WIDTH, VGA_HEIGHT] at hbound ⊢
        exact i32_of_bounds (by omega) (by omega)
      have hput : OnScreen (ttyPutchar t x y 0x20 0) := by
        have hwritten : (ttyPutchar t x y 0x20 0).written = i32 ((y : Int) * VGA_WIDTH + x) :: t.written := rfl
        refine ⟨h.col_lt, ?_⟩
        rw [hwritten, hidx]
        intro i hi
        rcases List.mem_cons.1 hi with rfl | hi
        · exact hbound
        · exact h.written_lt i hi
      exact ih hput (by omega)

theorem ttyClear_onScreen {k y : Nat} (h : OnScreen t) (hy : y + k ≤ VGA_HEIGHT) :
    OnScreen (ttyClear k y t) ∧ (ttyClear k y t).row = t.row ∧ (ttyClear k y t).col = t.col := by
  induction k generalizing y t with
  | zero => exact ⟨h, rfl, rfl⟩
  | succ k ih =>
      obtain ⟨hline, hrow, hcol⟩ := ttyClearRow_onScreen h (show y < VGA_HEIGHT by omega) (show 0 + VGA_WIDTH ≤ VGA_WIDTH by decide)
      obtain ⟨hrest, hrow', hcol'⟩ := ih hline (show y + 1 + k ≤ VGA_HEIGHT by omega)
      exact ⟨hrest, hrow'.trans hrow, hcol'.trans hcol⟩

theorem ttyInit_onScreen (hblank : t.written = []) :
    OnScreen (ttyInit t) ∧ (ttyInit t).row = 0 ∧ (ttyInit t).col = 0 := by
  refine ttyClear_onScreen ⟨show (0 : BitVec 16).toNat < VGA_WIDTH by decide, ?_⟩ (Nat.le_refl VGA_HEIGHT)
  intro i hi
  have hi' : i ∈ t.written := hi
  rw [hblank] at hi'
  cases hi'

theorem FitTtyRun.onScreen (hr : FitTtyRun t t') (h : OnScreen t) : OnScreen t' := by
  induction hr with
  | refl => exact h
  | tail _ hstep ih =>
      obtain ⟨c, color, rfl, hfit⟩ := hstep
      exact (ttyWritechar_iff ih c color).2 hfit

/-- `tty_writestr` は、文字の列である。 -/
theorem ttyWritestr_run (t : Tty) (s : List Byte) : TtyRun t (ttyWritestr t s) := by
  induction s generalizing t with
  | nil => exact .refl
  | cons c s ih => exact .head ⟨c, VGA_COLOR_WHITE, rfl⟩ (ih _)

/-- `tty_init` から始めて、どの文字も画面の中に書けるときにだけ書けば、到達するどの状態でも、列も書いたセルも画面の中にある。
そのような状態から書いた文字がこれを保つのは、それが画面の中に書けるとき、そのときに限る。 -/
theorem onScreen_of_fitTtyRun (hblank : t.written = []) :
    (∀ t', FitTtyRun (ttyInit t) t' → OnScreen t') ∧
    ∀ t' c color, FitTtyRun (ttyInit t) t' → (OnScreen (ttyWritechar t' c color) ↔ t'.Fits c) := by
  have h := (ttyInit_onScreen hblank).1
  constructor
  · intro t' hr
    exact hr.onScreen h
  · intro t' c color hr
    exact ttyWritechar_iff (hr.onScreen h) c color

/-- 画面に何も書いていない端末。 -/
def blankTty : Tty := ⟨0, 0, fun _ => 0, []⟩

/-- 印字、改行、印字、消去の後。 -/
theorem onScreen_of_fitTtyRun_erased :
    FitTtyRun (ttyInit blankTty) (ttyWritestr (ttyInit blankTty) [0x61, 0x0A, 0x62, 0x08]) ∧
    OnScreen (ttyWritestr (ttyInit blankTty) [0x61, 0x0A, 0x62, 0x08]) := by
  obtain ⟨-, hrow, hcol⟩ := ttyInit_onScreen (t := blankTty) rfl
  have hrun : FitTtyRun (ttyInit blankTty) (ttyWritestr (ttyInit blankTty) [0x61, 0x0A, 0x62, 0x08]) := by
    generalize ttyInit blankTty = t at hrow hcol
    have hprinted : ∀ t : Tty, t.col = 0 → ∀ c, (ttyPrint t c 15).row = t.row ∧ (ttyPrint t c 15).col = 1 := by
      intro t h0 c
      have hnarrow : ¬VGA_WIDTH ≤ ((ttyPutchar t t.col.toNat t.row.toNat c 15).col + 1).toNat := by
        rw [show (ttyPutchar t t.col.toNat t.row.toNat c 15).col = t.col from rfl, h0]
        decide
      simp only [ttyPrint]
      rw [if_neg hnarrow]
      exact ⟨rfl, congrArg (· + 1) h0⟩
    obtain ⟨hrow₁, hcol₁⟩ := hprinted t hcol 0x61
    obtain ⟨hrow₃, hcol₃⟩ := hprinted (ttyNewline (ttyPrint t 0x61 15)) rfl 0x62
    have hrow₂ : (ttyNewline (ttyPrint t 0x61 15)).row = 1 := by
      rw [ttyNewline, hrow₁, hrow]
      rfl
    rw [hrow₂] at hrow₃
    have hfirst : t.Fits 0x61 := by
      simp only [Tty.Fits, Tty.pos, hrow, hcol]
      decide
    have hsecond : (ttyNewline (ttyPrint t 0x61 15)).Fits 0x62 := by
      simp only [Tty.Fits, Tty.pos, hrow₂, show (ttyNewline (ttyPrint t 0x61 15)).col = 0 from rfl]
      decide
    have hthird : (ttyPrint (ttyNewline (ttyPrint t 0x61 15)) 0x62 15).Fits 0x08 := by
      simp only [Tty.Fits, Tty.pos, hcol₃, hrow₃]
      decide
    exact (((Relation.ReflTransGen.single ⟨0x61, 15, rfl, hfirst⟩).tail ⟨0x0A, 15, rfl, trivial⟩).tail
      ⟨0x62, 15, rfl, hsecond⟩).tail ⟨0x08, 15, rfl, hthird⟩
  exact ⟨hrun, (onScreen_of_fitTtyRun (t := blankTty) rfl).1 _ hrun⟩

theorem ttyNewlines (t : Tty) (n : Nat) : (ttyWritestr t (List.replicate n 0x0A)).row = t.row + BitVec.ofNat 16 n ∧
    (ttyWritestr t (List.replicate n 0x0A)).col = if n = 0 then t.col else 0 := by
  induction n generalizing t with
  | zero => exact ⟨(BitVec.add_zero t.row).symm, rfl⟩
  | succ n ih =>
      have hstep : ttyWritestr t (List.replicate (n + 1) 0x0A) = ttyWritestr (ttyNewline t) (List.replicate n 0x0A) := rfl
      obtain ⟨hrow, hcol⟩ := ih (ttyNewline t)
      rw [hstep]
      refine ⟨?_, ?_⟩
      · rw [hrow, ttyNewline, BitVec.add_assoc, Nat.add_comm n 1, BitVec.ofNat_add]
        rfl
      · rw [hcol, if_neg (Nat.succ_ne_zero n)]
        split
        · rfl
        · rfl

/-- 25 回の改行の後の文字は、画面の次のセルに書かれる。二行目の先頭で一文字戻すと、列は 65535 になる。 -/
theorem onScreen_fails_bottom : TtyRun (ttyInit blankTty) (ttyWritestr (ttyInit blankTty) (List.replicate 25 0x0A ++ [0x61])) ∧
    (2000 : Int) ∈ (ttyWritestr (ttyInit blankTty) (List.replicate 25 0x0A ++ [0x61])).written ∧
    ¬OnScreen (ttyWritestr (ttyInit blankTty) (List.replicate 25 0x0A ++ [0x61])) ∧
    (ttyWritestr (ttyInit blankTty) [0x0A, 0x08]).col = 65535 ∧
    ¬OnScreen (ttyWritestr (ttyInit blankTty) [0x0A, 0x08]) := by
  obtain ⟨-, hrow, hcol⟩ := ttyInit_onScreen (t := blankTty) rfl
  have hstr : ttyWritestr (ttyInit blankTty) (List.replicate 25 0x0A ++ [0x61]) =
      ttyPrint (ttyWritestr (ttyInit blankTty) (List.replicate 25 0x0A)) 0x61 VGA_COLOR_WHITE := List.foldl_append
  obtain ⟨hrow', hcol'⟩ := ttyNewlines (ttyInit blankTty) 25
  have hpos : (ttyWritestr (ttyInit blankTty) (List.replicate 25 0x0A)).pos = 2000 := by
    rw [Tty.pos, hrow', hcol', hrow]
    rfl
  have hmem : (2000 : Int) ∈ (ttyWritestr (ttyInit blankTty) (List.replicate 25 0x0A ++ [0x61])).written := by
    rw [hstr, ttyPrint_written, hpos]
    exact List.mem_cons_self
  have hback : (ttyWritestr (ttyInit blankTty) [0x0A, 0x08]).col = 65535 := by
    have hstep : ∀ t, ttyWritestr t [0x0A, 0x08] = ttyBackspace (ttyNewline t) := fun _ => rfl
    rw [hstep]
    apply ttyBackspace_start
    · rw [ttyNewline, hrow]
      decide
    · rfl
  refine ⟨ttyWritestr_run _ _, hmem, ?_, hback, ?_⟩
  · intro h
    have hlt := (h.written_lt 2000 hmem).2
    simp only [VGA_WIDTH, VGA_HEIGHT] at hlt
    omega
  · intro h
    have hlt := h.col_lt
    rw [hback] at hlt
    exact absurd hlt (by decide)

end EnkiOs
