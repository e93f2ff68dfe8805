import EnkiOs.Tty.Theorems

/-!
# 文字の消去

文字を書いてから一つ戻ると、書いた文字だけが消える。行の端では、書いた空白も次の行へ折り返し、列が 0 の手前へ進む。
-/

namespace EnkiOs
open Machine

variable {t t' : Tty} {c color : Byte}

/-- `t'` は、`t` のカーソルの位置のセルだけを空白にしたものである。 -/
structure Erased (t t' : Tty) : Prop where
  row : t'.row = t.row
  col : t'.col = t.col
  blank : t'.cells t.pos = vgaEntry 0x20 VGA_COLOR_WHITE
  frame : ∀ i ≠ (t.pos : Int), t'.cells i = t.cells i

/-- 制御文字でない。 -/
def Printable (c : Byte) : Prop := c ≠ 0x0A ∧ c ≠ 0x09 ∧ c ≠ KEY_BACKSPACE

theorem ttyWritechar_printable (t : Tty) (color : Byte) (h : Printable c) : ttyWritechar t c color = ttyPrint t c color := by
  rw [ttyWritechar, if_neg h.1, if_neg h.2.1, if_neg h.2.2]

theorem ttyWritechar_backspace (t : Tty) (color : Byte) : ttyWritechar t KEY_BACKSPACE color = ttyBackspace t := rfl

/-! ## カーソル -/

theorem ttyPrint_cells (t : Tty) (c color : Byte) : (ttyPrint t c color).cells = Function.update t.cells t.pos (vgaEntry c color) := by
  simp only [ttyPrint, ttyPutchar, cursor_index]
  split <;> rfl

theorem col_succ (h : t.col.toNat < VGA_WIDTH) : (t.col + 1).toNat = t.col.toNat + 1 := by
  unfold VGA_WIDTH at h
  rw [BitVec.toNat_add, show (1 : BitVec 16).toNat = 1 from rfl]
  omega

theorem ttyPrint_within (h : t.col.toNat + 1 < VGA_WIDTH) (c color : Byte) :
    (ttyPrint t c color).row = t.row ∧ (ttyPrint t c color).col = t.col + 1 := by
  have hstay : ¬VGA_WIDTH ≤ (t.col + 1).toNat := by
    rw [col_succ (Nat.lt_of_succ_lt h)]
    exact Nat.not_le.2 h
  simp only [ttyPrint, ttyPutchar, hstay, if_false, and_self]

theorem ttyPrint_wraps (h : t.col.toNat + 1 = VGA_WIDTH) (c color : Byte) :
    (ttyPrint t c color).row = t.row + 1 ∧ (ttyPrint t c color).col = 0 := by
  have hend : VGA_WIDTH ≤ (t.col + 1).toNat := by
    rw [col_succ (by omega)]
    exact Nat.le_of_eq h.symm
  simp only [ttyPrint, ttyPutchar, hend, if_true, and_self]

/-- 行の先頭でなければ、一つ手前に空白を書いて、そこへ戻る。 -/
theorem ttyBackspace_cursor (h : t.col ≠ 0) : ttyBackspace t =
    { ttyPrint { t with col := t.col - 1 } 0x20 15 with col := (ttyPrint { t with col := t.col - 1 } 0x20 15).col - 1 } := by
  have hcond : ¬(t.row = 0 ∧ t.col = 0) := fun h0 => h h0.2
  rw [ttyBackspace, if_neg hcond]
  simp only [h, if_false]

/-! ## 書いた文字の消去 -/

/-- 行の端より手前では、書いた文字だけが消える。 -/
theorem ttyBackspace_erases (h : t.col.toNat + 1 < VGA_WIDTH) (c color : Byte) : Erased t (ttyBackspace (ttyPrint t c color)) := by
  obtain ⟨hrow, hcol⟩ := ttyPrint_within h c color
  have hne : (ttyPrint t c color).col ≠ 0 := by
    intro h0
    have hsucc := col_succ (Nat.lt_of_succ_lt h)
    rw [← hcol, h0] at hsucc
    exact absurd hsucc (Nat.succ_ne_zero _).symm
  -- 戻った位置は、はじめのカーソルの位置である。
  have hback : (ttyPrint t c color).col - 1 = t.col := by rw [hcol, BitVec.add_sub_cancel]
  rw [ttyBackspace_cursor hne, hback]
  have hpos : ({ ttyPrint t c color with col := t.col } : Tty).pos = t.pos := by rw [Tty.pos, hrow, Tty.pos]
  obtain ⟨hrow', hcol'⟩ := ttyPrint_within (t := { ttyPrint t c color with col := t.col }) h 0x20 15
  have hcells := ttyPrint_cells { ttyPrint t c color with col := t.col } 0x20 15
  rw [hpos] at hcells
  constructor
  · exact hrow'.trans hrow
  · rw [hcol', BitVec.add_sub_cancel]
  · rw [hcells, Function.update_self]
  · intro i hi
    rw [hcells, Function.update_of_ne hi, ttyPrint_cells, Function.update_of_ne hi]

/-- 行の端では、列が 65535 になる。 -/
theorem ttyBackspace_edge (h : t.col.toNat + 1 = VGA_WIDTH) (hrow : t.row.toNat < VGA_HEIGHT - 1) (c color : Byte) :
    (ttyBackspace (ttyPrint t c color)).col = 65535 := by
  obtain ⟨hrow', hcol⟩ := ttyPrint_wraps h c color
  refine ttyBackspace_start ?_ hcol
  intro h0
  have hsucc : (t.row + 1).toNat = t.row.toNat + 1 := by
    unfold VGA_HEIGHT at hrow
    rw [BitVec.toNat_add, show (1 : BitVec 16).toNat = 1 from rfl]
    omega
  rw [← hrow', h0] at hsucc
  exact absurd hsucc (Nat.succ_ne_zero _).symm

/-- 書いた文字が消えて元に戻るのは、行の最後の列でないときである。 -/
theorem ttyWritechar_erased_iff {back : Byte} (hcol : t.col.toNat < VGA_WIDTH) (hrow : t.row.toNat < VGA_HEIGHT - 1)
    (hc : Printable c) : Erased t (ttyWritechar (ttyWritechar t c color) KEY_BACKSPACE back) ↔ t.col.toNat + 1 < VGA_WIDTH := by
  rw [ttyWritechar_printable t color hc, ttyWritechar_backspace]
  constructor
  · intro h
    by_contra hge
    have hedge := ttyBackspace_edge (by omega) hrow c color
    rw [h.col] at hedge
    rw [hedge] at hcol
    exact absurd hcol (by decide)
  · intro hlt
    exact ttyBackspace_erases hlt c color

/-- 空の画面の、行の端にあるカーソル。 -/
def edgeTty : Tty := ⟨0, 79, fun _ => vgaEntry 0x20 0, []⟩

theorem ttyWritechar_erased_iff_edge :
    Erased edgeTty (ttyWritechar (ttyWritechar edgeTty 0x41 VGA_COLOR_WHITE) KEY_BACKSPACE VGA_COLOR_WHITE) ↔ 79 + 1 < VGA_WIDTH :=
  ttyWritechar_erased_iff (by decide) (by decide) ⟨by decide, by decide, by decide⟩

theorem ttyWritechar_erased_fails :
    edgeTty.col.toNat < VGA_WIDTH ∧ edgeTty.row.toNat < VGA_HEIGHT - 1 ∧
      (ttyWritechar (ttyWritechar edgeTty 0x41 VGA_COLOR_WHITE) KEY_BACKSPACE VGA_COLOR_WHITE).col = 65535 ∧
      ¬Erased edgeTty (ttyWritechar (ttyWritechar edgeTty 0x41 VGA_COLOR_WHITE) KEY_BACKSPACE VGA_COLOR_WHITE) := by
  have hcol : (ttyWritechar (ttyWritechar edgeTty 0x41 VGA_COLOR_WHITE) KEY_BACKSPACE VGA_COLOR_WHITE).col = 65535 := by decide
  refine ⟨by decide, by decide, hcol, ?_⟩
  intro h
  have heq := h.col
  rw [hcol] at heq
  exact absurd heq (by decide)

end EnkiOs
