import EnkiOs.Lib.Page
import EnkiOs.Tty.EraseTheorems

/-!
# 画面に並ぶ文字

画面は、一続きのページとして読める。カーソルの位置は書いた文字の数であり、改行は行の残りを空白で埋め、戻ると最後の文字が消える。
-/

namespace EnkiOs
open Machine

/-- セルの文字。色は見ない。 -/
def glyph (cell : BitVec 16) : Byte := cell.setWidth 8

/-- ページに一文字を書く。 -/
def pageWritechar (page : List Byte) (c : Byte) : List Byte :=
  if c = 0x0A then Page.newline VGA_WIDTH 0x20 page
  else if c = 0x09 then page ++ List.replicate 4 0x20
  else if c = KEY_BACKSPACE then page.dropLast
  else page ++ [c]

instance (c : Byte) : Decidable (Printable c) := inferInstanceAs (Decidable (_ ∧ _ ∧ _))

/-- 画面に収まり、行の先頭からは戻らない。 -/
def FitsPage (page : List Byte) (c : Byte) : Prop :=
  (pageWritechar page c).length ≤ VGA_WIDTH * VGA_HEIGHT ∧ (c = KEY_BACKSPACE → page = [] ∨ page.length % VGA_WIDTH ≠ 0)

instance (page : List Byte) (c : Byte) : Decidable (FitsPage page c) := inferInstanceAs (Decidable (_ ∧ _))

/-- 画面に `page` が並び、カーソルがその直後にある。 -/
structure Displays (t : Tty) (page : List Byte) : Prop where
  col_lt : t.col.toNat < VGA_WIDTH
  cursor : t.pos = page.length
  shows : Page.Shows 0x20 (VGA_WIDTH * VGA_HEIGHT) (fun i => glyph (t.cells i)) page

variable {t : Tty} {page : List Byte} {c color : Byte} {n k x y : Nat}

/-! ## セル -/

theorem glyph_vgaEntry (c color : Byte) : glyph (vgaEntry c color) = c := by
  apply BitVec.eq_of_getLsbD_eq
  intro i hi
  simp [glyph, vgaEntry, hi]

theorem glyph_update (cells : Int → BitVec 16) (i : Int) (c color : Byte) :
    (fun j => glyph (Function.update cells i (vgaEntry c color) j)) = Function.update (fun j => glyph (cells j)) i c := by
  funext j
  by_cases hj : j = i
  · rw [hj, Function.update_self, Function.update_self, glyph_vgaEntry]
  · rw [Function.update_of_ne hj, Function.update_of_ne hj]

/-! ## 画面の消去 -/

/-- 先頭の `n` 個のセルが空白である。 -/
def Cleared (n : Nat) (t : Tty) : Prop := ∀ i : Nat, i < n → glyph (t.cells i) = 0x20

theorem Cleared.put (h : Cleared (y * VGA_WIDTH + x) t) (hy : y < VGA_HEIGHT) (hx : x < VGA_WIDTH) :
    Cleared (y * VGA_WIDTH + (x + 1)) (ttyPutchar t x y 0x20 0) := by
  have hidx : i32 ((y : Int) * VGA_WIDTH + x) = ((y * VGA_WIDTH + x : Nat) : Int) := by
    simp only [VGA_WIDTH, VGA_HEIGHT] at hy hx ⊢
    rw [i32_of_bounds (by omega) (by omega)]
    omega
  intro i hi
  simp only [ttyPutchar, hidx]
  by_cases heq : i = y * VGA_WIDTH + x
  · rw [heq, Function.update_self, glyph_vgaEntry]
  · rw [Function.update_of_ne (by omega)]
    exact h i (by omega)

theorem Cleared.row (h : Cleared (y * VGA_WIDTH + x) t) (hy : y < VGA_HEIGHT) (hx : x + k ≤ VGA_WIDTH) :
    Cleared (y * VGA_WIDTH + (x + k)) (ttyClearRow y k x t) := by
  induction k generalizing x t with
  | zero => exact h
  | succ k ih =>
      have hrest := ih (h.put hy (by omega)) (by omega)
      rw [show x + 1 + k = x + (k + 1) by omega] at hrest
      exact hrest

theorem Cleared.screen (h : Cleared (y * VGA_WIDTH) t) (hy : y + k ≤ VGA_HEIGHT) :
    Cleared ((y + k) * VGA_WIDTH) (ttyClear k y t) := by
  induction k generalizing y t with
  | zero => exact h
  | succ k ih =>
      have hline : Cleared (y * VGA_WIDTH + (0 + VGA_WIDTH)) (ttyClearRow y VGA_WIDTH 0 t) :=
        Cleared.row h (by omega) (Nat.le_of_eq (Nat.zero_add VGA_WIDTH))
      rw [Nat.zero_add, ← Nat.succ_mul] at hline
      have hrest := ih hline (by omega)
      rw [show y + 1 + k = y + (k + 1) by omega] at hrest
      exact hrest

theorem ttyClearRow_cursor (y k x : Nat) (t : Tty) :
    (ttyClearRow y k x t).row = t.row ∧ (ttyClearRow y k x t).col = t.col := by
  induction k generalizing x t with
  | zero => exact ⟨rfl, rfl⟩
  | succ k ih => exact ih (x + 1) (ttyPutchar t x y 0x20 0)

theorem ttyClear_cursor (k y : Nat) (t : Tty) : (ttyClear k y t).row = t.row ∧ (ttyClear k y t).col = t.col := by
  induction k generalizing y t with
  | zero => exact ⟨rfl, rfl⟩
  | succ k ih =>
      obtain ⟨hrow, hcol⟩ := ih (y + 1) (ttyClearRow y VGA_WIDTH 0 t)
      obtain ⟨hrow', hcol'⟩ := ttyClearRow_cursor y VGA_WIDTH 0 t
      exact ⟨hrow.trans hrow', hcol.trans hcol'⟩

theorem ttyInit_displays (t : Tty) : Displays (ttyInit t) [] := by
  obtain ⟨hrow, hcol⟩ := ttyClear_cursor VGA_HEIGHT 0 { t with row := 0, col := 0 }
  have hcleared : Cleared ((0 + VGA_HEIGHT) * VGA_WIDTH) (ttyInit t) := by
    refine Cleared.screen (fun i hi => ?_) (Nat.le_of_eq (Nat.zero_add VGA_HEIGHT))
    rw [Nat.zero_mul] at hi
    exact absurd hi (Nat.not_lt_zero i)
  rw [Nat.zero_add, Nat.mul_comm] at hcleared
  constructor
  · rw [ttyInit, hcol]
    exact show (0 : BitVec 16).toNat < VGA_WIDTH by decide
  · rw [Tty.pos, ttyInit, hrow, hcol]
    rfl
  · exact Page.Shows.empty hcleared

/-! ## 一文字 -/

theorem Displays.row_lt (h : Displays t page) (hlt : page.length ≤ VGA_WIDTH * VGA_HEIGHT) : t.row.toNat < 65535 := by
  have hpos := h.cursor
  simp only [Tty.pos, VGA_WIDTH, VGA_HEIGHT] at hpos hlt
  omega

/-- 列と行は、文字の数を幅で割った余りと商である。 -/
theorem Displays.place (h : Displays t page) :
    page.length % VGA_WIDTH = t.col.toNat ∧ page.length / VGA_WIDTH = t.row.toNat := by
  have hcol := h.col_lt
  rw [← h.cursor, Tty.pos]
  simp only [VGA_WIDTH] at hcol ⊢
  omega

theorem Displays.print (h : Displays t page) (hlt : page.length < VGA_WIDTH * VGA_HEIGHT) (c color : Byte) :
    Displays (ttyPrint t c color) (page ++ [c]) := by
  constructor
  · exact ttyPrint_col t c color
  · rw [ttyPrint_pos h.col_lt (h.row_lt (Nat.le_of_lt hlt)), h.cursor, List.length_append, List.length_singleton]
  · rw [ttyPrint_cells, h.cursor, glyph_update]
    exact h.shows.print c

theorem Displays.spaces (h : Displays t page) (hle : page.length + k ≤ VGA_WIDTH * VGA_HEIGHT) :
    Displays (ttySpaces k t) (page ++ List.replicate k 0x20) := by
  induction k generalizing t page with
  | zero =>
      rw [List.replicate_zero, List.append_nil]
      exact h
  | succ k ih =>
      have hrest := ih (h.print (by omega) 0x20 VGA_COLOR_WHITE) (by rw [List.length_append, List.length_singleton]; omega)
      rw [List.append_assoc] at hrest
      exact hrest

theorem Displays.newline (h : Displays t page) (hle : (Page.newline VGA_WIDTH 0x20 page).length ≤ VGA_WIDTH * VGA_HEIGHT) :
    Displays (ttyNewline t) (Page.newline VGA_WIDTH 0x20 page) := by
  have hlen := Page.length_newline (show 0 < VGA_WIDTH by decide) (0x20 : Byte) page
  rw [h.place.2] at hlen
  rw [hlen] at hle
  have hrow : (t.row + 1).toNat = t.row.toNat + 1 := by
    simp only [VGA_WIDTH, VGA_HEIGHT] at hle
    rw [BitVec.toNat_add, show (1 : BitVec 16).toNat = 1 from rfl]
    omega
  constructor
  · show (0 : BitVec 16).toNat < VGA_WIDTH
    decide
  · rw [hlen, ← hrow]
    rfl
  · exact h.shows.newline VGA_WIDTH

/-- 行の先頭でなければ、最後の文字を消して、その位置に戻る。 -/
theorem Displays.erase (h : Displays t (page ++ [c])) (hcol : t.col ≠ 0) : Displays (ttyBackspace t) page := by
  have hlt := h.col_lt
  have hne : t.col.toNat ≠ 0 := fun h0 => hcol (BitVec.eq_of_toNat_eq h0)
  have hpred : (t.col - 1).toNat = t.col.toNat - 1 := by
    rw [BitVec.toNat_sub, show (1 : BitVec 16).toNat = 1 from rfl]
    simp only [VGA_WIDTH] at hlt
    omega
  have hcursor := h.cursor
  rw [List.length_append, List.length_singleton, Tty.pos] at hcursor
  have hpos : ({ t with col := t.col - 1 } : Tty).pos = page.length := by
    show t.row.toNat * VGA_WIDTH + (t.col - 1).toNat = page.length
    rw [hpred]
    omega
  have hstep : ({ t with col := t.col - 1 } : Tty).col.toNat + 1 < VGA_WIDTH := by
    show (t.col - 1).toNat + 1 < VGA_WIDTH
    rw [hpred]
    omega
  obtain ⟨hrow', hcol'⟩ := ttyPrint_within hstep 0x20 15
  have hcells := ttyPrint_cells { t with col := t.col - 1 } 0x20 15
  rw [hpos] at hcells
  have hback : (ttyPrint { t with col := t.col - 1 } 0x20 15).col - 1 = t.col - 1 := by rw [hcol', BitVec.add_sub_cancel]
  rw [ttyBackspace_cursor hcol, hback]
  constructor
  · exact Nat.lt_of_succ_lt hstep
  · rw [← hpos, Tty.pos, hrow', Tty.pos]
  · simp only [hcells, glyph_update]
    exact h.shows.erase

/-- 画面の先頭では、何もしない。 -/
theorem Displays.backspace (h : Displays t page) (hback : page = [] ∨ page.length % VGA_WIDTH ≠ 0) :
    Displays (ttyBackspace t) page.dropLast := by
  obtain ⟨hcol, hrow⟩ := h.place
  rcases hback with rfl | hne
  · have hstart : t.row = 0 ∧ t.col = 0 :=
      ⟨BitVec.eq_of_toNat_eq (hrow.symm.trans (Nat.zero_div _)), BitVec.eq_of_toNat_eq (hcol.symm.trans (Nat.zero_mod _))⟩
    rw [ttyBackspace, if_pos hstart]
    exact h
  · have hinside : t.col ≠ 0 := by
      intro h0
      rw [hcol, h0] at hne
      exact hne rfl
    have hends := List.eq_nil_or_concat page
    simp only [List.concat_eq_append] at hends
    rcases hends with rfl | ⟨page, last, rfl⟩
    · exact absurd (Nat.zero_mod _) hne
    · rw [List.dropLast_concat]
      exact h.erase hinside

/-- 一文字の後も、画面はページのとおりである。 -/
theorem Displays.writechar (h : Displays t page) (hfit : FitsPage page c) (color : Byte) :
    Displays (ttyWritechar t c color) (pageWritechar page c) := by
  obtain ⟨hle, hback⟩ := hfit
  simp only [ttyWritechar, pageWritechar] at hle ⊢
  split
  · rename_i hc
    rw [if_pos hc] at hle
    exact h.newline hle
  · rename_i hc
    rw [if_neg hc] at hle
    split
    · rename_i hc'
      rw [if_pos hc', List.length_append, List.length_replicate] at hle
      exact h.spaces hle
    · rename_i hc'
      rw [if_neg hc'] at hle
      split
      · rename_i hbs
        exact h.backspace (hback hbs)
      · rename_i hbs
        rw [if_neg hbs, List.length_append, List.length_singleton] at hle
        exact h.print hle c color

/-! ## 文字の列 -/

/-- `tty_init` の後に、画面に収まるように書いた文字の列と、そのページ。 -/
inductive ScreenRun : Tty → List Byte → Prop
  | init (t : Tty) : ScreenRun (ttyInit t) []
  | write {t : Tty} {page : List Byte} (hr : ScreenRun t page) (c color : Byte) (hfit : FitsPage page c) :
      ScreenRun (ttyWritechar t c color) (pageWritechar page c)

/-- 画面に収まるように書く限り、どの文字の列の後も、画面には書いたとおりのページが並び、カーソルはその直後にあって、残りは空白である。 -/
theorem screenRun_displays (hr : ScreenRun t page) : Displays t page := by
  induction hr with
  | init t => exact ttyInit_displays t
  | write _ c color hfit ih => exact ih.writechar hfit color

/-- 二文字を書いて一つ消し、改行する。 -/
theorem screenRun_displays_erased :
    Displays (ttyWritestr (ttyInit blankTty) [0x41, 0x42, KEY_BACKSPACE, 0x0A]) (0x41 :: List.replicate 79 0x20) :=
  screenRun_displays (((((ScreenRun.init blankTty).write 0x41 15 (by decide)).write 0x42 15 (by decide)).write
    KEY_BACKSPACE 15 (by decide)).write 0x0A 15 (by decide))

end EnkiOs
