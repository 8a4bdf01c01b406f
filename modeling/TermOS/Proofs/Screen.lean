import Mathlib.Data.List.TakeWhile
import TermOS.Ref.Terminal

/-!
# What is on the screen

`put_char` in two steps: a character is stored at the cursor and the cursor
moves on, and where that ends the row, or a newline does, a new row begins,
with a scroll if there is none left. On the glyphs, the first is one cell and
the second is a window moved on by one row. So the screen shows the last 25
rows of the layout of all that was printed.
-/

namespace TermOS.Console

open TermOS.Lib

namespace Terminal

variable {t : Terminal} {c : UInt8} {k : Nat}

/-! ## The cells -/

theorem toUInt8_cell (t : Terminal) (c : UInt8) : (t.cell c).toUInt8 = c := by
  apply UInt8.toBitVec_inj.1
  simp only [cell, UInt16.toUInt8_or]
  simp
  ext i hi
  have hi' : i < 16 := Nat.lt_trans hi (by decide)
  simp [BitVec.getElem_signExtend, hi, hi', BitVec.getLsbD_eq_getElem]

theorem glyph_store : (t.store c).glyph k =
    if k = t.y * 80 + t.x then c else t.glyph k := by
  simp only [glyph, store]
  split
  · next hk =>
      subst hk
      rw [Function.update_self, toUInt8_cell]
  · next hk => rw [Function.update_of_ne hk]

theorem glyph_scrollUp (hk : k < 2000) : t.scrollUp.glyph k =
    if k < 1920 then t.glyph (k + 80) else blank := by
  simp only [glyph, scrollUp, fill_apply,
    copyBack_apply _ _ (by decide : 0 < 80)]
  split
  · next hin => rw [if_neg (by omega), toUInt8_cell]
  · next hout => rw [if_pos (by omega), if_pos (by omega)]

theorem glyph_clear (hk : k < 2000) : t.clear.glyph k = blank := by
  simp only [glyph, clear, updateCursor, fill_apply]
  rw [if_pos (by omega), toUInt8_cell]

/-- The row is over: the cursor goes to the start of the next, and the screen
scrolls if there is none. -/
def newRow (t : Terminal) : Terminal :=
  let t := { t with x := 0, y := t.y + 1 }
  if t.y ≥ 25 then t.scrollUp else t

/-- `put_char` of anything but a backspace, with the cursor on the screen. -/
theorem putChar_eq (hx : t.x < 80) (hy : t.y < 25) (hc : c ≠ backspace) :
    t.putChar c = (if c = newline then t.newRow
      else if t.x + 1 = 80 then (t.store c).newRow
      else { t.store c with x := t.x + 1 }).updateCursor := by
  rw [putChar, if_neg hc]
  simp only
  by_cases hnew : c = newline
  · simp only [if_pos hnew]
    rw [if_neg (by decide : ¬ (0 : Nat) ≥ 80)]
    rfl
  · simp only [if_neg hnew]
    by_cases hfull : t.x + 1 = 80
    · rw [if_pos (Nat.le_of_eq hfull.symm), if_pos hfull]
      rfl
    · rw [if_neg hfull]
      rw [if_neg (by omega : ¬ t.x + 1 ≥ 80)]
      rw [if_neg (by simp only [store]; omega)]

/-- The screen shows the last of these rows, and the cursor is behind the last
character of the last one. -/
structure Shows (t : Terminal) (before : List (List UInt8))
    (last : List UInt8) : Prop where
  cells : ∀ i j, i < 25 → j < 80 → t.glyph (i * 80 + j) =
    window 25 blank (before ++ [last]) i j
  x : t.x = last.length
  y : t.y = min before.length 24

variable {before : List (List UInt8)} {last : List UInt8}

theorem shows_clear (t : Terminal) : t.clear.Shows [] [] := by
  refine ⟨fun i j hi hj => ?_, rfl, rfl⟩
  rw [glyph_clear (by omega)]
  rcases i with _ | i <;> rfl

/-- What the cursor does on the controller is not on the screen. -/
theorem Shows.updateCursor (h : t.Shows before last) :
    t.updateCursor.Shows before last := ⟨h.cells, h.x, h.y⟩

theorem Shows.store (h : t.Shows before last) (hlast : last.length < 80)
    (c : UInt8) :
    Shows { t.store c with x := t.x + 1 } before (last ++ [c]) := by
  have hx := h.x
  have hy := h.y
  refine ⟨fun i j hi hj => ?_, by simp [hx], hy⟩
  have hstore : glyph { t.store c with x := t.x + 1 } (i * 80 + j) =
      (t.store c).glyph (i * 80 + j) := rfl
  rw [hstore, glyph_store, h.cells i j hi hj, window_write hi]
  by_cases hcell : i = min before.length (25 - 1) ∧ j = last.length
  · rw [if_pos hcell, if_pos (by omega)]
  · rw [if_neg hcell, if_neg (by omega)]

theorem Shows.newRow (h : t.Shows before last) :
    t.newRow.Shows (before ++ [last]) [] := by
  have hy := h.y
  rw [Terminal.newRow]
  simp only
  by_cases hroom : before.length + 1 < 25
  · rw [if_neg (by omega)]
    refine ⟨fun i j hi hj => ?_, rfl, ?_⟩
    · rw [window_newRow hi, if_pos hroom]
      exact h.cells i j hi hj
    · simp only [List.length_append, List.length_singleton]
      omega
  · rw [if_pos (by omega)]
    refine ⟨fun i j hi hj => ?_, rfl, ?_⟩
    · rw [window_newRow hi, if_neg hroom, glyph_scrollUp (by omega)]
      by_cases hlow : i + 1 < 25
      · rw [if_pos (by omega), if_pos hlow,
          show i * 80 + j + 80 = (i + 1) * 80 + j by omega]
        exact h.cells (i + 1) j hlow hj
      · rw [if_neg (by omega), if_neg hlow]
    · simp only [scrollUp, List.length_append, List.length_singleton]
      omega

theorem Shows.setColor (h : t.Shows before last) (fg bg : UInt8) :
    (t.setColor fg bg).Shows before last := ⟨h.cells, h.x, h.y⟩

/-! ## Texts -/

/-- A text without zeroes is printed as a whole. -/
theorem takeWhile_ne_zero {str : List UInt8} (hstr : ∀ c ∈ str, c ≠ 0) :
    str.takeWhile (· ≠ 0) = str :=
  List.takeWhile_eq_self_iff.2 fun c hc => decide_eq_true (hstr c hc)

theorem print_append (t : Terminal) {str : List UInt8}
    (hstr : ∀ c ∈ str, c ≠ 0) (rest : List UInt8) :
    t.print (str ++ rest) = (t.print str).print rest := by
  have hall : ∀ c ∈ str, decide (c ≠ 0) = true :=
    fun c hc => decide_eq_true (hstr c hc)
  rw [print, print, print, List.takeWhile_append_of_pos hall,
    List.foldl_append, takeWhile_ne_zero hstr]

/-- The screen shows the layout of a text. -/
def ShowsText (t : Terminal) (text : List UInt8) : Prop :=
  ∃ before last, last.length < 80 ∧
    layout 80 newline text = before ++ [last] ∧ t.Shows before last

variable {text : List UInt8}

theorem showsText_clear (t : Terminal) : t.clear.ShowsText [] :=
  ⟨[], [], by decide, rfl, shows_clear t⟩

/-- A character goes where the layout has it. -/
theorem ShowsText.putChar (h : t.ShowsText text) (hc : c ≠ backspace) :
    (t.putChar c).ShowsText (text ++ [c]) := by
  obtain ⟨before, last, hlast, hrows, hshows⟩ := h
  have hy : t.y < 25 := by
    have hmin := hshows.y
    omega
  have hlayout := layout_append (by decide : 0 < 80) hrows [c]
  rw [putChar_eq (hshows.x ▸ hlast) hy hc, hshows.x, ShowsText, hlayout,
    layoutFrom]
  by_cases hnew : c = newline
  · rw [if_pos hnew, if_pos hnew]
    refine ⟨before ++ [last], [], by decide, ?_, hshows.newRow.updateCursor⟩
    rw [layoutFrom, List.append_assoc]
    rfl
  · rw [if_neg hnew, if_neg hnew]
    have hstore := hshows.store hlast c
    by_cases hfull : last.length + 1 = 80
    · rw [if_pos hfull, if_pos hfull]
      refine ⟨before ++ [last ++ [c]], [], by decide, ?_,
        hstore.newRow.updateCursor⟩
      rw [layoutFrom, List.append_assoc]
      rfl
    · rw [if_neg hfull, if_neg hfull]
      refine ⟨before, last ++ [c], ?_, rfl, ?_⟩
      · rw [List.length_append, List.length_singleton]
        omega
      · rw [hshows.x] at hstore
        exact hstore.updateCursor

theorem ShowsText.print (h : t.ShowsText text) {str : List UInt8}
    (hstr : ∀ c ∈ str, c ≠ backspace ∧ c ≠ 0) :
    (t.print str).ShowsText (text ++ str) := by
  rw [Terminal.print, takeWhile_ne_zero fun c hc => (hstr c hc).2]
  induction str generalizing t text with
  | nil => rwa [List.append_nil]
  | cons c str ih =>
      rw [List.foldl_cons, List.append_cons]
      exact ih (h.putChar (hstr c List.mem_cons_self).1)
        fun d hd => hstr d (List.mem_cons_of_mem _ hd)

end Terminal

/-- The calls that print, and the one that says in which color. -/
inductive Call where
  | putChar (c : UInt8)
  | print (str : List UInt8)
  | setColor (fg bg : UInt8)

/-- The bytes a call prints. -/
def Call.text : Call → List UInt8
  | .putChar c => [c]
  | .print str => str
  | .setColor _ _ => []

namespace Terminal

def call (t : Terminal) : Call → Terminal
  | .putChar c => t.putChar c
  | .print str => t.print str
  | .setColor fg bg => t.setColor fg bg

theorem showsText_calls (t : Terminal) (calls : List Call)
    (htext : ∀ c ∈ calls.flatMap Call.text, c ≠ backspace ∧ c ≠ 0) :
    (calls.foldl call t.clear).ShowsText (calls.flatMap Call.text) := by
  induction calls using List.reverseRecOn with
  | nil => exact showsText_clear t
  | append_singleton calls k ih =>
      rw [List.flatMap_append] at htext ⊢
      rw [List.foldl_append]
      have hbefore := ih fun c hc => htext c (List.mem_append_left _ hc)
      have hk : ∀ c ∈ k.text, c ≠ backspace ∧ c ≠ 0 := fun c hc =>
        htext c (List.mem_append_right _ (by simpa using hc))
      have hflat : [k].flatMap Call.text = k.text := by simp
      rw [hflat]
      cases k with
      | putChar c => exact hbefore.putChar (hk c (by simp [Call.text])).1
      | print str => exact hbefore.print hk
      | setColor fg bg =>
          obtain ⟨before, last, hlast, hrows, hshows⟩ := hbefore
          refine ⟨before, last, hlast, ?_, hshows.setColor fg bg⟩
          rw [Call.text, List.append_nil]
          exact hrows

end Terminal

/-- After a clear, whatever is printed without backspaces and zeroes: the
screen shows the last 25 rows of its layout in 80 columns, and the cursor is
behind the last of them. -/
theorem screen_shows_layout (t : Terminal) (calls : List Call)
    (htext : ∀ c ∈ calls.flatMap Call.text, c ≠ backspace ∧ c ≠ 0) :
    (∀ i j, i < 25 → j < 80 →
      (calls.foldl Terminal.call t.clear).glyph (i * 80 + j) =
        window 25 blank (layout 80 newline (calls.flatMap Call.text)) i j) ∧
    (calls.foldl Terminal.call t.clear).x =
      ((layout 80 newline (calls.flatMap Call.text)).getLastD []).length ∧
    (calls.foldl Terminal.call t.clear).y =
      min ((layout 80 newline (calls.flatMap Call.text)).length - 1) 24 := by
  obtain ⟨before, last, -, hrows, hshows⟩ := Terminal.showsText_calls t calls htext
  rw [hrows]
  refine ⟨hshows.cells, ?_, ?_⟩
  · rw [hshows.x, List.getLastD_concat]
  · rw [hshows.y, List.length_append, List.length_singleton, Nat.add_sub_cancel]

/-- An `a`, a newline in red and a `b`, on whatever screen there was. -/
theorem screen_shows_layout_colored :
    let calls : List Call :=
      [.print [0x61], .setColor red black, .putChar newline, .print [0x62]]
    let t : Terminal := calls.foldl Terminal.call (Terminal.clear
      ⟨fun _ => 0, 7, 3, 0x0F, 0⟩)
    t.glyph 80 = 0x62 ∧ t.x = 1 ∧ t.y = 1 := by
  have htext : ([0x61, newline, 0x62] : List UInt8).all
      (fun c => decide (c ≠ backspace ∧ c ≠ 0)) = true := by decide
  simp only [List.all_eq_true, decide_eq_true_eq] at htext
  obtain ⟨hcells, hx, hy⟩ := screen_shows_layout ⟨fun _ => 0, 7, 3, 0x0F, 0⟩
    [.print [0x61], .setColor red black, .putChar newline, .print [0x62]] htext
  exact ⟨hcells 1 0 (by decide) (by decide), hx, hy⟩

end TermOS.Console
