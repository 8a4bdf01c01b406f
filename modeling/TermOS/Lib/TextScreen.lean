import TermOS.Lib.TextGrid

/-!
# A screen that is written from a cursor

`w` columns and `h` rows of cells, and a cursor that writes them in order: an
item fills the cell under the cursor, a new line blanks that cell and goes to
the start of the next row, and where there is none left the rows move up. The
item that fills a row is followed by a new line at once. `mark` draws under the
cursor without moving it, and whatever comes next draws over it, unless the
cursor is taken back to the start of its row first.

Without that, the screen is a window on the layout of what was written, and the
mark can be seen nowhere but under the cursor.
-/

namespace TermOS.Lib

structure TextScreen (α : Type*) where
  cell : Nat → Nat → α
  row : Nat
  col : Nat

namespace TextScreen

variable {α : Type*} {w h : Nat} {blank a : α} {s : TextScreen α}

def empty (blank : α) : TextScreen α := ⟨fun _ _ => blank, 0, 0⟩

/-- Draw under the cursor. -/
def mark (s : TextScreen α) (a : α) : TextScreen α :=
  { s with cell := fun i j =>
      if i = s.row ∧ j = s.col then a else s.cell i j }

def carriageReturn (s : TextScreen α) : TextScreen α := { s with col := 0 }

/-- The rows move up. -/
def scroll (h : Nat) (blank : α) (s : TextScreen α) : TextScreen α :=
  { s with cell := fun i j =>
      if i + 1 < h then s.cell (i + 1) j else blank }

def newLine (h : Nat) (blank : α) (s : TextScreen α) : TextScreen α :=
  if s.row + 1 < h then
    { s.mark blank with row := s.row + 1, col := 0 }
  else { (s.mark blank).scroll h blank with col := 0 }

/-- Draw under the cursor and move it on. -/
def put (s : TextScreen α) (a : α) : TextScreen α :=
  { s.mark a with col := s.col + 1 }

def write (w h : Nat) (blank : α) (s : TextScreen α) (a : α) : TextScreen α :=
  if s.col + 1 < w then s.put a else (s.put a).newLine h blank

/-! ## The cursor stays on the screen -/

/-- Where the next item has a cell. -/
structure OnScreen (w h : Nat) (s : TextScreen α) : Prop where
  row : s.row < h
  col : s.col < w

theorem onScreen_empty (hw : 0 < w) (hh : 0 < h) :
    (empty blank).OnScreen w h := ⟨hh, hw⟩

theorem OnScreen.mark (hon : s.OnScreen w h) (a : α) :
    (s.mark a).OnScreen w h := ⟨hon.row, hon.col⟩

theorem OnScreen.carriageReturn (hon : s.OnScreen w h) :
    s.carriageReturn.OnScreen w h := ⟨hon.row, Nat.zero_lt_of_lt hon.col⟩

theorem onScreen_newLine (hw : 0 < w) (hrow : s.row < h) :
    (s.newLine h blank).OnScreen w h := by
  rw [newLine]
  split
  · next hroom => exact ⟨hroom, hw⟩
  · exact ⟨hrow, hw⟩

theorem OnScreen.write (hon : s.OnScreen w h) (a : α) :
    (s.write w h blank a).OnScreen w h := by
  rw [TextScreen.write]
  split
  · next hroom => exact ⟨hon.row, hroom⟩
  · exact onScreen_newLine (Nat.zero_lt_of_lt hon.col) hon.row

/-! ## What is seen of a text -/

/-- The last of these rows, the cursor behind the last item, and `m` under the
cursor. -/
structure Shows (w h : Nat) (blank m : α) (s : TextScreen α)
    (before : List (List α)) (last : List α) : Prop where
  cell : ∀ i j, i < h → j < w → s.cell i j =
    if i = s.row ∧ j = s.col then m
    else window h blank (before ++ [last]) i j
  col : s.col = last.length
  row : s.row = min before.length (h - 1)

variable {m : α} {before : List (List α)} {last : List α}

theorem shows_empty (w h : Nat) (blank : α) :
    (empty blank).Shows w h blank blank [] [] := by
  refine ⟨fun i j hi hj => ?_, rfl, (Nat.zero_min _).symm⟩
  have hwindow : window h blank ([] ++ [[]]) i j = blank := by
    have hrow : ∀ k, ([[]] : List (List α)).getD k [] = [] := fun k => by
      rcases k with _ | k <;> rfl
    rw [window, List.nil_append, hrow, List.getD_nil]
  rw [hwindow, ite_self]
  rfl

/-- Behind the last item there is nothing. -/
theorem window_cursor (h : Nat) (blank : α) (before : List (List α))
    (last : List α) (k : Nat) :
    window h blank (before ++ [last]) (min before.length (h - 1))
      (last.length + k) = blank := by
  rw [window, List.length_append, List.length_singleton]
  rcases Nat.eq_zero_or_pos h with rfl | hh
  · rw [List.getD_eq_default (before ++ [last]) [] (by
      rw [List.length_append, List.length_singleton]
      omega)]
    rfl
  · rw [show before.length + 1 - h + min before.length (h - 1) =
        before.length by omega,
      List.getD_append_right _ _ _ _ (Nat.le_refl _), Nat.sub_self,
      List.getD_cons_zero, List.getD_eq_default _ _ (by omega)]

theorem Shows.mark (hs : s.Shows w h blank m before last) (a : α) :
    (s.mark a).Shows w h blank a before last := by
  refine ⟨fun i j hi hj => ?_, hs.col, hs.row⟩
  show (if i = s.row ∧ j = s.col then a else s.cell i j) = _
  by_cases hcursor : i = s.row ∧ j = s.col
  · rw [if_pos hcursor]
    exact (if_pos hcursor).symm
  · rw [if_neg hcursor, hs.cell i j hi hj, if_neg hcursor]
    exact (if_neg hcursor).symm

/-- Without a mark the whole screen is the window. -/
theorem Shows.cell_eq (hs : s.Shows w h blank blank before last) {i j : Nat}
    (hi : i < h) (hj : j < w) :
    s.cell i j = window h blank (before ++ [last]) i j := by
  rw [hs.cell i j hi hj]
  split
  · next hcursor =>
      rw [hcursor.1, hcursor.2, hs.row, hs.col]
      exact (window_cursor h blank before last 0).symm
  · rfl

theorem Shows.newLine (hs : s.Shows w h blank m before last) :
    (s.newLine h blank).Shows w h blank blank (before ++ [last]) [] := by
  have hrow := hs.row
  have hblank : (s.mark blank).Shows w h blank blank before last :=
    hs.mark blank
  have hcell : ∀ i j, i < h → j < w →
      (s.newLine h blank).cell i j =
        window h blank (before ++ [last] ++ [[]]) i j := by
    intro i j hi hj
    rw [window_newRow hi, TextScreen.newLine]
    by_cases hroom : before.length + 1 < h
    · rw [if_pos (by omega), if_pos hroom]
      exact hblank.cell_eq hi hj
    · rw [if_neg (by omega), if_neg hroom]
      show (if i + 1 < h then (s.mark blank).cell (i + 1) j else blank) = _
      by_cases hlow : i + 1 < h
      · rw [if_pos hlow, if_pos hlow]
        exact hblank.cell_eq hlow hj
      · rw [if_neg hlow, if_neg hlow]
  have hrow' : (s.newLine h blank).row =
      min (before ++ [last]).length (h - 1) := by
    rw [TextScreen.newLine, List.length_append, List.length_singleton]
    split
    · show s.row + 1 = _
      omega
    · show s.row = _
      omega
  have hcol : (s.newLine h blank).col = 0 := by
    rw [TextScreen.newLine]
    split <;> rfl
  refine ⟨fun i j hi hj => ?_, hcol, hrow'⟩
  rw [hcell i j hi hj]
  split
  · next hcursor =>
      rw [hcursor.1, hcursor.2, hrow', hcol]
      exact window_cursor h blank (before ++ [last]) [] 0
  · rfl

/-- One item more, before the row is looked at. -/
theorem Shows.put (hs : s.Shows w h blank m before last) (a : α) :
    (s.put a).Shows w h blank blank before (last ++ [a]) := by
  have hrow := hs.row
  have hcol := hs.col
  refine ⟨fun i j hi hj => ?_, ?_, hrow⟩
  · show (if i = s.row ∧ j = s.col then a else s.cell i j) =
      if i = s.row ∧ j = s.col + 1 then blank
      else window h blank (before ++ [last ++ [a]]) i j
    rw [window_write hi]
    by_cases hcursor : i = s.row ∧ j = s.col
    · rw [if_pos hcursor, if_neg (by omega), if_pos (by omega)]
    · rw [if_neg hcursor, hs.cell i j hi hj, if_neg hcursor]
      by_cases hnext : i = s.row ∧ j = s.col + 1
      · rw [if_pos hnext, hnext.1, hnext.2, hrow, hcol]
        exact window_cursor h blank before last 1
      · rw [if_neg hnext, if_neg (by omega)]
  · show s.col + 1 = _
    rw [List.length_append, List.length_singleton, hcol]

/-- The screen shows the layout of a text, and `m` under the cursor. -/
def ShowsText [DecidableEq α] (w h : Nat) (blank newline m : α)
    (s : TextScreen α) (text : List α) : Prop :=
  ∃ before last, last.length < w ∧
    layout w newline text = before ++ [last] ∧
    s.Shows w h blank m before last

section Text

variable [DecidableEq α] {newline : α} {text : List α}

theorem showsText_empty (hw : 0 < w) :
    (empty blank).ShowsText w h blank newline blank [] :=
  ⟨[], [], hw, rfl, shows_empty w h blank⟩

theorem ShowsText.mark (hs : s.ShowsText w h blank newline m text) (a : α) :
    (s.mark a).ShowsText w h blank newline a text := by
  obtain ⟨before, last, hlast, hrows, hshows⟩ := hs
  exact ⟨before, last, hlast, hrows, hshows.mark a⟩

theorem ShowsText.newLine (hs : s.ShowsText w h blank newline m text) :
    (s.newLine h blank).ShowsText w h blank newline blank
      (text ++ [newline]) := by
  obtain ⟨before, last, hlast, hrows, hshows⟩ := hs
  have hw := Nat.zero_lt_of_lt hlast
  refine ⟨before ++ [last], [], hw, ?_, hshows.newLine⟩
  rw [layout_append hw hrows, layoutFrom, if_pos rfl, layoutFrom,
    List.append_assoc]
  rfl

theorem ShowsText.write (hs : s.ShowsText w h blank newline m text)
    (ha : a ≠ newline) :
    (s.write w h blank a).ShowsText w h blank newline blank
      (text ++ [a]) := by
  obtain ⟨before, last, hlast, hrows, hshows⟩ := hs
  have hw := Nat.zero_lt_of_lt hlast
  have hcol := hshows.col
  have hput := hshows.put a
  rw [TextScreen.write, ShowsText, layout_append hw hrows, layoutFrom,
    if_neg ha]
  by_cases hroom : s.col + 1 < w
  · rw [if_pos hroom, if_neg (by omega)]
    refine ⟨before, last ++ [a], ?_, rfl, hput⟩
    rw [List.length_append, List.length_singleton]
    omega
  · rw [if_neg hroom, if_pos (by omega)]
    refine ⟨before ++ [last ++ [a]], [], hw, ?_, hput.newLine⟩
    rw [layoutFrom, List.append_assoc]
    rfl

theorem ShowsText.onScreen (hs : s.ShowsText w h blank newline m text)
    (hh : 0 < h) : s.OnScreen w h := by
  obtain ⟨before, last, hlast, -, hshows⟩ := hs
  have hrow := hshows.row
  exact ⟨by omega, hshows.col ▸ hlast⟩

/-- Every cell, by the layout. -/
theorem ShowsText.cell (hs : s.ShowsText w h blank newline m text)
    {i j : Nat} (hi : i < h) (hj : j < w) : s.cell i j =
      if i = s.row ∧ j = s.col then m
      else window h blank (layout w newline text) i j := by
  obtain ⟨before, last, -, hrows, hshows⟩ := hs
  rw [hrows]
  exact hshows.cell i j hi hj

/-- Where the cursor is, by the layout. -/
theorem ShowsText.cursor (hs : s.ShowsText w h blank newline m text) :
    s.col = ((layout w newline text).getLastD []).length ∧
      s.row = min ((layout w newline text).length - 1) (h - 1) := by
  obtain ⟨before, last, -, hrows, hshows⟩ := hs
  rw [hrows, List.getLastD_concat, List.length_append, List.length_singleton,
    Nat.add_sub_cancel]
  exact ⟨hshows.col, hshows.row⟩

end Text

end TextScreen

end TermOS.Lib
