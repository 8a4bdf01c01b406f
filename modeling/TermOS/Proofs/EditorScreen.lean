import TermOS.Proofs.EditorBounds
import TermOS.Proofs.LineEditing
import TermOS.Proofs.Scrollback

/-!
# The editor's screen and its text

From the row on where the editor begins, the screen shows the layout of a text
that fits. A character that is typed goes where the layout has it. A backspace
takes back one cell, in front of the cursor, and that is the last character of
the text with one exception: behind a newline it is the last cell of the row
above. That cell is blank, so what is on the screen is right, but the cursor is
in column 79 and the text of that row ends where it ends.
-/

namespace TermOS.Console

open TermOS.Lib
open TermOS.Storage (lit)

namespace Terminal

variable {t : Terminal} {c : UInt8} {first : Nat}

theorem OnScreen.putChar (h : t.OnScreen) (c : UInt8) :
    (t.putChar c).OnScreen := putChar_bounds h.1 h.2 c

theorem OnScreen.print (h : t.OnScreen) (str : List UInt8) :
    (t.print str).OnScreen := by
  rw [Terminal.print]
  generalize str.takeWhile (· ≠ 0) = str
  induction str generalizing t with
  | nil => exact h
  | cons c str ih => exact ih (h.putChar c)

theorem print_concat {str : List UInt8} (hstr : ∀ c ∈ str, c ≠ 0)
    (hc : c ≠ 0) : t.print (str ++ [c]) = (t.print str).putChar c := by
  have hlast : [c].takeWhile (· ≠ 0) = [c] :=
    takeWhile_ne_zero (List.forall_mem_singleton.2 hc)
  rw [print_append t hstr, Terminal.print, hlast]
  rfl

/-! ## Blank from the cursor on -/

def BlankFrom (t : Terminal) : Prop :=
  ∀ k, t.pos ≤ k → k < 2000 → t.glyph k = blank

theorem onScreen_clear (t : Terminal) : t.clear.OnScreen := by
  refine ⟨?_, ?_⟩
  · show 0 < 80
    decide
  · show 0 < 25
    decide

theorem blankFrom_clear (t : Terminal) : t.clear.BlankFrom :=
  fun _ _ hk => glyph_clear hk

theorem BlankFrom.newRow (h : t.BlankFrom) (hx : t.x ≤ 80) :
    t.newRow.BlankFrom := by
  intro k hpos hk
  have hcell : t.pos = t.y * 80 + t.x := rfl
  rw [Terminal.newRow] at hpos ⊢
  simp only at hpos ⊢
  by_cases hroom : t.y + 1 ≥ 25
  · rw [if_pos hroom] at hpos ⊢
    have hlast : 24 * 80 + 0 ≤ k := hpos
    rw [glyph_scrollUp hk, if_neg (by omega)]
  · rw [if_neg hroom] at hpos ⊢
    have hnext : (t.y + 1) * 80 + 0 ≤ k := hpos
    exact h k (by omega) hk

theorem BlankFrom.putChar (h : t.BlankFrom) (hon : t.OnScreen) (c : UInt8) :
    (t.putChar c).BlankFrom := by
  by_cases hback : c = backspace
  · subst hback
    by_cases hpos : 0 < t.pos
    · obtain ⟨-, hprev, hglyph⟩ := putChar_backspace_line hon hpos
      intro k hle hk
      rw [hglyph]
      split
      · rfl
      · exact h k (by omega) hk
    · have hcell : t.pos = t.y * 80 + t.x := rfl
      rw [Terminal.putChar, if_pos rfl, if_neg (by omega), if_neg (by omega)]
      exact h
  · have hstore : BlankFrom { t.store c with x := t.x + 1 } := by
      intro k hle hk
      have hnext : t.y * 80 + (t.x + 1) ≤ k := hle
      show (t.store c).glyph k = blank
      rw [glyph_store, if_neg (by omega)]
      exact h k (by show t.y * 80 + t.x ≤ k; omega) hk
    have hx := hon.1
    rw [putChar_eq hx hon.2 hback]
    split
    · exact h.newRow (Nat.le_of_lt hx)
    · split
      · exact hstore.newRow hx
      · exact hstore

theorem BlankFrom.print (h : t.BlankFrom) (hon : t.OnScreen)
    (str : List UInt8) : (t.print str).BlankFrom := by
  rw [Terminal.print]
  generalize str.takeWhile (· ≠ 0) = str
  induction str generalizing t with
  | nil => exact h
  | cons c str ih => exact ih (h.putChar hon c) (hon.putChar c)

theorem OnScreen.setColor (h : t.OnScreen) (fg bg : UInt8) :
    (t.setColor fg bg).OnScreen := h

theorem BlankFrom.setColor (h : t.BlankFrom) (fg bg : UInt8) :
    (t.setColor fg bg).BlankFrom := fun k hle hk => h k hle hk

/-- After a clear, everything from the cursor on stays blank. -/
theorem blankFrom_calls (t : Terminal) (calls : List Call) :
    (calls.foldl call t.clear).OnScreen ∧
      (calls.foldl call t.clear).BlankFrom := by
  induction calls using List.reverseRecOn with
  | nil =>
      rw [List.foldl_nil]
      exact ⟨onScreen_clear t, blankFrom_clear t⟩
  | append_singleton calls k ih =>
      obtain ⟨hon, hblank⟩ := ih
      rw [List.foldl_append]
      cases k with
      | putChar c => exact ⟨hon.putChar c, hblank.putChar hon c⟩
      | print str => exact ⟨hon.print str, hblank.print hon str⟩
      | setColor fg bg => exact ⟨hon.setColor fg bg, hblank.setColor fg bg⟩

/-! ## A layout that fits -/

/-- From a row on, the screen shows these rows and blanks behind them, and the
cursor is at their end. -/
structure ShowsBelow (t : Terminal) (first : Nat) (rows : List (List UInt8)) :
    Prop where
  cells : ∀ i j, first + i < 25 → j < 80 →
    t.glyph ((first + i) * 80 + j) = (rows.getD i []).getD j blank
  x : t.x = (rows.getLastD []).length
  y : t.y + 1 = first + rows.length

variable {before : List (List UInt8)} {last text : List UInt8}

theorem showsBelow_concat_iff : t.ShowsBelow first (before ++ [last]) ↔
    (∀ i j, first + i < 25 → j < 80 → t.glyph ((first + i) * 80 + j) =
      ((before ++ [last]).getD i []).getD j blank) ∧
    t.x = last.length ∧ t.y = first + before.length := by
  refine ⟨?_, ?_⟩
  · rintro ⟨hcells, hx, hy⟩
    rw [List.getLastD_concat] at hx
    rw [List.length_append, List.length_singleton] at hy
    exact ⟨hcells, hx, by omega⟩
  · rintro ⟨hcells, hx, hy⟩
    refine ⟨hcells, ?_, ?_⟩
    · rw [List.getLastD_concat, hx]
    · rw [List.length_append, List.length_singleton, hy]
      omega

theorem ShowsBelow.updateCursor {rows : List (List UInt8)}
    (h : t.ShowsBelow first rows) : t.updateCursor.ShowsBelow first rows :=
  ⟨h.cells, h.x, h.y⟩

theorem ShowsBelow.store (h : t.ShowsBelow first (before ++ [last]))
    (hlast : last.length < 80) (c : UInt8) :
    ShowsBelow { t.store c with x := t.x + 1 } first
      (before ++ [last ++ [c]]) := by
  obtain ⟨hcells, hx, hy⟩ := showsBelow_concat_iff.1 h
  refine showsBelow_concat_iff.2 ⟨fun i j hi hj => ?_, ?_, hy⟩
  · show (t.store c).glyph ((first + i) * 80 + j) = _
    rw [glyph_store, hcells i j hi hj, getD_write]
    refine if_congr ?_ rfl rfl
    omega
  · rw [List.length_append, List.length_singleton, hx]

theorem ShowsBelow.newRow (h : t.ShowsBelow first (before ++ [last]))
    (hroom : first + (before ++ [last] ++ [[]]).length ≤ 25) :
    t.newRow.ShowsBelow first (before ++ [last] ++ [[]]) := by
  obtain ⟨hcells, hx, hy⟩ := showsBelow_concat_iff.1 h
  simp only [List.length_append, List.length_singleton] at hroom
  rw [Terminal.newRow]
  simp only
  rw [if_neg (by omega)]
  refine showsBelow_concat_iff.2 ⟨fun i j hi hj => ?_, rfl, ?_⟩
  · rw [getD_newRow]
    exact hcells i j hi hj
  · simp only [List.length_append, List.length_singleton]
    omega

/-- A character goes where the layout has it. -/
theorem ShowsBelow.putChar (h : t.ShowsBelow first (layout 80 newline text))
    (hc : c ≠ backspace)
    (hfits : first + (layout 80 newline (text ++ [c])).length ≤ 25) :
    (t.putChar c).ShowsBelow first (layout 80 newline (text ++ [c])) := by
  obtain ⟨before, last, hlast, hrows, hlayout⟩ :=
    @exists_layout _ _ 80 newline (by decide) text
  rw [hrows] at h
  rw [hlayout, layoutFrom] at hfits ⊢
  obtain ⟨-, hx, hy⟩ := showsBelow_concat_iff.1 h
  have hx' : t.x < 80 := hx ▸ hlast
  by_cases hnew : c = newline
  · rw [if_pos hnew, layoutFrom] at hfits ⊢
    rw [List.append_cons] at hfits ⊢
    have hy' : t.y < 25 := by
      simp only [List.length_append, List.length_singleton] at hfits
      omega
    rw [putChar_eq hx' hy' hc, if_pos hnew]
    exact (h.newRow hfits).updateCursor
  · rw [if_neg hnew] at hfits ⊢
    have hstore := h.store hlast c
    by_cases hfull : last.length + 1 = 80
    · rw [if_pos hfull, layoutFrom] at hfits ⊢
      rw [List.append_cons] at hfits ⊢
      have hy' : t.y < 25 := by
        simp only [List.length_append, List.length_singleton] at hfits
        omega
      rw [putChar_eq hx' hy' hc, if_neg hnew, if_pos (hx ▸ hfull)]
      exact (hstore.newRow hfits).updateCursor
    · rw [if_neg hfull, layoutFrom] at hfits ⊢
      have hy' : t.y < 25 := by
        simp only [List.length_append, List.length_singleton] at hfits
        omega
      rw [putChar_eq hx' hy' hc, if_neg hnew, if_neg (hx ▸ hfull)]
      exact hstore.updateCursor

/-- `"\b \b"`: the cursor goes back by a cell, and that cell is blank. -/
theorem print_erase (hon : t.OnScreen) (hpos : 0 < t.pos) :
    (t.print (lit "\x08 \x08")).OnScreen ∧
      (t.print (lit "\x08 \x08")).pos = t.pos - 1 ∧ ∀ k,
        (t.print (lit "\x08 \x08")).glyph k =
          if k + 1 = t.pos then blank else t.glyph k := by
  have hprint : t.print (lit "\x08 \x08") =
      ((t.putChar backspace).putChar blank).putChar backspace := rfl
  have hcell : t.pos = t.y * 80 + t.x := rfl
  obtain ⟨hx, hy⟩ := hon
  obtain ⟨hon₁, hpos₁, hglyph₁⟩ := putChar_backspace_line ⟨hx, hy⟩ hpos
  obtain ⟨hon₂, hmove⟩ :=
    @putChar_line _ blank hon₁ (by decide) (by decide)
  -- The blank is in front of where the cursor was, so it ends no screen.
  obtain ⟨-, hpos₂, hglyph₂⟩ := hmove.resolve_right fun hend => by omega
  obtain ⟨hon₃, hpos₃, hglyph₃⟩ := putChar_backspace_line hon₂ (by omega)
  rw [hprint]
  refine ⟨hon₃, by omega, fun k => ?_⟩
  have hstored : ((t.putChar backspace).store blank).glyph k =
      if k = (t.putChar backspace).pos then blank
      else (t.putChar backspace).glyph k := glyph_store
  rw [hglyph₃, hglyph₂, hstored, hglyph₁]
  by_cases hk : k + 1 = t.pos
  · rw [if_pos (by omega), if_pos hk]
  · rw [if_neg (by omega), if_neg (by omega), if_neg hk]

/-- Only the cell in front of the cursor was not yet that of these rows. -/
theorem showsBelow_erased_iff {col : Nat} (hon : t.OnScreen)
    (hpos : t.pos = (first + before.length) * 80 + col + 1) (hcol : col < 80)
    (hle : last.length ≤ col)
    (hcells : ∀ i j, first + i < 25 → j < 80 →
      ¬ (i = before.length ∧ j = col) → t.glyph ((first + i) * 80 + j) =
        ((before ++ [last]).getD i []).getD j blank) :
    (t.print (lit "\x08 \x08")).ShowsBelow first (before ++ [last]) ↔
      last.length = col := by
  obtain ⟨⟨hx, -⟩, hprev, hglyph⟩ := print_erase hon (by omega)
  have hcell : (t.print (lit "\x08 \x08")).pos =
    (t.print (lit "\x08 \x08")).y * 80 + (t.print (lit "\x08 \x08")).x := rfl
  rw [showsBelow_concat_iff]
  refine ⟨?_, ?_⟩
  · rintro ⟨-, hend, hy⟩
    omega
  · intro hend
    refine ⟨fun i j hi hj => ?_, by omega, by omega⟩
    rw [hglyph]
    by_cases herased : i = before.length ∧ j = col
    · obtain ⟨rfl, rfl⟩ := herased
      rw [if_pos (by omega), List.getD_append_right _ _ _ _ (Nat.le_refl _),
        Nat.sub_self, List.getD_cons_zero, List.getD_eq_default _ _ hle]
    · rw [if_neg (by omega), hcells i j hi hj herased]

/-- The last character of a text is in front of the cursor, but a newline is
not on the screen. -/
theorem showsBelow_erase_iff {u : List UInt8}
    (h : t.ShowsBelow first (layout 80 newline (u ++ [c])))
    (hfits : first + (layout 80 newline (u ++ [c])).length ≤ 25) :
    (t.print (lit "\x08 \x08")).ShowsBelow first (layout 80 newline u) ↔
      (c = newline → ((layout 80 newline u).getLastD []).length = 79) := by
  obtain ⟨before, last, hlast, hrows, hlayout⟩ :=
    @exists_layout _ _ 80 newline (by decide) u
  rw [hrows, List.getLastD_concat]
  rw [hlayout, layoutFrom] at h hfits
  by_cases hnew : c = newline
  · rw [if_pos hnew, layoutFrom, List.append_cons] at h hfits
    obtain ⟨hcells, hx, hy⟩ := showsBelow_concat_iff.1 h
    simp only [List.length_append, List.length_singleton] at hfits hy
    have hx' : t.x = 0 := hx
    have hpos : t.pos = (first + before.length) * 80 + 79 + 1 := by
      rw [pos]
      omega
    rw [showsBelow_erased_iff ⟨by omega, by omega⟩ hpos (by decide)
      (by omega) fun i j hi hj _ => (hcells i j hi hj).trans (getD_newRow i)]
    exact ⟨fun h _ => h, fun h => h hnew⟩
  · have hwritten : t.OnScreen ∧
        t.pos = (first + before.length) * 80 + last.length + 1 ∧
        ∀ i j, first + i < 25 → j < 80 → t.glyph ((first + i) * 80 + j) =
          ((before ++ [last ++ [c]]).getD i []).getD j blank := by
      rw [if_neg hnew] at h hfits
      by_cases hfull : last.length + 1 = 80
      · rw [if_pos hfull, layoutFrom, List.append_cons] at h hfits
        obtain ⟨hcells, hx, hy⟩ := showsBelow_concat_iff.1 h
        simp only [List.length_append, List.length_singleton] at hfits hy
        have hx' : t.x = 0 := hx
        refine ⟨⟨by omega, by omega⟩, ?_, fun i j hi hj => ?_⟩
        · rw [pos]
          omega
        · exact (hcells i j hi hj).trans (getD_newRow i)
      · rw [if_neg hfull, layoutFrom] at h hfits
        obtain ⟨hcells, hx, hy⟩ := showsBelow_concat_iff.1 h
        simp only [List.length_append, List.length_singleton] at hfits hx
        refine ⟨⟨by omega, by omega⟩, ?_, hcells⟩
        rw [pos]
        omega
    obtain ⟨hon, hpos, hcells⟩ := hwritten
    rw [showsBelow_erased_iff hon hpos hlast (Nat.le_refl _)
      fun i j hi hj hne => by
        rw [hcells i j hi hj, getD_write, if_neg hne]]
    exact iff_of_true rfl fun h => absurd h hnew

end Terminal

open Terminal

theorem IsPrintable.ne_zero {c : UInt8} (h : IsPrintable c) : c ≠ 0 := by
  rintro rfl
  exact absurd h (by decide)

namespace Editor

variable {s : Editor} {text : List UInt8} {c : UInt8} {first : Nat}

/-- From a row on, the screen shows the layout of what is in the buffer, and the
cursor is at its end. -/
def Agrees (s : Editor) (first : Nat) : Prop :=
  s.term.ShowsBelow first (layout 80 newline s.bytes)

theorem print_singleton (t : Terminal) (hc : c ≠ 0) :
    t.print [c] = t.putChar c := echo_eq hc

theorem term_key (hback : c ≠ backspace) (hkey : c = newline ∨ IsPrintable c) :
    (s.key c).term = s.term.putChar c := by
  rw [key, if_neg hback]
  by_cases hnew : c = newline
  · rw [if_pos hnew, hnew]
    exact print_singleton s.term (by decide)
  · have hprint := hkey.resolve_left hnew
    rw [if_neg hnew, if_pos hprint]
    exact print_singleton s.term (IsPrintable.ne_zero hprint)

/-- One keystroke, on a screen that agrees with the buffer. -/
theorem agrees_key_iff (hkeeps : s.Keeps text) (h : s.Agrees first)
    (hold : first + (layout 80 newline text).length ≤ 25)
    (hfits : first + (layout 80 newline (edit text c)).length ≤ 25) :
    (s.key c).Agrees first ↔ (c = backspace → ∀ u, text = u ++ [newline] →
      ((layout 80 newline u).getLastD []).length = 79) := by
  have hpos := hkeeps.pos
  rw [Agrees, hkeeps.bytes] at h
  rw [Agrees, (hkeeps.key c).bytes]
  rw [edit] at hfits ⊢
  by_cases hback : c = backspace
  · rw [key, if_pos hback, if_pos hback]
    rcases List.eq_nil_or_concat' text with rfl | ⟨u, d, rfl⟩
    · rw [List.length_nil] at hpos
      rw [if_neg (by omega)]
      refine iff_of_true h fun _ u hu => ?_
      exact absurd hu.symm
        (List.append_ne_nil_of_right_ne_nil u (List.cons_ne_nil _ _))
    · rw [List.length_append, List.length_singleton] at hpos
      rw [if_pos (by omega), List.dropLast_concat,
        showsBelow_erase_iff h hold]
      refine ⟨?_, ?_⟩
      · intro hrow _ u' hu
        obtain ⟨rfl, hd⟩ := List.append_inj' hu rfl
        exact hrow (List.singleton_inj.1 hd)
      · intro hrow hd
        exact hrow hback u (by rw [hd])
  · refine iff_of_true ?_ fun h => absurd h hback
    rw [if_neg hback] at hfits ⊢
    by_cases hkey : c = newline ∨ IsPrintable c
    · rw [if_pos hkey] at hfits ⊢
      rw [term_key hback hkey]
      exact h.putChar hback hfits
    · obtain ⟨hnew, hprint⟩ := not_or.1 hkey
      rw [key, if_neg hback, if_neg hkey, if_neg hnew, if_neg hprint]
      exact h

/-- The greeting ends with a newline. -/
theorem start_spec (buffer : Int → UInt8) (t : Terminal) (hon : t.OnScreen) :
    (start buffer t).term.OnScreen ∧ (start buffer t).term.x = 0 := by
  have hlast : lit "Enter text (ESC to exit):\n" =
      lit "Enter text (ESC to exit):" ++ [newline] := by decide
  have hstr : (lit "Enter text (ESC to exit):").all
      (fun c => decide (c ≠ 0)) = true := by decide
  simp only [List.all_eq_true, decide_eq_true_eq] at hstr
  rw [start]
  simp only
  rw [hlast, print_concat hstr (by decide)]
  generalize hu : Terminal.print _ (lit "Enter text (ESC to exit):") = u
  have huon : u.OnScreen := hu ▸ (hon.print _).print _
  refine ⟨huon.putChar newline, ?_⟩
  rw [putChar_eq huon.1 huon.2 (by decide), if_pos rfl]
  show u.newRow.x = 0
  rw [Terminal.newRow]
  simp only
  split <;> rfl

/-- In front of the first key. -/
theorem agrees_start_iff (buffer : Int → UInt8) (t : Terminal)
    (hon : t.OnScreen) :
    (start buffer t).Agrees (start buffer t).term.y ↔
      (start buffer t).term.BlankFrom := by
  obtain ⟨⟨-, hy⟩, hx⟩ := start_spec buffer t hon
  have hpos : (start buffer t).term.pos = (start buffer t).term.y * 80 := by
    rw [Terminal.pos, hx, Nat.add_zero]
  have hrows : layout 80 newline (start buffer t).bytes = [] ++ [[]] := rfl
  have hnone : ∀ i j, (([] ++ [[]] : List (List UInt8)).getD i []).getD j
      blank = blank := fun i j => getD_newRow i
  rw [Agrees, hrows, showsBelow_concat_iff, BlankFrom, hpos]
  refine ⟨?_, ?_⟩
  · rintro ⟨hcells, -⟩ k hle hk
    have hcell := hcells (k / 80 - (start buffer t).term.y) (k % 80)
      (by omega) (by omega)
    rw [hnone, show ((start buffer t).term.y +
      (k / 80 - (start buffer t).term.y)) * 80 + k % 80 = k by omega] at hcell
    exact hcell
  · intro hblank
    refine ⟨fun i j hi hj => ?_, hx, (Nat.add_zero _).symm⟩
    rw [hnone]
    exact hblank _ (by omega) (by omega)

end Editor

open Editor

/-- For every screen with a cursor on it, and all keys whose text fits below
the greeting: the screen agrees with the buffer, from the beginning on and
after each key, if and only if it is blank there and a backspace never takes
back a newline, except one behind 79 characters in a row. -/
theorem editor_screen_iff (buffer : Int → UInt8) (t : Terminal)
    (keys : List UInt8) (hon : t.OnScreen) (hesc : escape ∉ keys)
    (hfits : ∀ pre, pre <+: keys → (start buffer t).term.y +
      (layout 80 newline (edited pre)).length ≤ 25) :
    (∀ pre, pre <+: keys →
      ((start buffer t).loop pre).1.Agrees (start buffer t).term.y) ↔
    (start buffer t).term.BlankFrom ∧
      AtEach (fun pre c => c = backspace → ∀ u, edited pre = u ++ [newline] →
        ((layout 80 newline u).getLastD []).length = 79) keys := by
  induction keys using List.reverseRecOn with
  | nil =>
      rw [and_iff_left .nil, ← agrees_start_iff buffer t hon]
      refine ⟨fun h => h [] (List.prefix_refl []), ?_⟩
      intro h pre hpre
      rw [List.prefix_nil.1 hpre]
      exact h
  | append_singleton keys c ih =>
      obtain ⟨hkeys, hc⟩ := not_or.1 (mt List.mem_append.2 hesc)
      have hne : c ≠ escape := fun heq => hc (heq ▸ List.mem_singleton_self c)
      obtain ⟨hfitted, hnext⟩ := forall_prefix_concat_iff.1 hfits
      have hbefore := ih hkeys hfitted
      have hold := hfitted keys (List.prefix_refl keys)
      rw [edited_concat] at hnext
      have hloop : ((start buffer t).loop (keys ++ [c])).1 =
          ((start buffer t).loop keys).1.key c := by
        rw [loop_append hkeys, loop, if_neg hne]
        rfl
      rw [forall_prefix_concat_iff, hloop, AtEach.concat_iff, ← and_assoc,
        ← hbefore]
      refine and_congr_right fun hall => ?_
      exact agrees_key_iff (keeps_loop buffer t hkeys)
        (hall keys (List.prefix_refl keys)) hold hnext

/-- `a`, a newline and a `b` that is taken back, on a cleared screen. -/
theorem editor_screen_iff_cleared :
    let t := Terminal.clear ⟨fun _ => 0, 7, 3, 0x0F, 0⟩
    let keys : List UInt8 := [0x61, newline, 0x62, backspace]
    ∀ pre, pre <+: keys → ((start (fun _ => 0) t).loop pre).1.Agrees
      (start (fun _ => 0) t).term.y := by
  intro t keys
  have hfirst : (start (fun _ => 0) t).term.y = 2 := by decide +kernel
  have hrows : ∀ pre ∈ keys.inits,
      2 + (layout 80 newline (edited pre)).length ≤ 25 := by decide
  refine (editor_screen_iff (fun _ => 0) t keys (onScreen_clear _) (by decide)
    fun pre hpre => hfirst ▸ hrows pre ((List.mem_inits _ _).2 hpre)).2 ⟨?_, ?_⟩
  · have hon := onScreen_clear ⟨fun _ => 0, 7, 3, 0x0F, 0⟩
    exact ((blankFrom_clear _).print hon _).print (hon.print _) _
  · show AtEach _ ([] ++ [0x61] ++ [newline] ++ [0x62] ++ [backspace])
    simp only [AtEach.concat_iff]
    refine ⟨⟨⟨⟨.nil, ?_⟩, ?_⟩, ?_⟩, ?_⟩
    · exact fun h => absurd h (by decide)
    · exact fun h => absurd h (by decide)
    · exact fun h => absurd h (by decide)
    · intro _ u hu
      have htext : edited ([] ++ [0x61] ++ [newline] ++ [0x62]) =
          [0x61, newline] ++ [0x62] := by decide
      rw [htext] at hu
      have hlast := List.singleton_inj.1 (List.append_inj' hu rfl).2
      exact absurd hlast (by decide)

/-- `a`, a newline and a backspace: the text is `a` again, and the cursor is at
the other end of its row. -/
theorem not_editor_screen :
    let t := Terminal.clear ⟨fun _ => 0, 7, 3, 0x0F, 0⟩
    let keys : List UInt8 := [0x61, newline, backspace]
    (∀ pre, pre <+: keys → (start (fun _ => 0) t).term.y +
      (layout 80 newline (edited pre)).length ≤ 25) ∧
    ¬ ((start (fun _ => 0) t).loop keys).1.Agrees
      (start (fun _ => 0) t).term.y := by
  intro t keys
  have hfirst : (start (fun _ => 0) t).term.y = 2 := by decide +kernel
  have hrows : ∀ pre ∈ keys.inits,
      2 + (layout 80 newline (edited pre)).length ≤ 25 := by decide
  refine ⟨fun pre hpre => hfirst ▸ hrows pre ((List.mem_inits _ _).2 hpre), ?_⟩
  intro h
  have hx := h.x
  have hesc : escape ∉ keys := by decide
  rw [(keeps_loop (fun _ => 0) t hesc).bytes] at hx
  have hend : ((layout 80 newline (edited keys)).getLastD []).length = 1 := by
    decide
  have hcursor : ((start (fun _ => 0) t).loop keys).1.term.x = 79 := by
    decide +kernel
  rw [hend, hcursor] at hx
  exact absurd hx (by decide)

end TermOS.Console
