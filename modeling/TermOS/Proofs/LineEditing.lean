import Mathlib.Data.List.Infix
import TermOS.Lib.CString
import TermOS.Proofs.Screen
import TermOS.Ref.LineInput

/-!
# The line on the screen is the line in the buffer

The 2000 cells as one line: a character goes to the cell of the cursor and the
cursor to the next, across the ends of rows, and a backspace undoes that. When
the cursor runs off the end, everything moves back by one row, and so does the
place where the line began. A line of at most 127 characters that reaches the
end began less than two rows above it, so its beginning never leaves the
screen.
-/

namespace TermOS.Console

open TermOS.Lib

namespace Terminal

variable {t : Terminal} {c : UInt8}

/-- The number of the cursor's cell. -/
def pos (t : Terminal) : Nat := t.y * 80 + t.x

/-- The cursor is on the screen. -/
def OnScreen (t : Terminal) : Prop := t.x < 80 ∧ t.y < 25

theorem pos_updateCursor : t.updateCursor.pos = t.pos := rfl

/-- A new row: the rest of the old one is skipped, and at the end of the screen
the cells move back by a row. -/
theorem newRow_line (hy : t.y < 25) :
    t.newRow.OnScreen ∧
      ((t.y < 24 ∧ t.newRow.pos = (t.y + 1) * 80 ∧ t.newRow.glyph = t.glyph) ∨
        (t.y = 24 ∧ t.newRow.pos = 1920 ∧ ∀ k < 1920,
          t.newRow.glyph k = t.glyph (k + 80))) := by
  rw [newRow]
  simp only
  by_cases hroom : t.y < 24
  · rw [if_neg (by omega)]
    refine ⟨⟨(by decide : 0 < 80), by simp only; omega⟩,
      .inl ⟨hroom, ?_, rfl⟩⟩
    simp only [pos]
    omega
  · rw [if_pos (by omega)]
    refine ⟨⟨(by decide : 0 < 80), (by decide : 24 < 25)⟩,
      .inr ⟨by omega, rfl, fun k hk => ?_⟩⟩
    rw [glyph_scrollUp (by omega), if_pos hk]
    rfl

/-- A character is stored at the cursor, and the cursor moves on by a cell, or
back by a row and on by a cell. -/
theorem putChar_line (h : t.OnScreen) (hback : c ≠ backspace)
    (hnew : c ≠ newline) : (t.putChar c).OnScreen ∧
      ((t.pos < 1999 ∧ (t.putChar c).pos = t.pos + 1 ∧
          (t.putChar c).glyph = (t.store c).glyph) ∨
        (t.pos = 1999 ∧ (t.putChar c).pos = 1920 ∧ ∀ k < 1920,
          (t.putChar c).glyph k = (t.store c).glyph (k + 80))) := by
  obtain ⟨hx, hy⟩ := h
  rw [putChar_eq hx hy hback, if_neg hnew]
  split
  · next hfull =>
      obtain ⟨hon, hrow⟩ := @newRow_line (t.store c) hy
      refine ⟨hon, ?_⟩
      have hpos : t.pos = t.y * 80 + t.x := rfl
      have hstore : (t.store c).y = t.y := rfl
      rcases hrow with ⟨hlt, hnext, hglyph⟩ | ⟨heq, hnext, hglyph⟩
      · refine .inl ⟨by omega, ?_, hglyph⟩
        rw [pos_updateCursor, hnext]
        omega
      · exact .inr ⟨by omega, hnext, hglyph⟩
  · next hroom =>
      have hpos : t.pos = t.y * 80 + t.x := rfl
      refine ⟨⟨?_, hy⟩, .inl ⟨by omega, rfl, rfl⟩⟩
      show t.x + 1 < 80
      omega

theorem putChar_backspace_line (h : t.OnScreen) (hpos : 0 < t.pos) :
    (t.putChar backspace).OnScreen ∧
      (t.putChar backspace).pos = t.pos - 1 ∧ ∀ k,
        (t.putChar backspace).glyph k =
          if k + 1 = t.pos then blank else t.glyph k := by
  obtain ⟨hx, hy⟩ := h
  have hcell : t.pos = t.y * 80 + t.x := rfl
  rw [putChar, if_pos rfl]
  by_cases hcol : t.x > 0
  · rw [if_pos hcol]
    refine ⟨⟨?_, hy⟩, ?_, fun k => ?_⟩
    · show t.x - 1 < 80
      omega
    · show t.y * 80 + (t.x - 1) = t.pos - 1
      omega
    · show (store { t with x := t.x - 1 } blank).glyph k = _
      rw [glyph_store]
      refine if_congr ?_ rfl rfl
      show k = t.y * 80 + (t.x - 1) ↔ k + 1 = t.pos
      omega
  · rw [if_neg hcol, if_pos (by omega)]
    refine ⟨⟨?_, ?_⟩, ?_, fun k => ?_⟩
    · show 79 < 80
      decide
    · show t.y - 1 < 25
      omega
    · show (t.y - 1) * 80 + 79 = t.pos - 1
      omega
    · show (store { t with y := t.y - 1, x := 79 } blank).glyph k = _
      rw [glyph_store]
      refine if_congr ?_ rfl rfl
      show k = (t.y - 1) * 80 + 79 ↔ k + 1 = t.pos
      omega

theorem echo_eq (hc : c ≠ 0) : t.echo c = t.putChar c := by
  rw [echo, vgaWrite, print,
    takeWhile_ne_zero (List.forall_mem_singleton.2 hc)]
  rfl

end Terminal

/-- The line after a keystroke: a character more, or one less. -/
def typedKey (line : List UInt8) (c : UInt8) : List UInt8 :=
  if c = backspace then line.dropLast else line ++ [c]

/-- What was typed between the empty reads. -/
def keystrokes (reads : List UInt8) : List UInt8 := reads.filter (· ≠ 0)

/-- The line that a sequence of keystrokes leaves. -/
def typed (ks : List UInt8) : List UInt8 := ks.foldl typedKey []

namespace LineInput

variable {s : LineInput} {line : List UInt8} {c : UInt8} {start : Nat}

/-- The buffer holds the line, and the line stands in front of the cursor, from
where it began at cell `start`, moved back with every scroll. -/
structure Edits (s : LineInput) (start : Nat) (line : List UInt8) : Prop where
  onScreen : s.term.OnScreen
  length : s.i = line.length
  buffer : ∀ k < s.i, s.buffer k = line.getD k 0
  shown : ∃ scrolls, 80 * scrolls ≤ start ∧
    s.term.pos + 80 * scrolls = start + s.i ∧
    ∀ k < s.i, s.term.glyph (start - 80 * scrolls + k) = line.getD k 0

theorem getD_concat (line : List UInt8) (c : UInt8) (k : Nat) :
    (line ++ [c]).getD k 0 = if k = line.length then c else line.getD k 0 := by
  split
  · next hk => rw [hk, List.getD_append_right _ _ _ _ (Nat.le_refl _)]; simp
  · next hk =>
      rcases Nat.lt_or_ge k line.length with hlt | hge
      · rw [List.getD_append _ _ _ _ hlt]
      · rw [List.getD_eq_default _ _ (by simp; omega),
          List.getD_eq_default _ _ hge]

theorem Edits.push (h : s.Edits start line) (hback : c ≠ backspace)
    (hnew : c ≠ newline) (hzero : c ≠ 0) (hroom : line.length < 127) :
    (s.key c).Edits start (line ++ [c]) := by
  obtain ⟨hon, hlen, hbuffer, scrolls, hle, hpos, hshown⟩ := h
  obtain ⟨hon', hmove⟩ := Terminal.putChar_line hon hback hnew
  rw [key, if_neg hback, Terminal.echo_eq hzero]
  refine ⟨hon', by simp [hlen], fun k hk => ?_, ?_⟩
  · rw [getD_concat, ← hlen]
    split
    · next hki =>
        subst hki
        exact Function.update_self _ _ _
    · next hki =>
        rw [← hbuffer k (by simp only at hk; omega)]
        exact Function.update_of_ne hki _ _
  · have hstore : ∀ k < s.i + 1,
        (s.term.store c).glyph (start - 80 * scrolls + k) =
          (line ++ [c]).getD k 0 := by
      intro k hk
      have hcell : s.term.y * 80 + s.term.x = s.term.pos := rfl
      rw [Terminal.glyph_store, getD_concat, ← hlen, hcell]
      by_cases hki : k = s.i
      · rw [if_pos (by omega), if_pos hki]
      · rw [if_neg (by omega), if_neg hki]
        exact hshown k (by omega)
    rcases hmove with ⟨-, hnext, hglyph⟩ | ⟨hend, hnext, hglyph⟩
    · refine ⟨scrolls, hle, ?_, fun k hk => ?_⟩
      · simp only
        omega
      · simp only [hglyph]
        exact hstore k hk
    · refine ⟨scrolls + 1, by omega, ?_, fun k hk => ?_⟩
      · simp only
        omega
      · simp only at hk ⊢
        rw [hglyph _ (by omega), show start - 80 * (scrolls + 1) + k + 80 =
          start - 80 * scrolls + k by omega]
        exact hstore k hk

theorem Edits.pop (h : s.Edits start line) :
    (s.key backspace).Edits start line.dropLast := by
  obtain ⟨hon, hlen, hbuffer, scrolls, hle, hpos, hshown⟩ := h
  rw [key, if_pos rfl]
  have hgetD : ∀ k < line.length - 1,
      line.dropLast.getD k 0 = line.getD k 0 := by
    intro k hk
    rw [List.getD_eq_getElem?_getD, List.getElem?_dropLast, if_pos hk,
      List.getD_eq_getElem?_getD]
  by_cases hi : s.i > 0
  · rw [if_pos hi, Terminal.echo_eq (by decide)]
    obtain ⟨hon', hpos', hglyph⟩ :=
      Terminal.putChar_backspace_line hon (by omega)
    refine ⟨hon', by simp [hlen], fun k hk => ?_, scrolls, hle, ?_,
      fun k hk => ?_⟩
    · simp only at hk ⊢
      rw [hgetD k (by omega)]
      exact hbuffer k (by omega)
    · simp only
      omega
    · simp only at hk ⊢
      rw [hglyph, if_neg (by omega), hgetD k (by omega)]
      exact hshown k (by omega)
  · have hnil : line = [] := List.eq_nil_of_length_eq_zero (by omega)
    subst hnil
    rw [if_neg hi]
    exact ⟨hon, hlen, hbuffer, scrolls, hle, hpos, hshown⟩

/-- One keystroke. -/
theorem Edits.key (h : s.Edits start line) (hnew : c ≠ newline)
    (hzero : c ≠ 0) (hroom : (typedKey line c).length ≤ 127) :
    (s.key c).Edits start (typedKey line c) := by
  rw [typedKey] at hroom ⊢
  split
  · next hback =>
      subst hback
      exact h.pop
  · next hback =>
      rw [if_neg hback, List.length_append, List.length_singleton] at hroom
      exact h.push hback hnew hzero (by omega)

/-! ## The whole line -/

variable {reads rest : List UInt8}

/-- Up to the newline, the loop goes on from where it is. -/
theorem readLine_append (hnew : newline ∉ reads) :
    s.readLine (reads ++ rest) = (s.readLine reads).1.readLine rest := by
  induction reads generalizing s with
  | nil => rfl
  | cons c reads ih =>
      have hc : newline ≠ c := List.ne_of_not_mem_cons hnew
      have hreads := List.not_mem_of_not_mem_cons hnew
      rw [List.cons_append, readLine, readLine, if_neg hc.symm,
        if_neg hc.symm]
      split
      · exact ih hreads
      · exact ih hreads

theorem keystrokes_concat (reads : List UInt8) (c : UInt8) :
    keystrokes (reads ++ [c]) =
      if c = 0 then keystrokes reads else keystrokes reads ++ [c] := by
  rw [keystrokes, keystrokes, List.filter_append]
  split
  · next hc => simp [hc]
  · next hc => simp [hc]

theorem typed_concat (ks : List UInt8) (c : UInt8) :
    typed (ks ++ [c]) = typedKey (typed ks) c := by
  rw [typed, List.foldl_append]
  rfl

/-- All keystrokes before the newline. -/
theorem edits_readLine {t : Terminal} (buffer : Nat → UInt8) (hon : t.OnScreen)
    (hnew : newline ∉ reads)
    (hroom : ∀ ks, ks <+: reads → (typed (keystrokes ks)).length ≤ 127) :
    ((⟨buffer, 0, t⟩ : LineInput).readLine reads).1.Edits t.pos
      (typed (keystrokes reads)) := by
  induction reads using List.reverseRecOn with
  | nil =>
      refine ⟨hon, rfl, fun k hk => absurd hk (Nat.not_lt_zero k),
        0, Nat.zero_le _, rfl, fun k hk => absurd hk (Nat.not_lt_zero k)⟩
  | append_singleton reads c ih =>
      obtain ⟨hreads, hc⟩ := not_or.1 (mt List.mem_append.2 hnew)
      have hc : c ≠ newline := fun h => hc (h ▸ List.mem_singleton_self c)
      have hbefore := ih hreads fun ks hks =>
        hroom ks (hks.trans (List.prefix_append _ _))
      have hlast := hroom _ (List.prefix_refl _)
      rw [readLine_append hreads]
      rw [keystrokes_concat] at hlast ⊢
      by_cases hzero : c = 0
      · rw [if_pos hzero, readLine, if_pos hzero]
        exact hbefore
      · rw [if_neg hzero, typed_concat] at hlast ⊢
        rw [readLine, if_neg hzero, if_neg hc]
        exact hbefore.key hc hzero hlast

/-- Characters without a backspace and a newline behind them: they are what
is in the buffer in front of its zero. -/
theorem readLine_plain {ks : List UInt8}
    (hks : ∀ c ∈ ks, c ≠ 0 ∧ c ≠ newline ∧ c ≠ backspace) (s : LineInput) :
    ∃ s', s.readLine (ks ++ [newline]) = (s', true) ∧
      CString.firstBytes s'.buffer s'.i =
        CString.firstBytes s.buffer s.i ++ ks := by
  induction ks generalizing s with
  | nil =>
      refine ⟨s.enter, rfl, ?_⟩
      rw [List.append_nil]
      exact CString.firstBytes_update s.buffer s.i 0
  | cons c ks ih =>
      obtain ⟨hzero, hnew, hback⟩ := hks c List.mem_cons_self
      obtain ⟨s', hread, hbytes⟩ :=
        ih (fun d hd => hks d (List.mem_cons_of_mem c hd)) (s.key c)
      refine ⟨s', ?_, ?_⟩
      · rw [List.cons_append, readLine, if_neg hzero, if_neg hnew]
        exact hread
      · rw [hbytes, key, if_neg hback]
        show CString.firstBytes (Function.update s.buffer s.i c) (s.i + 1) ++ ks = _
        rw [CString.firstBytes_push, List.append_assoc]
        rfl

end LineInput

/-- However the cursor stands on the screen when `>>` begins to read: as long
as no newline comes and the line is never longer than 127 characters, the
buffer holds the line that was typed, and so do the cells in front of the
cursor. The newline ends the line in the buffer. -/
theorem line_shown (t : Terminal) (buffer : Nat → UInt8)
    (reads : List UInt8) (hon : t.OnScreen) (hnew : newline ∉ reads)
    (hroom : ∀ ks, ks <+: reads → (typed (keystrokes ks)).length ≤ 127) :
    let s := ((⟨buffer, 0, t⟩ : LineInput).readLine reads).1
    s.Edits t.pos (typed (keystrokes reads)) ∧
      ∀ rest, (⟨buffer, 0, t⟩ : LineInput).readLine (reads ++ newline :: rest) =
          (s.enter, true) ∧
        s.enter.i = s.i ∧ s.enter.buffer s.i = 0 ∧
        ∀ k < s.i, s.enter.buffer k = s.buffer k := by
  refine ⟨LineInput.edits_readLine buffer hon hnew hroom, fun rest => ?_⟩
  refine ⟨?_, rfl, Function.update_self _ _ _, fun k hk => ?_⟩
  · rw [LineInput.readLine_append hnew, LineInput.readLine,
      if_neg (by decide), if_pos rfl]
  · exact Function.update_of_ne (Nat.ne_of_lt hk) _ _

/-- `a` in the last cell of the screen, `b` in the next row, gone again, and
`c` in its place. -/
theorem line_shown_scrolled :
    let t : Terminal := ⟨fun _ => 0, 79, 24, 0x0F, 0⟩
    let s := ((⟨fun _ => 7, 0, t⟩ : LineInput).readLine
      [0x61, 0, 0x62, backspace, 0x63]).1
    s.buffer 0 = 0x61 ∧ s.buffer 1 = 0x63 ∧ s.enter.buffer 2 = 0 ∧
      s.term.glyph 1919 = 0x61 ∧ s.term.glyph 1920 = 0x63 ∧
      s.term.pos = 1921 := by
  intro t s
  have hroom : ∀ ks ∈ ([0x61, 0, 0x62, backspace, 0x63] : List UInt8).inits,
      (typed (keystrokes ks)).length ≤ 127 := by decide
  obtain ⟨⟨-, hi, hbuffer, scrolls, -, hpos, hshown⟩, hend⟩ :=
    line_shown t (fun _ => 7) [0x61, 0, 0x62, backspace, 0x63]
      ⟨by decide, by decide⟩ (by decide)
      fun ks hks => hroom ks ((List.mem_inits _ _).2 hks)
  have hi : s.i = 2 := hi
  have hend : s.enter.buffer s.i = 0 := (hend []).2.2.1
  have hcursor : s.term.pos = 1921 := by decide
  have hscrolls : scrolls = 1 := by
    have hpos : s.term.pos + 80 * scrolls = 1999 + s.i := hpos
    omega
  subst hscrolls
  rw [hi] at hend hbuffer hshown
  exact ⟨hbuffer 0 (by decide), hbuffer 1 (by decide), hend,
    hshown 0 (by decide), hshown 1 (by decide), hcursor⟩

end TermOS.Console
