import TermOS.Lib.Trace
import TermOS.Proofs.CursorBounds
import TermOS.Ref.Scrollback

/-!
# Scrolling back shows nothing

Nothing bounds `view_offset`, so a refresh reads inside `screen_buffer` as long
as the keys that scroll keep it between 0 and 175. And nothing fills
`screen_buffer`, so what a refresh shows is zeroes, whatever was on the screen.
A key and its opposite undo each other only on a screen that was zero already,
which is one that nothing has been printed to since the last such key.
-/

namespace TermOS.Console

open TermOS.Lib

/-- By how much an event moves the view: PageUp, PageDown and the others. -/
def ViewEvent.page : ViewEvent → Int
  | .key scancode _ =>
      if scancode = 0x49 then -1 else if scancode = 0x51 then 1 else 0
  | _ => 0

/-- A key that does not scroll. -/
def ViewEvent.Quiet : ViewEvent → Prop
  | .key scancode beyond => (ViewEvent.key scancode beyond).page = 0
  | _ => False

namespace View

variable {v v' : View} {e : ViewEvent} {events : List ViewEvent}

/-- A refresh with this offset reads inside `screen_buffer`. -/
def Inside (viewOffset : Int) : Prop :=
  0 ≤ viewOffset * 80 ∧ viewOffset * 80 + 1999 < 16000

/-- The same 2000 cells. -/
def SameCells (v v' : View) : Prop :=
  ∀ k < 2000, v'.term.vidmem k = v.term.vidmem k

/-- All cells are zero. -/
def Blank (v : View) : Prop := ∀ k < 2000, v.term.vidmem k = 0

theorem refresh_vidmem (v : View) (beyond : Int → UInt16) :
    (v.refresh beyond).term.vidmem =
      tabulate v.term.vidmem (80 * 25) fun i =>
        v.load beyond (v.viewOffset * 80 + i) := by
  simp only [refresh]

@[simp]
theorem refresh_screenBuffer (v : View) (beyond : Int → UInt16) :
    (v.refresh beyond).screenBuffer = v.screenBuffer := by
  simp only [refresh]

@[simp]
theorem refresh_viewOffset (v : View) (beyond : Int → UInt16) :
    (v.refresh beyond).viewOffset = v.viewOffset := by
  simp only [refresh]

theorem perform_page (h : e.page ≠ 0) : ∃ keys beyond, v.perform e =
    refresh { v with keys := keys, viewOffset := v.viewOffset + e.page } beyond := by
  cases e with
  | write c => exact absurd rfl h
  | writeErr c => exact absurd rfl h
  | key scancode beyond =>
      rw [ViewEvent.page] at h ⊢
      refine ⟨(v.keys.irq1Handler scancode).1, beyond, ?_⟩
      by_cases hup : scancode = 0x49
      · subst hup
        rfl
      · rw [if_neg hup] at h ⊢
        by_cases hdown : scancode = 0x51
        · subst hdown
          rfl
        · rw [if_neg hdown] at h
          exact absurd rfl h

/-- Only the keys that scroll ask for a refresh. -/
theorem page_of_view {keys : Keys} {scancode : UInt8} {delta : Int}
    (h : (keys.irq1Handler scancode).2 = .view delta) :
    scancode = 0x49 ∨ scancode = 0x51 := by
  rw [Keys.irq1Handler] at h
  simp only at h
  split at h
  · next hup => exact .inl hup
  · split at h
    · next hdown => exact .inr hdown
    · split at h
      · split at h
        · cases h
        · split at h
          · cases h
          · cases h
      · cases h

theorem perform_other (h : e.page = 0) : ∃ term keys,
    v.perform e = { v with term := term, keys := keys } ∧
      (e.Quiet → term = v.term) := by
  cases e with
  | write c => exact ⟨v.term.vgaWrite [c], v.keys, rfl, False.elim⟩
  | writeErr c => exact ⟨v.term.vgaWriteErr [c], v.keys, rfl, False.elim⟩
  | key scancode beyond =>
      refine ⟨v.term, (v.keys.irq1Handler scancode).1, ?_, fun _ => rfl⟩
      rw [perform, irq1Handler]
      split
      · next delta haction =>
          rw [ViewEvent.page] at h
          rcases page_of_view haction with rfl | rfl
          · exact absurd h (by decide)
          · exact absurd h (by decide)
      · rfl

theorem inside_iff (viewOffset : Int) :
    Inside viewOffset ↔ 0 ≤ viewOffset ∧ viewOffset ≤ 175 := by
  rw [Inside]
  omega

/-- No step writes to `screen_buffer`, and only the keys that scroll move the
view. -/
theorem perform_fields (v : View) (e : ViewEvent) :
    (v.perform e).screenBuffer = v.screenBuffer ∧
      (v.perform e).viewOffset = v.viewOffset + e.page := by
  by_cases h : e.page = 0
  · obtain ⟨term, keys, heq, -⟩ := @perform_other v e h
    rw [heq, h, Int.add_zero]
    exact ⟨rfl, rfl⟩
  · obtain ⟨keys, beyond, heq⟩ := @perform_page v e h
    rw [heq, refresh_screenBuffer, refresh_viewOffset]
    exact ⟨rfl, rfl⟩

theorem screenBuffer_of_run {s : View} (h : Trace Step s events v)
    (hs : s.screenBuffer = fun _ => 0) : v.screenBuffer = fun _ => 0 := by
  refine h.invariant (I := fun v => v.screenBuffer = fun _ => 0) ?_ hs
  rintro v e v' hv rfl
  rw [(perform_fields v e).1, hv]

/-- A refresh that stays inside `screen_buffer` shows zeroes. -/
theorem blank_refresh (hbuffer : v.screenBuffer = fun _ => 0)
    (hin : Inside v.viewOffset) (beyond : Int → UInt16) :
    (v.refresh beyond).Blank := by
  intro k hk
  rw [Inside] at hin
  have hload : v.load beyond (v.viewOffset * 80 + k) = 0 := by
    rw [load, if_pos (by omega), hbuffer]
  rw [refresh_vidmem, tabulate_apply, if_pos (by omega), hload]

theorem blank_page (hbuffer : v.screenBuffer = fun _ => 0) (hpage : e.page ≠ 0)
    (hin : Inside (v.viewOffset + e.page)) : (v.perform e).Blank := by
  obtain ⟨keys, beyond, heq⟩ := @perform_page v e hpage
  rw [heq]
  exact @blank_refresh
    { v with keys := keys, viewOffset := v.viewOffset + e.page } hbuffer hin beyond

/-- In a run from `s`, `u` is behind the events `pre` and in front of a key that
scrolls, and `x` is behind the next one, which scrolls the other way; there is
no output between the two. -/
def PagedBack (s : View) (events pre : List ViewEvent) (u x : View) : Prop :=
  ∃ e mid e' post v w, events = pre ++ e :: mid ++ e' :: post ∧
    Trace Step s pre u ∧ Step u e v ∧ Trace Step v mid w ∧ Step w e' x ∧
    e.page ≠ 0 ∧ e'.page = -e.page ∧ ∀ f ∈ mid, f.Quiet

theorem step_unique (v : View) (e : ViewEvent) (v' v'' : View)
    (h : Step v e v') (h' : Step v e v'') : v' = v'' := h.trans h'.symm

/-- Where all refreshes stay inside, the second of the two keys leaves a blank
screen. -/
theorem PagedBack.blank {t : Terminal} {pre : List ViewEvent} {u x : View}
    (h : PagedBack (start t) events pre u x)
    (hrun : Trace (Trace.Along Step fun _ e s' =>
      e.page ≠ 0 → Inside s'.viewOffset) (start t) events v) : x.Blank := by
  obtain ⟨e, mid, e', post, v₁, w, rfl, hpre, hstep, hmid, hstep', hpage,
    hback, -⟩ := h
  have hpage' : e'.page ≠ 0 := by omega
  have hw : Trace Step (start t) (pre ++ e :: mid) w :=
    Trace.append_iff.2 ⟨u, hpre, .cons hstep hmid⟩
  have hin := (Trace.along_iff step_unique hrun.of_along).1 hrun
    (pre ++ e :: mid) e' post w x (by simp) hw hstep' hpage'
  obtain rfl : x = w.perform e' := hstep'
  rw [(perform_fields w e').2] at hin
  exact blank_page (screenBuffer_of_run hw rfl) hpage' hin

end View

/-! ## What makes a screen zero -/

namespace Terminal

variable {t : Terminal} {c : UInt8}

/-- The character stores into a cell, its own or one of a new last row. -/
def Touches (t : Terminal) (c : UInt8) : Prop :=
  ¬ (c = newline ∧ t.y < 24) ∧ ¬ (c = backspace ∧ t.x = 0 ∧ t.y = 0)

theorem cell_ne_zero (h : t.currentColor = white ∨ t.currentColor = red)
    (c : UInt8) : t.cell c ≠ 0 := by
  intro hzero
  rw [cell, UInt16.or_eq_zero_iff] at hzero
  rcases h with h | h
  · rw [h] at hzero
    exact absurd hzero.2 (by decide)
  · rw [h] at hzero
    exact absurd hzero.2 (by decide)

theorem vidmem_newRow (t : Terminal) (hy : t.y < 25) :
    (t.y < 24 ∧ t.newRow.vidmem = t.vidmem) ∨
      (t.y = 24 ∧ t.newRow.vidmem 1920 = t.cell blank) := by
  rw [newRow]
  simp only
  by_cases hlast : t.y = 24
  · rw [if_pos (by omega)]
    refine .inr ⟨hlast, ?_⟩
    simp only [scrollUp]
    rw [fill_apply, if_pos (by decide)]
    rfl
  · rw [if_neg (by omega)]
    exact .inl ⟨by omega, rfl⟩

theorem putChar_untouched (hx : t.x < 80) (hy : t.y < 25)
    (h : ¬ t.Touches c) : (t.putChar c).vidmem = t.vidmem := by
  rw [Touches, not_and_or, not_not, not_not] at h
  rcases h with ⟨rfl, hrow⟩ | ⟨rfl, hx0, hy0⟩
  · rw [putChar_eq hx hy (by decide), if_pos rfl]
    rcases vidmem_newRow t hy with ⟨-, heq⟩ | ⟨hlast, -⟩
    · exact heq
    · omega
  · rw [putChar, if_pos rfl, if_neg (by omega), if_neg (by omega)]
    rfl

/-- What is stored has a color, and so it is not zero. -/
theorem putChar_touched (hx : t.x < 80) (hy : t.y < 25)
    (hcolor : t.currentColor = white ∨ t.currentColor = red)
    (h : t.Touches c) : ∃ k < 2000, (t.putChar c).vidmem k ≠ 0 := by
  have hstored : ∀ (v : Nat → UInt16) (k : Nat) (d : UInt8),
      Function.update v k (t.cell d) k ≠ 0 := by
    intro v k d
    rw [Function.update_self]
    exact cell_ne_zero hcolor d
  by_cases hback : c = backspace
  · rw [putChar, if_pos hback]
    by_cases hleft : t.x > 0
    · rw [if_pos hleft]
      exact ⟨t.y * 80 + (t.x - 1), by omega, hstored _ _ _⟩
    · rw [if_neg hleft]
      have hup : t.y > 0 := by
        by_contra hup
        exact h.2 ⟨hback, by omega, by omega⟩
      rw [if_pos hup]
      exact ⟨(t.y - 1) * 80 + 79, by omega, hstored _ _ _⟩
  · rw [putChar_eq hx hy hback]
    by_cases hnew : c = newline
    · rw [if_pos hnew]
      rcases vidmem_newRow t hy with ⟨hrow, -⟩ | ⟨-, hcell⟩
      · exact absurd ⟨hnew, hrow⟩ h.1
      · refine ⟨1920, by decide, ?_⟩
        show t.newRow.vidmem 1920 ≠ 0
        rw [hcell]
        exact cell_ne_zero hcolor blank
    · rw [if_neg hnew]
      by_cases hfull : t.x + 1 = 80
      · rw [if_pos hfull]
        rcases vidmem_newRow (t.store c) hy with ⟨-, heq⟩ | ⟨-, hcell⟩
        · refine ⟨t.y * 80 + t.x, by omega, ?_⟩
          show (t.store c).newRow.vidmem _ ≠ 0
          rw [heq]
          exact hstored _ _ _
        · refine ⟨1920, by decide, ?_⟩
          show (t.store c).newRow.vidmem 1920 ≠ 0
          rw [hcell]
          exact cell_ne_zero hcolor blank
      · rw [if_neg hfull]
        exact ⟨t.y * 80 + t.x, by omega, hstored _ _ _⟩

theorem newRow_color (t : Terminal) :
    t.newRow.currentColor = t.currentColor := by
  rw [newRow]
  simp only
  split
  · simp only [scrollUp]
  · rfl

theorem putChar_color (hx : t.x < 80) (hy : t.y < 25) (c : UInt8) :
    (t.putChar c).currentColor = t.currentColor := by
  by_cases hback : c = backspace
  · rw [putChar, if_pos hback]
    split
    · rfl
    · split <;> rfl
  · rw [putChar_eq hx hy hback, updateCursor]
    simp only
    split
    · exact newRow_color t
    · split
      · exact newRow_color (t.store c)
      · rfl

/-- The terminal with its coordinates as `int`s. -/
def screen (t : Terminal) : Screen :=
  ⟨fun i => t.vidmem i.toNat, t.x, t.y, t.currentColor, t.cursor, []⟩

theorem putChar_bounds (hx : t.x < 80) (hy : t.y < 25) (c : UInt8) :
    (t.putChar c).x < 80 ∧ (t.putChar c).y < 25 := by
  have hon : t.screen.OnScreen :=
    ⟨Int.natCast_nonneg _, Int.ofNat_lt.2 hx, Int.natCast_nonneg _,
      Int.ofNat_lt.2 hy⟩
  have hsame : t.screen.terminal = t := rfl
  have hput := Screen.terminal_putChar hon c
  have hon' := (Screen.putChar_onScreen hon c).2
  rw [hsame] at hput
  rw [← hput]
  obtain ⟨hx0, hx', hy0, hy'⟩ := hon'
  exact ⟨by show Int.toNat _ < 80; omega, by show Int.toNat _ < 25; omega⟩

end Terminal

/-- The event prints a character that is stored. -/
def ViewEvent.Touches (t : Terminal) : ViewEvent → Prop
  | .write c => c ≠ 0 ∧ t.Touches c
  | .writeErr c => c ≠ 0 ∧ t.Touches c
  | .key _ _ => False

namespace View

variable {v : View} {e : ViewEvent}

/-- What holds between two events. -/
structure Settled (v : View) : Prop where
  x : v.term.x < 80
  y : v.term.y < 25
  color : v.term.currentColor = white
  buffer : v.screenBuffer = fun _ => 0

theorem print_singleton (t : Terminal) (c : UInt8) :
    t.print [c] = if c = 0 then t else t.putChar c := by
  rw [Terminal.print]
  by_cases hc : c = 0
  · rw [if_pos hc, List.takeWhile_cons_of_neg (by simp [hc])]
    rfl
  · rw [if_neg hc, List.takeWhile_cons_of_pos (by simp [hc])]
    rfl

/-- What printing one character does to the terminal. -/
structure Printed (t : Terminal) (c : UInt8) (t' : Terminal) : Prop where
  x : t'.x < 80
  y : t'.y < 25
  touched : c ≠ 0 ∧ t.Touches c → ∃ k < 2000, t'.vidmem k ≠ 0
  untouched : ¬ (c ≠ 0 ∧ t.Touches c) → t'.vidmem = t.vidmem

theorem printed_print {t : Terminal} (hx : t.x < 80) (hy : t.y < 25)
    (hcolor : t.currentColor = white ∨ t.currentColor = red) (c : UInt8) :
    Printed t c (t.print [c]) ∧ (t.print [c]).currentColor = t.currentColor := by
  rw [print_singleton]
  by_cases hc : c = 0
  · rw [if_pos hc]
    exact ⟨⟨hx, hy, fun h => absurd hc h.1, fun _ => rfl⟩, rfl⟩
  · rw [if_neg hc]
    obtain ⟨hx', hy'⟩ := Terminal.putChar_bounds hx hy c
    exact ⟨⟨hx', hy', fun h => Terminal.putChar_touched hx hy hcolor h.2,
      fun h => Terminal.putChar_untouched hx hy fun ht => h ⟨hc, ht⟩⟩,
      Terminal.putChar_color hx hy c⟩

theorem printed_write (h : v.Settled) (c : UInt8) :
    Printed v.term c (v.term.vgaWrite [c]) ∧
      (v.term.vgaWrite [c]).currentColor = white := by
  obtain ⟨hprinted, hcolor⟩ := printed_print h.x h.y (.inl h.color) c
  exact ⟨hprinted, hcolor.trans h.color⟩

theorem printed_writeErr (h : v.Settled) (c : UInt8) :
    Printed v.term c (v.term.vgaWriteErr [c]) ∧
      (v.term.vgaWriteErr [c]).currentColor = white := by
  have hred : (v.term.setColor red black).currentColor = red := rfl
  obtain ⟨hprinted, -⟩ :=
    printed_print (t := v.term.setColor red black) h.x h.y (.inr hred) c
  exact ⟨⟨hprinted.x, hprinted.y, hprinted.touched, hprinted.untouched⟩, rfl⟩

theorem settled_start (t : Terminal) : (start t).Settled :=
  ⟨(by decide : 0 < 80), (by decide : 0 < 25), rfl, rfl⟩

/-- Between two events the terminal and the buffer are in order, and the cells
are all zero behind a key that scrolls, and as long as nothing is printed that
is stored. -/
theorem Settled.perform (h : v.Settled)
    (hin : e.page ≠ 0 → Inside (v.viewOffset + e.page)) :
    (v.perform e).Settled ∧ ((v.perform e).Blank ↔
      e.page ≠ 0 ∨ (v.Blank ∧ ¬ e.Touches v.term)) := by
  have houtput : ∀ c t', Printed v.term c t' → t'.currentColor = white →
      Settled { v with term := t' } ∧ (Blank { v with term := t' } ↔
        (0 : Int) ≠ 0 ∨ (v.Blank ∧ ¬ (c ≠ 0 ∧ v.term.Touches c))) := by
    intro c t' hprinted hcolor
    refine ⟨⟨hprinted.x, hprinted.y, hcolor, h.buffer⟩, ?_⟩
    rw [or_iff_right (not_not.2 rfl)]
    by_cases htouch : c ≠ 0 ∧ v.term.Touches c
    · obtain ⟨k, hk, hne⟩ := hprinted.touched htouch
      exact iff_of_false (fun hblank => hne (hblank k hk))
        fun hboth => hboth.2 htouch
    · have hcells : t'.vidmem = v.term.vidmem := hprinted.untouched htouch
      rw [and_iff_left htouch, Blank, Blank]
      simp only [hcells]
  by_cases hpage : e.page = 0
  · cases e with
    | write c =>
        obtain ⟨hprinted, hcolor⟩ := printed_write h c
        exact houtput c _ hprinted hcolor
    | writeErr c =>
        obtain ⟨hprinted, hcolor⟩ := printed_writeErr h c
        exact houtput c _ hprinted hcolor
    | key scancode beyond =>
        obtain ⟨term, keys, heq, hquiet⟩ := @perform_other v _ hpage
        obtain rfl := hquiet hpage
        rw [heq, or_iff_right (not_not.2 hpage)]
        exact ⟨⟨h.x, h.y, h.color, h.buffer⟩,
          (and_iff_left fun hfalse => hfalse).symm⟩
  · have hblank := blank_page h.buffer hpage (hin hpage)
    obtain ⟨keys, beyond, heq⟩ := @perform_page v e hpage
    refine ⟨?_, iff_of_true hblank (.inl hpage)⟩
    rw [heq, refresh]
    exact ⟨h.x, h.y, h.color, h.buffer⟩

/-- Behind these events the screen is as a refresh has left it: a key that
scrolls has come, and nothing has been stored since. Whether it is so in front
of them is `p`. -/
def Refreshed (p : Prop) : View → List ViewEvent → Prop
  | _, [] => p
  | v, e :: events =>
      Refreshed (e.page ≠ 0 ∨ (p ∧ ¬ e.Touches v.term)) (v.perform e) events

/-- Where all refreshes stay inside, the screens that a refresh has left are
the blank ones. -/
theorem blank_iff_refreshed {s u : View} {events : List ViewEvent} {p : Prop}
    (hrun : Trace (Trace.Along Step fun _ e s' =>
      e.page ≠ 0 → Inside s'.viewOffset) s events u)
    (hs : s.Settled) (hp : s.Blank ↔ p) : u.Blank ↔ Refreshed p s events := by
  induction hrun generalizing p with
  | nil s => exact hp
  | @cons s s' u e events head _ ih =>
      obtain ⟨hstep, hin⟩ := head
      obtain rfl : s' = s.perform e := hstep
      rw [(perform_fields s e).2] at hin
      obtain ⟨hsettled, hblank⟩ := hs.perform hin
      rw [hp] at hblank
      exact ih hsettled hblank

theorem not_blank_start (t : Terminal) : ¬ (start t).Blank := by
  intro h
  have hglyph : (start t).term.glyph 0 = blank :=
    Terminal.glyph_clear (by decide)
  rw [Terminal.glyph, h 0 (by decide)] at hglyph
  exact absurd hglyph (by decide)

/-- A pair of keys is undone if and only if it finds a screen that a refresh
has left. -/
theorem PagedBack.sameCells_iff {t : Terminal} {events pre : List ViewEvent}
    {u x v : View} (h : PagedBack (start t) events pre u x)
    (hrun : Trace (Trace.Along Step fun _ e s' =>
      e.page ≠ 0 → Inside s'.viewOffset) (start t) events v) :
    u.SameCells x ↔ (start t).Refreshed False pre := by
  have hblank := h.blank hrun
  obtain ⟨e, mid, e', post, v₁, w, rfl, hpre, -⟩ := h
  rw [List.append_assoc] at hrun
  obtain ⟨u', hpre', -⟩ := Trace.append_iff.1 hrun
  obtain rfl := Trace.unique step_unique hpre hpre'.of_along
  have hstart : (start t).Blank ↔ False := iff_false_intro (not_blank_start t)
  rw [← blank_iff_refreshed hpre' (settled_start t) hstart]
  refine forall₂_congr fun k hk => ?_
  rw [hblank k hk]
  exact eq_comm

end View

/-- In a run from the start, every refresh reads inside `screen_buffer` and
every key that scrolls is undone by the opposite key when nothing is printed
in between, if and only if no key moves the view out of the rows 0 to 175 and
every such pair of keys finds a screen that a refresh has left. -/
theorem scrollback_iff (t : Terminal) (events : List ViewEvent) (v : View) :
    (Trace (Trace.Along View.Step fun _ e s' =>
          e.page ≠ 0 → View.Inside s'.viewOffset) (View.start t) events v ∧
        ∀ pre u x, View.PagedBack (View.start t) events pre u x →
          u.SameCells x) ↔
      (Trace (Trace.Along View.Step fun s e _ => e.page ≠ 0 →
          0 ≤ s.viewOffset + e.page ∧ s.viewOffset + e.page ≤ 175)
          (View.start t) events v ∧
        ∀ pre u x, View.PagedBack (View.start t) events pre u x →
          (View.start t).Refreshed False pre) := by
  have hoffset : Trace (Trace.Along View.Step fun _ e s' =>
        e.page ≠ 0 → View.Inside s'.viewOffset) (View.start t) events v ↔
      Trace (Trace.Along View.Step fun s e _ => e.page ≠ 0 →
        0 ≤ s.viewOffset + e.page ∧ s.viewOffset + e.page ≤ 175)
        (View.start t) events v := by
    refine Trace.along_congr (I := fun _ => True)
      (fun _ _ _ _ _ _ => trivial) ?_ trivial
    rintro s e s' - rfl
    rw [View.inside_iff, (View.perform_fields s e).2]
  rw [← hoffset]
  exact and_congr_right fun hrun => forall₃_congr fun pre u x =>
    forall_congr' fun hpair => hpair.sameCells_iff hrun

/-- A terminal that has just been set up. -/
def freshView : View := .start ⟨fun _ => 0, 0, 0, 0, 0⟩

/-- PageUp as the first key reads in front of `screen_buffer`, and PageDown and
PageUp, which do not, clear the screen. -/
theorem not_scrollback :
    ¬ View.Inside (freshView.perform (.key 0x49 fun _ => 0)).viewOffset ∧
      View.Inside (freshView.perform (.key 0x51 fun _ => 0)).viewOffset ∧
      View.Inside ((freshView.perform (.key 0x51 fun _ => 0)).perform
        (.key 0x49 fun _ => 0)).viewOffset ∧
      View.PagedBack freshView
        [.key 0x51 fun _ => 0, .key 0x49 fun _ => 0] [] freshView
        ((freshView.perform (.key 0x51 fun _ => 0)).perform
          (.key 0x49 fun _ => 0)) ∧
      ¬ freshView.SameCells ((freshView.perform (.key 0x51 fun _ => 0)).perform
        (.key 0x49 fun _ => 0)) := by
  have hdown := (View.perform_fields freshView (.key 0x51 fun _ => 0)).2
  have hboth := (View.perform_fields (freshView.perform (.key 0x51 fun _ => 0))
    (.key 0x49 fun _ => 0)).2
  have hup := (View.perform_fields freshView (.key 0x49 fun _ => 0)).2
  rw [hdown] at hboth
  have hpair : View.PagedBack freshView
      [.key 0x51 fun _ => 0, .key 0x49 fun _ => 0] [] freshView
      ((freshView.perform (.key 0x51 fun _ => 0)).perform
        (.key 0x49 fun _ => 0)) :=
    ⟨_, [], _, [], _, _, rfl, .nil _, rfl, .nil _, rfl, by decide, by decide,
      fun _ hf => nomatch hf⟩
  have hin₁ : View.Inside (freshView.perform (.key 0x51 fun _ => 0)).viewOffset := by
    rw [hdown]
    exact ⟨by decide, by decide⟩
  have hin₂ : View.Inside ((freshView.perform (.key 0x51 fun _ => 0)).perform
      (.key 0x49 fun _ => 0)).viewOffset := by
    rw [hboth]
    exact ⟨by decide, by decide⟩
  refine ⟨?_, hin₁, hin₂, hpair, fun hsame => ?_⟩
  · rw [hup]
    exact fun h => absurd h.1 (by decide)
  · have hrun : Trace (Trace.Along View.Step fun _ e s' =>
        e.page ≠ 0 → View.Inside s'.viewOffset) freshView
        [.key 0x51 fun _ => 0, .key 0x49 fun _ => 0] _ :=
      .cons ⟨rfl, fun _ => hin₁⟩ (.cons ⟨rfl, fun _ => hin₂⟩ (.nil _))
    exact (View.PagedBack.sameCells_iff hpair hrun).1 hsame

end TermOS.Console
