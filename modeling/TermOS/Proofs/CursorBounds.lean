import TermOS.Lib.Trace
import TermOS.Proofs.Screen
import TermOS.Ref.TerminalAccess

/-!
# The cursor stays on the screen

Inside `put_char` the cursor leaves the screen, at the end of a row and at the
end of the last row, but no cell is touched before it is back. So the cells
that are read and written are those of the screen, the others keep what they
hold, and nothing is lost by coordinates that cannot be negative.
-/

namespace TermOS.Console

open TermOS.Lib

namespace Screen

/-- The cursor is on one of the 25 rows of 80 cells. -/
structure OnScreen (s : Screen) : Prop where
  x_nonneg : 0 ≤ s.x
  x_lt : s.x < 80
  y_nonneg : 0 ≤ s.y
  y_lt : s.y < 25

/-- From `s` to `s'` cells of the screen have been touched and no others. -/
structure Within (s s' : Screen) : Prop where
  accesses : ∀ a ∈ s'.accesses,
    a ∈ s.accesses ∨ (0 ≤ a.index ∧ a.index ≤ 1999)
  others : ∀ i, ¬ (0 ≤ i ∧ i ≤ 1999) → s'.vidmem i = s.vidmem i

variable {s s' s'' : Screen} {c : UInt8} {i j : Int} {v : UInt16}

theorem Within.refl (s : Screen) : s.Within s :=
  ⟨fun _ ha => .inl ha, fun _ _ => rfl⟩

theorem Within.trans (h : s.Within s') (h' : s'.Within s'') :
    s.Within s'' := by
  refine ⟨fun a ha => ?_, fun i hi => (h'.others i hi).trans (h.others i hi)⟩
  rcases h'.accesses a ha with hold | hin
  · exact h.accesses a hold
  · exact .inr hin

theorem Within.moved (h : s.Within s') (x y : Int) :
    s.Within { s' with x := x, y := y } := ⟨h.accesses, h.others⟩

theorem Within.updateCursor (h : s.Within s') : s.Within s'.updateCursor :=
  ⟨h.accesses, h.others⟩

theorem Within.foldl {α : Type} {f : Screen → α → Screen} (l : List α)
    (h : ∀ s : Screen, ∀ a ∈ l, s.Within (f s a)) (s : Screen) :
    s.Within (l.foldl f s) := by
  induction l generalizing s with
  | nil => exact .refl s
  | cons a l ih =>
      exact (h s a List.mem_cons_self).trans
        (ih (fun s b hb => h s b (List.mem_cons_of_mem a hb)) _)

/-! ## Stores -/

theorem within_store (hi : 0 ≤ i ∧ i ≤ 1999) : s.Within (s.store i v) := by
  refine ⟨fun a ha => ?_, fun j hj => Function.update_of_ne ?_ _ _⟩
  · rcases List.mem_cons.1 ha with rfl | hold
    · exact .inr hi
    · exact .inl hold
  · rintro rfl
    exact hj hi

theorem within_copy (hi : 0 ≤ i ∧ i ≤ 1999) (hj : 0 ≤ j ∧ j ≤ 1999) :
    s.Within (s.copy i j) := by
  have hload : s.Within { s with accesses := ⟨j, false⟩ :: s.accesses } := by
    refine ⟨fun a ha => ?_, fun _ _ => rfl⟩
    rcases List.mem_cons.1 ha with rfl | hold
    · exact .inr hj
    · exact .inl hold
  exact hload.trans (within_store hi)

theorem within_blankCells {start n : Nat} (h : start + n ≤ 2000) :
    s.Within (s.blankCells start n) := by
  refine Within.foldl _ (fun s i hi => within_store ?_) s
  have hrange := List.mem_range'_1.1 hi
  omega

theorem within_copyCells {n d : Nat} (h : n + d ≤ 2000) :
    s.Within (s.copyCells n d) := by
  refine Within.foldl _ (fun s i hi => ?_) s
  have hrange := List.mem_range.1 hi
  exact within_copy (by omega) (by omega)

/-- What the body of a loop leaves alone, the loop leaves alone. -/
theorem foldl_field {α β : Type} {f : Screen → α → Screen} (field : Screen → β)
    (h : ∀ s a, field (f s a) = field s) (l : List α) (s : Screen) :
    field (l.foldl f s) = field s := by
  induction l generalizing s with
  | nil => rfl
  | cons a l ih => rw [List.foldl_cons, ih, h]

theorem within_clear (s : Screen) : s.Within s.clear :=
  ((within_blankCells (by decide)).moved 0 0).updateCursor

theorem within_scrollUp (s : Screen) : s.Within s.scrollUp :=
  ((within_copyCells (by decide)).trans
    (within_blankCells (by decide))).moved _ 24

theorem blankCells_x (s : Screen) (start n : Nat) :
    (s.blankCells start n).x = s.x := by
  rw [blankCells, foldl_field x]
  exact fun _ _ => rfl

theorem copyCells_x (s : Screen) (n d : Nat) : (s.copyCells n d).x = s.x := by
  rw [copyCells, foldl_field x]
  exact fun _ _ => rfl

theorem scrollUp_x (s : Screen) : s.scrollUp.x = s.x := by
  rw [scrollUp]
  simp only [blankCells_x, copyCells_x]

/-! ## The coordinates -/

theorem onScreen_clear (s : Screen) : s.clear.OnScreen :=
  ⟨Int.le_refl 0, (by decide : (0 : Int) < 80), Int.le_refl 0,
    (by decide : (0 : Int) < 25)⟩

/-- The cell at the cursor. -/
theorem OnScreen.index (h : s.OnScreen) :
    0 ≤ s.y * 80 + s.x ∧ s.y * 80 + s.x ≤ 1999 := by
  obtain ⟨hx, hx', hy, hy'⟩ := h
  omega

/-- `update_cursor` only tells. -/
theorem OnScreen.updateCursor (h : s.OnScreen) : s.updateCursor.OnScreen :=
  ⟨h.x_nonneg, h.x_lt, h.y_nonneg, h.y_lt⟩

/-- A blank is stored where the cursor has gone back to. -/
theorem erase_onScreen {x y : Int} (h : OnScreen { s with x := x, y := y }) :
    s.Within (({ s with x := x, y := y } : Screen).store (y * 80 + x)
        (s.cell blank)).updateCursor ∧
      (({ s with x := x, y := y } : Screen).store (y * 80 + x)
        (s.cell blank)).updateCursor.OnScreen :=
  ⟨(((Within.refl s).moved x y).trans (within_store h.index)).updateCursor,
    ⟨h.x_nonneg, h.x_lt, h.y_nonneg, h.y_lt⟩⟩

/-- What `put_char` does behind its first `if`, when `x` and `y` may have left
the screen. -/
theorem settle (hx : 0 ≤ s.x) (hy : 0 ≤ s.y) :
    let t := if s.x ≥ 80 then { s with x := 0, y := s.y + 1 } else s
    let t := if t.y ≥ 25 then t.scrollUp else t
    s.Within t.updateCursor ∧ t.updateCursor.OnScreen := by
  have hend : ∀ t : Screen, s.Within t → 0 ≤ t.x → t.x < 80 → 0 ≤ t.y →
      s.Within (if t.y ≥ 25 then t.scrollUp else t).updateCursor ∧
        (if t.y ≥ 25 then t.scrollUp else t).updateCursor.OnScreen := by
    intro t ht htx htx' hty
    split
    · refine ⟨(ht.trans (within_scrollUp t)).updateCursor,
        OnScreen.updateCursor ⟨?_, ?_, (by decide : (0 : Int) ≤ 24),
          (by decide : (24 : Int) < 25)⟩⟩
      · rw [scrollUp_x]
        exact htx
      · rw [scrollUp_x]
        exact htx'
    · exact ⟨ht.updateCursor, OnScreen.updateCursor ⟨htx, htx', hty, by omega⟩⟩
  simp only
  split
  · exact hend _ ((Within.refl s).moved 0 _) (Int.le_refl 0)
      (by decide : (0 : Int) < 80) (by show 0 ≤ s.y + 1; omega)
  · exact hend _ (.refl s) hx (by omega) hy

theorem putChar_onScreen (h : s.OnScreen) (c : UInt8) :
    s.Within (s.putChar c) ∧ (s.putChar c).OnScreen := by
  obtain ⟨hx, hx', hy, hy'⟩ := h
  rw [putChar]
  split
  · split
    · exact erase_onScreen (x := s.x - 1) (y := s.y)
        ⟨by show 0 ≤ s.x - 1; omega, by show s.x - 1 < 80; omega, hy, hy'⟩
    · split
      · exact erase_onScreen (x := 79) (y := s.y - 1)
          ⟨(by decide : (0 : Int) ≤ 79), (by decide : (79 : Int) < 80),
            by show 0 ≤ s.y - 1; omega, by show s.y - 1 < 25; omega⟩
      · exact ⟨(Within.refl s).updateCursor,
          OnScreen.updateCursor ⟨hx, hx', hy, hy'⟩⟩
  · by_cases hnew : c = newline
    · simp only [if_pos hnew]
      obtain ⟨hwithin, hon⟩ := @settle { s with x := 0, y := s.y + 1 }
        (Int.le_refl 0) (by show 0 ≤ s.y + 1; omega)
      exact ⟨((Within.refl s).moved 0 _).trans hwithin, hon⟩
    · simp only [if_neg hnew]
      have hstored : s.Within (s.store (s.y * 80 + s.x) (s.cell c)) :=
        within_store (OnScreen.index ⟨hx, hx', hy, hy'⟩)
      obtain ⟨hwithin, hon⟩ := @settle
        { s.store (s.y * 80 + s.x) (s.cell c) with x := s.x + 1 }
        (by show 0 ≤ s.x + 1; omega) hy
      exact ⟨(hstored.moved _ _).trans hwithin, hon⟩

/-- The characters of a text, one after the other. -/
theorem putChars_onScreen {α : Type} (char : α → UInt8) (l : List α)
    (h : s.OnScreen) :
    s.Within (l.foldl (fun s a => s.putChar (char a)) s) ∧
      (l.foldl (fun s a => s.putChar (char a)) s).OnScreen := by
  induction l generalizing s with
  | nil => exact ⟨.refl s, h⟩
  | cons a l ih =>
      obtain ⟨hwithin, hon⟩ := putChar_onScreen h (char a)
      obtain ⟨hrest, hend⟩ := ih hon
      exact ⟨hwithin.trans hrest, hend⟩

theorem print_onScreen (h : s.OnScreen) (str : List UInt8) :
    s.Within (s.print str) ∧ (s.print str).OnScreen :=
  putChars_onScreen id _ h

theorem printHex_onScreen (h : s.OnScreen) (n : UInt64) :
    s.Within (s.printHex n) ∧ (s.printHex n).OnScreen := by
  obtain ⟨hlead, hon⟩ := print_onScreen h [0x30, 0x78]
  obtain ⟨hdigits, hend⟩ := putChars_onScreen (fun i =>
    Ostream.digit ((n >>> UInt64.ofNat (i * 4)) &&& 0x0F).toUInt8.toNat)
    (List.range 16).reverse hon
  exact ⟨hlead.trans hdigits, hend⟩

theorem perform_onScreen (h : s.OnScreen) (op : ScreenOp) :
    s.Within (s.perform op) ∧ (s.perform op).OnScreen := by
  cases op with
  | putChar c => exact putChar_onScreen h c
  | print str => exact print_onScreen h str
  | printHex n => exact printHex_onScreen h n
  | clear => exact ⟨within_clear s, onScreen_clear s⟩

theorem init_onScreen (s : Screen) : s.Within s.init ∧ s.init.OnScreen := by
  have hreset : s.Within (setColor { s with x := 0, y := 0 } white black) :=
    ⟨fun _ ha => .inl ha, fun _ _ => rfl⟩
  rw [init]
  exact ⟨hreset.trans (within_clear _), onScreen_clear _⟩

/-! ## The same terminal -/

/-- The terminal with coordinates that cannot be negative. -/
def terminal (s : Screen) : Terminal where
  vidmem k := s.vidmem k
  x := s.x.toNat
  y := s.y.toNat
  currentColor := s.currentColor
  cursor := s.cursor

theorem terminal_store (s : Screen) (i : Nat) (v : UInt16) :
    (s.store i v).terminal = { s.terminal with
      vidmem := Function.update s.terminal.vidmem i v } := by
  have hcells : (fun k : Nat => Function.update s.vidmem (i : Int) v k) =
      Function.update (fun k : Nat => s.vidmem k) i v := by
    funext k
    by_cases hk : k = i
    · rw [hk, Function.update_self, Function.update_self]
    · rw [Function.update_of_ne hk,
        Function.update_of_ne fun h => hk (Int.ofNat_inj.1 h)]
  rw [terminal, store, hcells]
  rfl

theorem terminal_blankCells (s : Screen) (start n : Nat) :
    (s.blankCells start n).terminal = { s.terminal with
      vidmem := fill s.terminal.vidmem start n (s.cell blank) } := by
  induction n generalizing s start with
  | zero => rfl
  | succ n ih =>
      have hcell : (s.store start (s.cell blank)).cell blank = s.cell blank := rfl
      have hcells : s.blankCells start (n + 1) =
          (s.store start (s.cell blank)).blankCells (start + 1) n := rfl
      rw [hcells, ih, terminal_store, hcell]
      rfl

theorem terminal_copyCells (s : Screen) (n d : Nat) :
    (s.copyCells n d).terminal = { s.terminal with
      vidmem := copyBack s.terminal.vidmem n d } := by
  rw [copyCells, copyBack]
  generalize List.range n = l
  induction l generalizing s with
  | nil => rfl
  | cons i l ih =>
      have hcopy : (s.copy i (i + d)).terminal = { s.terminal with
          vidmem := Function.update s.terminal.vidmem i
            (s.terminal.vidmem (i + d)) } :=
        terminal_store { s with accesses := ⟨(i : Int) + d, false⟩ :: s.accesses }
          i _
      rw [List.foldl_cons, ih, hcopy]
      rfl

theorem terminal_moved (s : Screen) (x y : Int) :
    terminal { s with x := x, y := y } =
      { s.terminal with x := x.toNat, y := y.toNat } := rfl

theorem terminal_updateCursor (hx : 0 ≤ s.x) (hy : 0 ≤ s.y) :
    s.updateCursor.terminal = s.terminal.updateCursor := by
  have hpos : s.y * 80 + s.x = ((s.y.toNat * 80 + s.x.toNat : Nat) : Int) := by
    omega
  have hcursor : UInt16.ofInt (s.y * 80 + s.x) =
      UInt16.ofNat (s.y.toNat * 80 + s.x.toNat) := by
    rw [hpos]
    exact UInt16.ofNat_mod_size
  rw [updateCursor, hcursor]
  rfl

theorem terminal_storeAt (hx : 0 ≤ s.x) (hy : 0 ≤ s.y) (c : UInt8) :
    (s.store (s.y * 80 + s.x) (s.cell c)).terminal = s.terminal.store c := by
  have hpos : s.y * 80 + s.x = ((s.y.toNat * 80 + s.x.toNat : Nat) : Int) := by
    omega
  rw [hpos, terminal_store]
  rfl

theorem terminal_scrollUp (s : Screen) :
    s.scrollUp.terminal = s.terminal.scrollUp := by
  have hcell : (s.copyCells (24 * 80) 80).cell blank = s.cell blank := by
    rw [cell, cell, copyCells, foldl_field currentColor]
    exact fun _ _ => rfl
  have hcells := terminal_blankCells (s.copyCells (24 * 80) 80) (24 * 80) 80
  have hblank : s.cell blank = s.terminal.cell blank := rfl
  rw [terminal_copyCells, hcell, hblank] at hcells
  rw [scrollUp, terminal_moved, hcells, blankCells_x, copyCells_x,
    Terminal.scrollUp]
  dsimp only
  rfl

theorem terminal_settle (hx : 0 ≤ s.x) (hy : 0 ≤ s.y) :
    (let t := if s.x ≥ 80 then { s with x := 0, y := s.y + 1 } else s
      let t := if t.y ≥ 25 then t.scrollUp else t
      t.updateCursor).terminal =
    (let t := if s.terminal.x ≥ 80 then
        { s.terminal with x := 0, y := s.terminal.y + 1 } else s.terminal
      let t := if t.y ≥ 25 then t.scrollUp else t
      t.updateCursor) := by
  have hend : ∀ t : Screen, 0 ≤ t.x → 0 ≤ t.y →
      (if t.y ≥ 25 then t.scrollUp else t).updateCursor.terminal =
        (if t.terminal.y ≥ 25 then t.terminal.scrollUp
          else t.terminal).updateCursor := by
    intro t htx hty
    have hiff : t.terminal.y ≥ 25 ↔ t.y ≥ 25 := by
      show t.y.toNat ≥ 25 ↔ _
      omega
    by_cases hfull : t.y ≥ 25
    · rw [if_pos hfull, if_pos (hiff.2 hfull), terminal_updateCursor,
        terminal_scrollUp]
      · rw [scrollUp_x]
        exact htx
      · exact (by decide : (0 : Int) ≤ 24)
    · rw [if_neg hfull, if_neg fun h => hfull (hiff.1 h),
        terminal_updateCursor htx hty]
  have hiff : s.terminal.x ≥ 80 ↔ s.x ≥ 80 := by
    show s.x.toNat ≥ 80 ↔ _
    omega
  have hsucc : (s.y + 1).toNat = s.y.toNat + 1 := by omega
  simp only
  by_cases hfull : s.x ≥ 80
  · rw [if_pos hfull, if_pos (hiff.2 hfull),
      hend _ (Int.le_refl 0) (by show 0 ≤ s.y + 1; omega), terminal_moved, hsucc]
    rfl
  · rw [if_neg hfull, if_neg fun h => hfull (hiff.1 h), hend s hx hy]

/-- On the screen the coordinates never have to be negative. -/
theorem terminal_putChar (h : s.OnScreen) (c : UInt8) :
    (s.putChar c).terminal = s.terminal.putChar c := by
  obtain ⟨hx, hx', hy, hy'⟩ := h
  have herase : ∀ x y : Int, 0 ≤ x → 0 ≤ y →
      ((({ s with x := x, y := y } : Screen).store (y * 80 + x)
        (s.cell blank)).updateCursor).terminal =
      (({ s.terminal with x := x.toNat, y := y.toNat } : Terminal).store
        blank).updateCursor := by
    intro x y hx hy
    rw [terminal_updateCursor hx hy]
    exact congrArg Terminal.updateCursor
      (@terminal_storeAt { s with x := x, y := y } hx hy blank)
  have hxpos : s.terminal.x > 0 ↔ s.x > 0 := by
    show s.x.toNat > 0 ↔ _
    omega
  have hypos : s.terminal.y > 0 ↔ s.y > 0 := by
    show s.y.toNat > 0 ↔ _
    omega
  rw [putChar, Terminal.putChar]
  by_cases hback : c = backspace
  · rw [if_pos hback, if_pos hback]
    by_cases hleft : s.x > 0
    · have hpred : (s.x - 1).toNat = s.x.toNat - 1 := by omega
      have hstored := herase (s.x - 1) s.y (by omega) hy
      rw [hpred] at hstored
      rw [if_pos hleft, if_pos (hxpos.2 hleft)]
      exact hstored
    · rw [if_neg hleft, if_neg fun h => hleft (hxpos.1 h)]
      by_cases hup : s.y > 0
      · have hpred : (s.y - 1).toNat = s.y.toNat - 1 := by omega
        have hstored := herase 79 (s.y - 1) (by decide) (by omega)
        rw [hpred] at hstored
        rw [if_pos hup, if_pos (hypos.2 hup)]
        exact hstored
      · rw [if_neg hup, if_neg fun h => hup (hypos.1 h),
          terminal_updateCursor hx hy]
  · rw [if_neg hback, if_neg hback]
    by_cases hnew : c = newline
    · have hsucc : (s.y + 1).toNat = s.y.toNat + 1 := by omega
      simp only [if_pos hnew]
      have hsettle := @terminal_settle { s with x := 0, y := s.y + 1 }
        (Int.le_refl 0) (by show 0 ≤ s.y + 1; omega)
      have hmoved : terminal { s with x := 0, y := s.y + 1 } =
          { s.terminal with x := 0, y := s.terminal.y + 1 } := by
        rw [terminal_moved, hsucc]
        rfl
      rw [hmoved] at hsettle
      exact hsettle
    · have hsucc : (s.x + 1).toNat = s.x.toNat + 1 := by omega
      simp only [if_neg hnew]
      have hsettle := @terminal_settle
        { s.store (s.y * 80 + s.x) (s.cell c) with x := s.x + 1 }
        (by show 0 ≤ s.x + 1; omega) hy
      have hmoved : terminal
          { s.store (s.y * 80 + s.x) (s.cell c) with x := s.x + 1 } =
          { s.terminal.store c with x := s.terminal.x + 1 } := by
        rw [terminal_moved, hsucc, terminal_storeAt hx hy]
        rfl
      rw [hmoved] at hsettle
      exact hsettle

theorem terminal_print (h : s.OnScreen) (str : List UInt8) :
    (s.print str).terminal = s.terminal.print str := by
  rw [print, Terminal.print]
  generalize str.takeWhile (· ≠ 0) = l
  induction l generalizing s with
  | nil => rfl
  | cons c l ih =>
      rw [List.foldl_cons, List.foldl_cons, ih (putChar_onScreen h c).2,
        terminal_putChar h]

theorem terminal_clear (s : Screen) : s.clear.terminal = s.terminal.clear := by
  have hblank : s.cell blank = s.terminal.cell blank := rfl
  rw [clear, terminal_updateCursor (Int.le_refl 0) (Int.le_refl 0),
    terminal_moved, terminal_blankCells, hblank, Terminal.clear]
  dsimp only
  rfl

theorem terminal_init (s : Screen) : s.init.terminal = s.terminal.init := by
  rw [init, terminal_clear]
  rfl

end Screen

/-- After `init`, whatever is printed and cleared: the cursor is on the screen
after every operation, and every cell that has been read or written is one of
the 2000. -/
theorem cursor_on_screen {s s' : Screen} {ops : List ScreenOp}
    (hrun : Trace Screen.Step s.init ops s') :
    (0 ≤ s'.x ∧ s'.x < 80 ∧ 0 ≤ s'.y ∧ s'.y < 25) ∧
      ∀ a ∈ s'.accesses,
        a ∈ s.accesses ∨ (0 ≤ a.index ∧ a.index ≤ 1999) := by
  have hinit := s.init_onScreen
  obtain ⟨hwithin, hon⟩ : s.Within s' ∧ s'.OnScreen := by
    refine hrun.invariant (I := fun t => s.Within t ∧ t.OnScreen) ?_ hinit
    rintro t op t' ⟨hwithin, hon⟩ rfl
    obtain ⟨hstep, hon'⟩ := Screen.perform_onScreen hon op
    exact ⟨hwithin.trans hstep, hon'⟩
  exact ⟨⟨hon.x_nonneg, hon.x_lt, hon.y_nonneg, hon.y_lt⟩, hwithin.accesses⟩

/-- A terminal that nothing has set up. -/
def unset : Screen := ⟨fun _ => 0, 90, -1, 0, 0, []⟩

/-- A backspace at the origin, and an address in hexadecimal. -/
theorem cursor_on_screen_hex :
    (0 ≤ ((unset.init.putChar backspace).printHex 0xB8000).x ∧
        ((unset.init.putChar backspace).printHex 0xB8000).x < 80 ∧
        0 ≤ ((unset.init.putChar backspace).printHex 0xB8000).y ∧
        ((unset.init.putChar backspace).printHex 0xB8000).y < 25) ∧
      ∀ a ∈ ((unset.init.putChar backspace).printHex 0xB8000).accesses,
        a ∈ unset.accesses ∨ (0 ≤ a.index ∧ a.index ≤ 1999) := by
  have hrun : Trace Screen.Step unset.init
      [.putChar backspace, .printHex 0xB8000]
      ((unset.init.putChar backspace).printHex 0xB8000) :=
    .cons rfl (.cons rfl (.nil _))
  exact cursor_on_screen hrun

end TermOS.Console
