import TermOS.Proofs.Screen

/-!
# Who has printed what is on the screen

A sheet of paper beside the screen remembers for each cell the stream and the
byte that were printed there, and nothing for a cell that is blank. A cell of
the screen that shows a printed byte is then what `put_char` makes of that byte
in the color of its stream, wherever it has been scrolled to. What it makes of
it is a matter of the sign of a `char`: from 0x80 on the sign is in the high
byte too, and covers the color.
-/

namespace TermOS.Console

open TermOS.Lib

inductive Stream where
  | cout
  | cerr
  deriving DecidableEq, Repr

/-- The color of what a stream prints, on black. -/
def Stream.color : Stream → UInt8
  | .cout => white
  | .cerr => red

namespace Terminal

variable {t : Terminal} {c : UInt8} {k : Nat}

/-- `write_to_stream`, with the functions that `vfs_init` has put into the two
files. -/
def write (t : Terminal) : Stream × List UInt8 → Terminal
  | (.cout, str) => t.vgaWrite str
  | (.cerr, str) => t.vgaWriteErr str

/-- The high byte of a cell. -/
def colorByte (t : Terminal) (k : Nat) : UInt8 := (t.vidmem k >>> 8).toUInt8

/-- The sign of the character is in every bit of the high byte. -/
theorem getElem_colorByte_cell (t : Terminal) (c : UInt8) (i : Nat)
    (hi : i < 8) : ((t.cell c >>> 8).toUInt8.toBitVec)[i] =
      (c.toBitVec.msb || t.currentColor.toBitVec[i]) := by
  have hhigh : ¬ 8 + i < 8 := by omega
  have hwidth : 8 + i < 16 := by omega
  have hlow : i < 16 := by omega
  simp [cell, BitVec.getElem_signExtend, BitVec.getLsbD_eq_getElem, hi, hhigh,
    hwidth, hlow]

theorem msb_eq_false_iff (c : UInt8) : c.toBitVec.msb = false ↔ c < 0x80 := by
  rw [BitVec.msb_eq_false_iff_two_mul_lt, UInt8.lt_iff_toNat_lt]
  show 2 * c.toNat < 2 ^ 8 ↔ c.toNat < 128
  omega

/-- Below 0x80 the color is what it was. -/
theorem colorByte_cell (h : c < 0x80) :
    (t.cell c >>> 8).toUInt8 = t.currentColor := by
  apply UInt8.toBitVec_inj.1
  ext i hi
  rw [getElem_colorByte_cell t c i hi, (msb_eq_false_iff c).2 h, Bool.false_or]

/-- From 0x80 on there is white on bright white, blinking. -/
theorem colorByte_cell_signed (h : ¬ c < 0x80) :
    (t.cell c >>> 8).toUInt8 = 0xFF := by
  apply UInt8.toBitVec_inj.1
  ext i hi
  have hmsb : c.toBitVec.msb = true :=
    Bool.eq_true_of_not_eq_false fun hn => h ((msb_eq_false_iff c).1 hn)
  have hone : ∀ i (hi : i < 8), ((0xFF : UInt8).toBitVec)[i] = true := by
    decide
  rw [getElem_colorByte_cell t c i hi, hmsb, Bool.true_or, hone i hi]

theorem color_ne (s : Stream) : s.color ≠ 0xFF := by
  cases s <;> decide

end Terminal

/-! ## The paper -/

structure Paper where
  cells : Nat → Option (Stream × UInt8)
  x : Nat
  y : Nat

namespace Paper

def empty : Paper := ⟨fun _ => none, 0, 0⟩

def newRow (p : Paper) : Paper :=
  if p.y + 1 < 25 then { p with x := 0, y := p.y + 1 }
  else
    { cells := fill (copyBack p.cells (24 * 80) 80) (24 * 80) 80 none
      x := 0
      y := 24 }

def ink (p : Paper) (s : Stream) (c : UInt8) : Paper :=
  { p with
    cells := Function.update p.cells (p.y * 80 + p.x) (some (s, c))
    x := p.x + 1 }

def eraseAt (p : Paper) (x y : Nat) : Paper :=
  { cells := Function.update p.cells (y * 80 + x) none, x := x, y := y }

/-- A character that a stream prints. -/
def put (p : Paper) (s : Stream) (c : UInt8) : Paper :=
  if c = backspace then
    if p.x > 0 then p.eraseAt (p.x - 1) p.y
    else if p.y > 0 then p.eraseAt 79 (p.y - 1)
    else p
  else if c = newline then p.newRow
  else if p.x + 1 = 80 then (p.ink s c).newRow
  else p.ink s c

def write (p : Paper) (w : Stream × List UInt8) : Paper :=
  (w.2.takeWhile (· ≠ 0)).foldl (fun p c => p.put w.1 c) p

/-- The cells of the screen are those of the paper, each in the color of its
stream, and the cursor is at the same place. -/
structure Inks (p : Paper) (t : Terminal) : Prop where
  x : t.x = p.x
  y : t.y = p.y
  x_lt : p.x < 80
  y_lt : p.y < 25
  cells : ∀ k < 2000, ∀ s c, p.cells k = some (s, c) →
    t.vidmem k = Terminal.cell { t with currentColor := s.color } c

variable {p : Paper} {t : Terminal} {s : Stream} {c : UInt8} {k : Nat}

theorem inks_init (t : Terminal) : empty.Inks t.init :=
  ⟨rfl, rfl, by decide, by decide, fun _ _ _ _ h => nomatch h⟩

/-- A cell is a matter of its color. -/
theorem cell_congr {t t' : Terminal} (h : t.currentColor = t'.currentColor)
    (c : UInt8) : t.cell c = t'.cell c := by
  rw [Terminal.cell, Terminal.cell, h]

theorem Inks.updateCursor (h : p.Inks t) : p.Inks t.updateCursor :=
  ⟨h.x, h.y, h.x_lt, h.y_lt, h.cells⟩

theorem Inks.setColor (h : p.Inks t) (fg bg : UInt8) :
    p.Inks (t.setColor fg bg) := ⟨h.x, h.y, h.x_lt, h.y_lt, h.cells⟩

theorem Inks.eraseAt (h : p.Inks t) {x y : Nat} (hx : x < 80) (hy : y < 25) :
    (p.eraseAt x y).Inks (Terminal.store { t with x := x, y := y } blank) := by
  refine ⟨rfl, rfl, hx, hy, ?_⟩
  intro k hk s c hcell
  by_cases hhere : k = y * 80 + x
  · rw [Paper.eraseAt, hhere] at hcell
    simp at hcell
  · simp only [Paper.eraseAt, Function.update_of_ne hhere] at hcell
    simp only [Terminal.store, Function.update_of_ne hhere]
    exact h.cells k hk s c hcell

/-- The state behind a store, before the row is looked at. -/
theorem Inks.ink (h : p.Inks t) (hcolor : t.currentColor = s.color)
    (c : UInt8) : ∀ k < 2000, ∀ s' c', (p.ink s c).cells k = some (s', c') →
      (t.store c).vidmem k =
        Terminal.cell { t with currentColor := s'.color } c' := by
  intro k hk s' c' hcell
  by_cases hhere : k = p.y * 80 + p.x
  · simp only [Paper.ink, hhere, Function.update_self, Option.some.injEq,
      Prod.mk.injEq] at hcell
    obtain ⟨rfl, rfl⟩ := hcell
    simp only [Terminal.store, h.x, h.y, hhere, Function.update_self]
    exact cell_congr hcolor c
  · simp only [Paper.ink, Function.update_of_ne hhere] at hcell
    simp only [Terminal.store, h.x, h.y, Function.update_of_ne hhere]
    exact h.cells k hk s' c' hcell

/-- A new row moves the paper and the screen alike. -/
theorem inks_newRow (hy : t.y = p.y) (hlt : p.y < 25)
    (hcells : ∀ k < 2000, ∀ s c, p.cells k = some (s, c) →
      t.vidmem k = Terminal.cell { t with currentColor := s.color } c) :
    p.newRow.Inks t.newRow := by
  rw [Paper.newRow, Terminal.newRow]
  simp only [hy]
  by_cases hroom : p.y + 1 < 25
  · rw [if_pos hroom, if_neg (by omega)]
    exact ⟨rfl, rfl, (by decide : 0 < 80), hroom, hcells⟩
  · rw [if_neg hroom, if_pos (by omega)]
    refine ⟨rfl, rfl, (by decide : 0 < 80), (by decide : 24 < 25), ?_⟩
    intro k hk s c hcell
    simp only [fill_apply, copyBack_apply _ _ (by decide : 0 < 80)] at hcell
    simp only [Terminal.scrollUp, fill_apply,
      copyBack_apply _ _ (by decide : 0 < 80)]
    by_cases hlow : k < 1920
    · rw [if_neg (by omega), if_pos (by omega)] at hcell ⊢
      exact hcells (k + 80) (by omega) s c hcell
    · rw [if_pos (by omega)] at hcell
      cases hcell

theorem Inks.put (h : p.Inks t) (hcolor : t.currentColor = s.color)
    (c : UInt8) : (p.put s c).Inks (t.putChar c) := by
  have hx := h.x_lt
  have hy := h.y_lt
  by_cases hback : c = backspace
  · rw [Paper.put, Terminal.putChar, if_pos hback, if_pos hback, h.x, h.y]
    by_cases hleft : p.x > 0
    · rw [if_pos hleft, if_pos hleft]
      have herase := h.eraseAt (x := p.x - 1) (y := p.y) (by omega) hy
      rw [← h.y] at herase
      rw [← h.y]
      exact herase.updateCursor
    · rw [if_neg hleft, if_neg hleft]
      by_cases hup : p.y > 0
      · rw [if_pos hup, if_pos hup]
        exact (h.eraseAt (by decide) (by omega)).updateCursor
      · rw [if_neg hup, if_neg hup]
        exact h.updateCursor
  · have htx : t.x < 80 := h.x ▸ hx
    have hty : t.y < 25 := h.y ▸ hy
    rw [Paper.put, if_neg hback, Terminal.putChar_eq htx hty hback, h.x]
    refine Inks.updateCursor ?_
    have hink := h.ink hcolor c
    by_cases hnew : c = newline
    · rw [if_pos hnew, if_pos hnew]
      exact inks_newRow h.y hy h.cells
    · rw [if_neg hnew, if_neg hnew]
      by_cases hfull : p.x + 1 = 80
      · rw [if_pos hfull, if_pos hfull]
        exact inks_newRow h.y hy hink
      · rw [if_neg hfull, if_neg hfull]
        exact ⟨rfl, h.y, by show p.x + 1 < 80; omega, hy, hink⟩

/-- A character that is printed can be seen, if only in the row above the new
one. -/
theorem exists_put (hx : p.x < 80) (hy : p.y < 25) (hback : c ≠ backspace)
    (hnew : c ≠ newline) : ∃ k < 2000, (p.put s c).cells k = some (s, c) := by
  have hink : (p.ink s c).cells (p.y * 80 + p.x) = some (s, c) :=
    Function.update_self _ _ _
  rw [Paper.put, if_neg hback, if_neg hnew]
  by_cases hfull : p.x + 1 = 80
  · rw [if_pos hfull, Paper.newRow]
    by_cases hroom : (p.ink s c).y + 1 < 25
    · rw [if_pos hroom]
      exact ⟨p.y * 80 + p.x, by omega, hink⟩
    · have hlast : p.y = 24 := by
        have heq : (p.ink s c).y = p.y := rfl
        omega
      refine ⟨23 * 80 + 79, by omega, ?_⟩
      rw [if_neg hroom]
      simp only [fill_apply, copyBack_apply _ _ (by decide : 0 < 80)]
      rw [if_neg (by omega), if_pos (by omega)]
      rw [hlast, show 24 * 80 + p.x = 23 * 80 + 79 + 80 by omega] at hink
      exact hink
  · rw [if_neg hfull]
    exact ⟨p.y * 80 + p.x, by omega, hink⟩

/-! ## What is on the paper has been printed -/

/-- Every character on the paper has a property. -/
def All (P : UInt8 → Prop) (p : Paper) : Prop :=
  ∀ k s c, p.cells k = some (s, c) → P c

variable {P : UInt8 → Prop}

theorem All.update (h : p.All P) {v : Option (Stream × UInt8)}
    (hv : ∀ s c, v = some (s, c) → P c) (k x y : Nat) :
    Paper.All P ⟨Function.update p.cells k v, x, y⟩ := by
  intro j s c hcell
  by_cases hj : j = k
  · rw [hj] at hcell
    simp only [Function.update_self] at hcell
    exact hv s c hcell
  · simp only [Function.update_of_ne hj] at hcell
    exact h j s c hcell

theorem All.newRow (h : p.All P) : p.newRow.All P := by
  rw [Paper.newRow]
  split
  · exact h
  · intro k s c hcell
    simp only [fill_apply, copyBack_apply _ _ (by decide : 0 < 80)] at hcell
    split at hcell
    · cases hcell
    · split at hcell
      · exact h _ s c hcell
      · exact h _ s c hcell

theorem All.put (h : p.All P) (hc : P c) : (p.put s c).All P := by
  have hink : (p.ink s c).All P := by
    refine h.update ?_ _ _ _
    rintro s' c' heq
    cases heq
    exact hc
  have herase : ∀ x y, (p.eraseAt x y).All P := by
    intro x y
    refine h.update (v := none) ?_ _ _ _
    rintro s' c' heq
    cases heq
  rw [Paper.put]
  split
  · split
    · exact herase _ _
    · split
      · exact herase _ _
      · exact h
  · split
    · exact h.newRow
    · split
      · exact hink.newRow
      · exact hink

theorem All.foldl (h : p.All P) {str : List UInt8} (hstr : ∀ c ∈ str, P c) :
    (str.foldl (fun p c => p.put s c) p).All P := by
  induction str generalizing p with
  | nil => exact h
  | cons c str ih =>
      exact ih (h.put (hstr c List.mem_cons_self))
        fun d hd => hstr d (List.mem_cons_of_mem c hd)

/-! ## Strings -/

theorem currentColor_putChar (t : Terminal) (c : UInt8) :
    (t.putChar c).currentColor = t.currentColor := by
  rw [Terminal.putChar]
  split
  · split
    · rfl
    · split <;> rfl
  · simp only [Terminal.updateCursor]
    split <;> split <;> split <;> rfl

theorem Inks.foldl (h : p.Inks t) (hcolor : t.currentColor = s.color)
    (str : List UInt8) :
    (str.foldl (fun p c => p.put s c) p).Inks (str.foldl Terminal.putChar t) := by
  induction str generalizing p t with
  | nil => exact h
  | cons c str ih =>
      exact ih (h.put hcolor c) ((currentColor_putChar t c).trans hcolor)

/-- Between two strings the color is that of `std::cout`. -/
structure InksWhite (p : Paper) (t : Terminal) : Prop where
  inks : p.Inks t
  color : t.currentColor = Stream.cout.color

theorem currentColor_foldl (t : Terminal) (str : List UInt8) :
    (str.foldl Terminal.putChar t).currentColor = t.currentColor := by
  induction str generalizing t with
  | nil => rfl
  | cons c str ih => rw [List.foldl_cons, ih, currentColor_putChar]

theorem InksWhite.write (h : p.InksWhite t) (w : Stream × List UInt8) :
    (p.write w).InksWhite (t.write w) := by
  obtain ⟨s, str⟩ := w
  cases s with
  | cout =>
      refine ⟨h.inks.foldl h.color _, ?_⟩
      exact (currentColor_foldl t _).trans h.color
  | cerr =>
      have hred : (t.setColor red black).currentColor = Stream.cerr.color := rfl
      exact ⟨((h.inks.setColor red black).foldl hred _).setColor white black, rfl⟩

end Paper

/-! ## Histories -/

/-- What is on the screen after strings to the two streams, from the start
on. -/
def screenAfter (t : Terminal) (ws : List (Stream × List UInt8)) : Terminal :=
  ws.foldl Terminal.write t.init

def paperAfter (ws : List (Stream × List UInt8)) : Paper :=
  ws.foldl Paper.write .empty

/-- The cells that show a printed byte have it in their low byte, and in their
high byte the color of the stream that printed it. -/
def KeepsColors (t : Terminal) (p : Paper) : Prop :=
  ∀ k < 2000, ∀ s c, p.cells k = some (s, c) →
    t.colorByte k = s.color ∧ t.glyph k = c

/-- The bytes of a string in front of its terminating zero. -/
def printed (w : Stream × List UInt8) : List UInt8 := w.2.takeWhile (· ≠ 0)

theorem inksWhite_after (t : Terminal) (ws : List (Stream × List UInt8)) :
    (paperAfter ws).InksWhite (screenAfter t ws) := by
  rw [paperAfter, screenAfter]
  induction ws using List.reverseRecOn with
  | nil => exact ⟨Paper.inks_init t, rfl⟩
  | append_singleton ws w ih =>
      rw [List.foldl_append, List.foldl_append]
      exact ih.write w

/-- The law is broken by the bytes from 0x80 on that can be seen, and by no
others. -/
theorem keepsColors_iff_visible (t : Terminal)
    (ws : List (Stream × List UInt8)) :
    KeepsColors (screenAfter t ws) (paperAfter ws) ↔
      ∀ k < 2000, ∀ s c, (paperAfter ws).cells k = some (s, c) → c < 0x80 := by
  have hinks := (inksWhite_after t ws).inks
  refine ⟨?_, ?_⟩
  · intro hkeeps k hk s c hcell
    by_contra hsigned
    have hcolor := (hkeeps k hk s c hcell).1
    rw [Terminal.colorByte, hinks.cells k hk s c hcell,
      Terminal.colorByte_cell_signed hsigned] at hcolor
    exact Terminal.color_ne s hcolor.symm
  · intro hlow k hk s c hcell
    rw [Terminal.colorByte, Terminal.glyph, hinks.cells k hk s c hcell]
    exact ⟨Terminal.colorByte_cell (hlow k hk s c hcell),
      Terminal.toUInt8_cell _ c⟩

theorem all_paperAfter {P : UInt8 → Prop} (ws : List (Stream × List UInt8))
    (h : ∀ w ∈ ws, ∀ c ∈ printed w, P c) : (paperAfter ws).All P := by
  rw [paperAfter]
  induction ws using List.reverseRecOn with
  | nil => exact fun _ _ _ hcell => nomatch hcell
  | append_singleton ws w ih =>
      rw [List.foldl_append]
      refine (ih fun w' hw' => h w' (List.mem_append_left _ hw')).foldl ?_
      exact h w (List.mem_append_right _ (List.mem_singleton.2 rfl))

/-- A byte that is printed last can be seen. -/
theorem visible_last (ws : List (Stream × List UInt8)) (s : Stream)
    {str : List UInt8} {c : UInt8} (hstr : ∀ d ∈ str, d ≠ 0) (hc : ¬ c < 0x80) :
    ∃ k < 2000, (paperAfter (ws ++ [(s, str ++ [c])])).cells k =
      some (s, c) := by
  have hzero : c ≠ 0 := by
    rintro rfl
    exact hc (by decide)
  have hback : c ≠ backspace := by
    rintro rfl
    exact hc (by decide)
  have hnew : c ≠ newline := by
    rintro rfl
    exact hc (by decide)
  have hwhole := Terminal.takeWhile_ne_zero (List.forall_mem_append.2
    ⟨hstr, List.forall_mem_singleton.2 hzero⟩)
  have hbefore : (paperAfter (ws ++ [(s, str)])).Inks
      (screenAfter ⟨fun _ => 0, 0, 0, 0, 0⟩ (ws ++ [(s, str)])) :=
    (inksWhite_after _ _).inks
  have hstr' := Terminal.takeWhile_ne_zero hstr
  have hpaper : paperAfter (ws ++ [(s, str ++ [c])]) =
      (paperAfter (ws ++ [(s, str)])).put s c := by
    rw [paperAfter, paperAfter, List.foldl_append, List.foldl_append]
    show Paper.write _ _ = Paper.put (Paper.write _ _) s c
    rw [Paper.write, Paper.write]
    show ((str ++ [c]).takeWhile (· ≠ 0)).foldl _ _ =
      Paper.put ((str.takeWhile (· ≠ 0)).foldl _ _) s c
    rw [hwhole, hstr', List.foldl_append]
    rfl
  rw [hpaper]
  exact Paper.exists_put hbefore.x_lt hbefore.y_lt hback hnew

/-- Over any history of strings to the two streams, in any order: the cells keep
the colors behind every byte of it if and only if no byte is printed from 0x80
on. -/
theorem keeps_colors_iff (t : Terminal) (ws : List (Stream × List UInt8)) :
    (∀ before s str rest after, ws = before ++ (s, str ++ rest) :: after →
      KeepsColors (screenAfter t (before ++ [(s, str)]))
        (paperAfter (before ++ [(s, str)]))) ↔
      ∀ w ∈ ws, ∀ c ∈ printed w, c < 0x80 := by
  refine ⟨?_, ?_⟩
  · rintro hkeeps ⟨s, str⟩ hw c hc
    obtain ⟨before, after, rfl⟩ := List.append_of_mem hw
    by_contra hsigned
    -- Up to the byte and no further, so that it is still there.
    obtain ⟨u, v, huv⟩ := List.append_of_mem hc
    have hsplit : str = u ++ [c] ++
        (v ++ str.dropWhile (· ≠ 0)) := by
      have hall := (List.takeWhile_append_dropWhile (p := (· ≠ 0)) (l := str))
      have huv' : str.takeWhile (· ≠ 0) = u ++ c :: v := huv
      rw [huv'] at hall
      rw [← List.append_assoc, List.append_assoc u]
      exact hall.symm
    have hu : ∀ d ∈ u, d ≠ 0 := by
      intro d hd
      have hmem : d ∈ str.takeWhile (· ≠ 0) := by
        have huv' : str.takeWhile (· ≠ 0) = u ++ c :: v := huv
        rw [huv']
        exact List.mem_append_left _ hd
      have hd := List.mem_takeWhile_imp hmem
      exact of_decide_eq_true hd
    have hlaw := hkeeps before s (u ++ [c]) (v ++ str.dropWhile (· ≠ 0)) after
      (by rw [← hsplit])
    obtain ⟨k, hk, hcell⟩ := visible_last before s hu hsigned
    exact hsigned ((keepsColors_iff_visible t _).1 hlaw k hk s c hcell)
  · rintro hlow before s str rest after rfl
    refine (keepsColors_iff_visible t _).2 fun k _ s' c hcell => ?_
    refine all_paperAfter (P := fun c => c < 0x80) _ ?_ k s' c hcell
    intro w hw c hc
    rcases List.mem_append.1 hw with hl | hr
    · exact hlow w (List.mem_append_left _ hl) c hc
    · rw [List.mem_singleton.1 hr] at hc
      refine hlow (s, str ++ rest) (List.mem_append_right _
        List.mem_cons_self) c ?_
      rw [printed, List.takeWhile_append]
      split
      · exact List.mem_append_left _ ((List.takeWhile_sublist _).subset hc)
      · exact hc

/-- One byte of a text that is not in English. -/
theorem not_keepsColors_accent :
    ¬ KeepsColors (screenAfter ⟨fun _ => 0, 0, 0, 0, 0⟩ [(.cout, [0xE9])])
      (paperAfter [(.cout, [0xE9])]) := by
  intro hkeeps
  have hsigned : ¬ (0xE9 : UInt8) < 0x80 := by decide
  obtain ⟨k, hk, hcell⟩ := @visible_last [] .cout [] 0xE9
    (fun d hd => nomatch hd) hsigned
  exact hsigned ((keepsColors_iff_visible _ _).1 hkeeps k hk _ _ hcell)

end TermOS.Console
