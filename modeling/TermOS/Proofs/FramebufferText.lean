import TermOS.Lib.TextScreen
import TermOS.Proofs.FramebufferScroll

/-!
# The text on the framebuffer

The console knows nothing but pixels. That they are text is a matter of where
the cursor goes: eight columns and sixteen rows of pixels at a time, so that
what is drawn is always a whole cell and a scroll moves whole rows of cells.
The pixels to the right of the last column and below the last row keep the
background, because a row of cells that would end there is scrolled instead.

So a memory shows a picture, pixel by pixel, the picture is that of a screen of
cells, and what the console does to the one is what a screen with a cursor does
to the other.
-/

namespace TermOS.Boot

open TermOS.Lib
open TermOS.Lib.MemOp

variable {info : BootInfo} {m : UInt32 → UInt8}

/-- A screen with room, and with rows that are long enough to scroll. -/
structure BootInfo.TextMode (info : BootInfo) : Prop extends info.HasRoom where
  long : info.screenWidth.toNat * 4 ≤ info.pitch.toNat

theorem BootInfo.HasRoom.scrollable (h : info.HasRoom) : info.Scrollable where
  bpp := h.bpp
  width := by
    have hwidth := h.width
    omega
  height := Nat.le_of_lt h.height
  pitch := h.pitch

theorem BootInfo.TextMode.longRows (h : info.TextMode) : info.LongRows := by
  have hheight := h.height
  have hbelow := h.below
  have hlong := h.long
  have hrows : info.pitch.toNat * info.screenHeight.toNat =
      (info.screenHeight.toNat - 1) * info.pitch.toNat + info.pitch.toNat := by
    rw [← Nat.succ_mul, Nat.mul_comm]
    congr 1
    omega
  refine ⟨.inr hlong, ?_⟩
  rw [BootInfo.reach, if_neg (by omega)]
  omega

/-! ## Pixels -/

/-- Pixels do not overlap. -/
theorem place_apart (h : info.Scrollable) {x y x' y' : Nat}
    (hx : x < info.screenWidth.toNat) (hx' : x' < info.screenWidth.toNat)
    (hne : ¬ (x' = x ∧ y' = y)) :
    info.place x' y' + info.pixelSize ≤ info.place x y ∨
      info.place x y + info.pixelSize ≤ info.place x' y' := by
  have hpitch := h.pitch
  have hcolumn := @block_le x _ info.pixelSize hx
  have hcolumn' := @block_le x' _ info.pixelSize hx'
  rw [BootInfo.place, BootInfo.place]
  rcases Nat.lt_trichotomy y' y with hlt | rfl | hgt
  · have hrow := row_le info hlt
    omega
  · rcases Nat.lt_trichotomy x' x with hlt | rfl | hgt
    · have hle := @block_le x' x info.pixelSize hlt
      omega
    · exact absurd ⟨rfl, rfl⟩ hne
    · have hle := @block_le x x' info.pixelSize hgt
      omega
  · have hrow := row_le info hgt
    omega

/-- The stores of a list of pixels, those that are on the screen. The color of
a pixel depends on nothing but its place. -/
def BootInfo.paint (info : BootInfo) (l : List (Nat × Nat))
    (f : Nat → Nat → UInt32) : List MemOp :=
  l.flatMap fun q =>
    if q.1 < info.screenWidth.toNat ∧ q.2 < info.screenHeight.toNat then
      info.pixelStores (f q.1 q.2)
        (info.framebufferAddr + UInt32.ofNat (info.place q.1 q.2))
    else []

theorem paint_cons (info : BootInfo) (q : Nat × Nat) (l : List (Nat × Nat))
    (f : Nat → Nat → UInt32) :
    info.paint (q :: l) f = info.paint [q] f ++ info.paint l f := by
  rw [BootInfo.paint, List.flatMap_cons, BootInfo.paint,
    List.flatMap_singleton, BootInfo.paint]

section Paint

variable {x y : Nat} (hx : x < info.screenWidth.toNat)
  (hy : y < info.screenHeight.toNat)

include hx hy

theorem pixel_paint_one (h : info.Scrollable) (q : Nat × Nat)
    (f : Nat → Nat → UInt32) :
    info.pixel (run m (info.paint [q] f)) x y =
      if (x, y) = q then info.colorBytes (f x y) else info.pixel m x y := by
  rw [BootInfo.paint, List.flatMap_singleton]
  by_cases hon : q.1 < info.screenWidth.toNat ∧ q.2 < info.screenHeight.toNat
  · have hend := (place_le h hon.1 hon.2).2
    have hlt := (rows_lt info).1
    have hlen := length_colorBytes h.bpp (f q.1 q.2)
    rw [if_pos hon, pixel_eq h _ hx hy, window_pixelStores h.bpp (by omega)]
    by_cases hsame : (x, y) = q
    · rw [if_pos hsame]
      subst hsame
      refine List.ext_getElem ?_ fun k hk hk' => ?_
      · rw [List.length_map, List.length_range, hlen]
      · rw [List.getElem_map, List.getElem_range, putAt_at _ _ hk',
          List.getD_eq_getElem _ _ hk']
    · have hapart := @place_apart info h q.1 q.2 x y hon.1 hx fun hboth =>
        hsame (Prod.ext hboth.1 hboth.2)
      rw [if_neg hsame, pixel_eq h _ hx hy]
      refine List.map_congr_left fun k hk => ?_
      have hk' := List.mem_range.1 hk
      exact putAt_of_not (by omega)
  · rw [if_neg hon, if_neg]
    · rfl
    · intro hsame
      subst hsame
      exact hon ⟨hx, hy⟩

theorem pixel_paint (h : info.Scrollable) (l : List (Nat × Nat))
    (f : Nat → Nat → UInt32) :
    info.pixel (run m (info.paint l f)) x y =
      if (x, y) ∈ l then info.colorBytes (f x y) else info.pixel m x y := by
  induction l generalizing m with
  | nil => exact (if_neg List.not_mem_nil).symm
  | cons q l ih =>
      rw [paint_cons, run_append, ih, pixel_paint_one hx hy h]
      by_cases hl : (x, y) ∈ l
      · rw [if_pos hl, if_pos (List.mem_cons_of_mem q hl)]
      · rw [if_neg hl]
        refine if_congr ⟨fun hq => hq ▸ List.mem_cons_self, fun hmem => ?_⟩
          rfl rfl
        exact (List.mem_cons.1 hmem).resolve_right hl

end Paint

/-- Nothing but the framebuffer is painted. -/
theorem run_paint_outside (h : info.HasRoom) (l : List (Nat × Nat))
    (f : Nat → Nat → UInt32) {a : UInt32} (ha : ¬ info.Inside a) :
    run m (info.paint l f) a = m a := by
  refine run_of_not_touched fun hmem => ha ?_
  rw [BootInfo.paint, List.flatMap_assoc] at hmem
  obtain ⟨q, -, hq⟩ := List.mem_flatMap.1 hmem
  by_cases hon : q.1 < info.screenWidth.toNat ∧ q.2 < info.screenHeight.toNat
  · have hend := (place_le h.scrollable hon.1 hon.2).2
    have hbelow := h.below
    have hplace : (info.framebufferAddr +
        UInt32.ofNat (info.place q.1 q.2)).toNat =
        info.framebufferAddr.toNat + info.place q.1 q.2 := by
      obtain ⟨hpos, -, -⟩ := h.bpp.pixelSize
      rw [UInt32.toNat_add, UInt32.toNat_ofNat',
        Nat.mod_eq_of_lt (show info.place q.1 q.2 < 2 ^ 32 by omega),
        Nat.mod_eq_of_lt (by omega)]
    rw [if_pos hon, touched_pixelStores h.bpp] at hq
    exact inside_addresses (by omega) (by omega) (by omega) a hq
  · rw [if_neg hon] at hq
    exact absurd hq List.not_mem_nil

theorem accesses_drawPixel_paint (h : info.Drawable) {x y : Nat}
    (hx : x < 2 ^ 32) (hy : y < 2 ^ 32) (f : Nat → Nat → UInt32) :
    accesses (drawPixel info (UInt32.ofNat x) (UInt32.ofNat y) (f x y)) =
      info.paint [(x, y)] f := by
  rw [BootInfo.paint, List.flatMap_singleton]
  split
  · next hon => exact accesses_drawPixel h hon.1 hon.2
  · next hoff =>
      rw [drawPixel_outside]
      · rfl
      · rw [UInt32.toNat_ofNat', UInt32.toNat_ofNat', Nat.mod_eq_of_lt hx,
          Nat.mod_eq_of_lt hy]
        exact hoff

theorem paint_flatMap {α : Type} (info : BootInfo) (l : List α)
    (g : α → List (Nat × Nat)) (f : Nat → Nat → UInt32) :
    info.paint (l.flatMap g) f = l.flatMap fun a => info.paint (g a) f :=
  List.flatMap_assoc

/-- Rows of columns of pixels. -/
def block (x y width height : Nat) : List (Nat × Nat) :=
  (List.range height).flatMap fun i =>
    (List.range width).map fun j => (x + j, y + i)

theorem mem_block {x y width height : Nat} {q : Nat × Nat} :
    q ∈ block x y width height ↔
      (x ≤ q.1 ∧ q.1 < x + width) ∧ y ≤ q.2 ∧ q.2 < y + height := by
  rw [block, List.mem_flatMap]
  refine ⟨?_, ?_⟩
  · rintro ⟨i, hi, hq⟩
    obtain ⟨j, hj, rfl⟩ := List.mem_map.1 hq
    have hi' := List.mem_range.1 hi
    have hj' := List.mem_range.1 hj
    refine ⟨⟨?_, ?_⟩, ?_, ?_⟩ <;> simp only <;> omega
  · rintro ⟨⟨hx, hx'⟩, hy, hy'⟩
    refine ⟨q.2 - y, List.mem_range.2 (by omega),
      List.mem_map.2 ⟨q.1 - x, List.mem_range.2 (by omega), ?_⟩⟩
    exact Prod.ext (by simp only; omega) (by simp only; omega)

/-- The loops of `clear`, and those at the end of `scroll`. -/
theorem paint_block (info : BootInfo) (x y width height : Nat)
    (f : Nat → Nat → UInt32) :
    info.paint (block x y width height) f =
      (List.range height).flatMap fun i =>
        (List.range width).flatMap fun j => info.paint [(x + j, y + i)] f := by
  rw [block, paint_flatMap]
  refine List.flatMap_congr fun i _ => ?_
  rw [BootInfo.paint, List.flatMap_map]
  refine List.flatMap_congr fun j _ => ?_
  rw [BootInfo.paint, List.flatMap_singleton]

/-! ## What the console draws -/

namespace FramebufferConsole

variable {c : FramebufferConsole}

theorem accesses_clear (h : c.bootInfo.Drawable) :
    accesses c.clear = c.bootInfo.paint
      (block 0 0 c.bootInfo.screenWidth.toNat c.bootInfo.screenHeight.toNat)
      fun _ _ => c.bgColor := by
  have hwidth := c.bootInfo.screenWidth.toNat_lt
  have hheight := c.bootInfo.screenHeight.toNat_lt
  have hrows := rangeU32_ofNat 0 c.bootInfo.screenHeight (by omega)
  have hcolumns := rangeU32_ofNat 0 c.bootInfo.screenWidth (by omega)
  rw [Nat.sub_zero] at hrows hcolumns
  rw [paint_block, clear, show (0 : UInt32) = UInt32.ofNat 0 from rfl, hrows,
    hcolumns, accesses_flatMap, List.flatMap_map]
  refine List.flatMap_congr fun i hi => ?_
  have hi' := List.mem_range.1 hi
  rw [accesses_flatMap, List.flatMap_map]
  refine List.flatMap_congr fun j hj => ?_
  have hj' := List.mem_range.1 hj
  exact accesses_drawPixel_paint h (by omega) (by omega) fun _ _ => c.bgColor

/-- Whatever was there, `clear` leaves the background. -/
theorem pixel_clear (h : c.bootInfo.Scrollable) {x y : Nat}
    (hx : x < c.bootInfo.screenWidth.toNat)
    (hy : y < c.bootInfo.screenHeight.toNat) :
    c.bootInfo.pixel (run m (accesses c.clear)) x y =
      c.bootInfo.colorBytes c.bgColor := by
  rw [accesses_clear h.bpp, pixel_paint hx hy h, if_pos]
  rw [mem_block, Nat.zero_add, Nat.zero_add]
  exact ⟨⟨Nat.zero_le x, hx⟩, Nat.zero_le y, hy⟩

/-- The color of a pixel in a cell with a character. -/
def glyphColor (c : FramebufferConsole) (ch : UInt8) (fg bg : UInt32)
    (x y : Nat) : UInt32 :=
  if c.fontBits ch ⟨y % 16, Nat.mod_lt y (by decide)⟩ &&&
      (0x80 >>> UInt8.ofNat (x % 8)) ≠ 0 then fg
  else bg

theorem accesses_value (v : Int) (es : List Event) :
    accesses (.value v :: es) = accesses es := rfl

theorem accesses_drawCharAt (h : c.bootInfo.Drawable) {col row : Nat}
    (hcol : 8 * col + 8 ≤ 2 ^ 32) (hrow : 16 * row + 16 ≤ 2 ^ 32)
    (ch : UInt8) (fg bg : UInt32) :
    accesses (c.drawCharAt (UInt32.ofNat (8 * col)) (UInt32.ofNat (16 * row))
      ch fg bg) =
      c.bootInfo.paint (block (8 * col) (16 * row) 8 16)
        (c.glyphColor ch fg bg) := by
  rw [paint_block, ← @List.map_coe_finRange_eq_range 16, List.flatMap_map]
  show accesses ((List.finRange 16).flatMap _) = _
  rw [accesses_flatMap]
  refine List.flatMap_congr fun i _ => ?_
  have hi := i.isLt
  rw [accesses_value, accesses_flatMap]
  refine List.flatMap_congr fun j hj => ?_
  have hj' := List.mem_range.1 hj
  have hx : (8 * col + j) % 8 = j := by omega
  have hy : (⟨(16 * row + i.val) % 16, Nat.mod_lt _ (by decide)⟩ : Fin 16) = i :=
    Fin.ext (by show (16 * row + i.val) % 16 = i.val; omega)
  have hcolor : c.glyphColor ch fg bg (8 * col + j) (16 * row + i.val) =
      if c.fontBits ch i &&& (0x80 >>> UInt8.ofNat j) ≠ 0 then fg else bg := by
    rw [glyphColor, hx, hy]
  rw [accesses_value, accesses_value, ← UInt32.ofNat_add, ← UInt32.ofNat_add,
    ← hcolor]
  exact accesses_drawPixel_paint h (by omega) (by omega)
    (c.glyphColor ch fg bg)

/-- A character drawn into a cell, which may lie to the right of the screen. -/
theorem pixel_drawCharAt (h : c.bootInfo.Scrollable) {col row x y : Nat}
    (hcol : 8 * col + 8 ≤ 2 ^ 32) (hrow : 16 * row + 16 ≤ 2 ^ 32)
    (hx : x < c.bootInfo.screenWidth.toNat)
    (hy : y < c.bootInfo.screenHeight.toNat) (ch : UInt8) (fg bg : UInt32) :
    c.bootInfo.pixel (run m (accesses (c.drawCharAt (UInt32.ofNat (8 * col))
      (UInt32.ofNat (16 * row)) ch fg bg))) x y =
      if y / 16 = row ∧ x / 8 = col then
        c.bootInfo.colorBytes (c.glyphColor ch fg bg x y)
      else c.bootInfo.pixel m x y := by
  rw [accesses_drawCharAt h.bpp hcol hrow, pixel_paint hx hy h]
  refine if_congr (mem_block.trans ⟨fun hmem => ?_, fun hcell => ?_⟩) rfl rfl
  · simp only at hmem
    omega
  · simp only
    omega

theorem accesses_fillRows_paint (h : info.Scrollable) (bg : UInt32) :
    accesses (fillRows info bg) = info.paint
      (block 0 (info.screenHeight.toNat - 16) info.screenWidth.toNat 16)
      fun _ _ => bg := by
  have hheight := h.height
  rw [accesses_fillRows h, paint_block]
  refine List.flatMap_congr fun i hi => List.flatMap_congr fun j hj => ?_
  have hi' := List.mem_range.1 hi
  have hj' := List.mem_range.1 hj
  rw [BootInfo.paint, List.flatMap_singleton, Nat.zero_add]
  exact (if_pos ⟨hj', by simp only; omega⟩).symm

/-- Pixels of any size move with the four bytes of each, if the rows have room
for them. -/
theorem pixel_copyRows (h : info.Scrollable)
    (hlong : info.screenWidth.toNat * 4 ≤ info.pitch.toNat) {x y : Nat}
    (hx : x < info.screenWidth.toNat)
    (hy : y + 16 < info.screenHeight.toNat) :
    info.pixel (run m (accesses (copyRows info))) x y =
      info.pixel m x (y + 16) := by
  obtain ⟨-, hsize, -⟩ := h.bpp.pixelSize
  have hmoved := (sweep_moveRow hlong (MemOp.window info.framebufferAddr m)
    (info.screenHeight.toNat - 16)).1 y (by omega)
  have hcolumn := @block_le x _ info.pixelSize hx
  have hfour := Nat.mul_le_mul_left info.screenWidth.toNat hsize
  rw [pixel_eq h _ hx (by omega), pixel_eq h _ hx hy,
    window_copyRows (.inr hlong)]
  refine List.map_congr_left fun k hk => ?_
  have hk' := List.mem_range.1 hk
  rw [BootInfo.place, BootInfo.place, Nat.add_assoc, Nat.add_assoc,
    hmoved _ (by omega), Nat.add_comm 16]

theorem pixel_scroll (h : c.bootInfo.Scrollable)
    (hlong : c.bootInfo.screenWidth.toNat * 4 ≤ c.bootInfo.pitch.toNat)
    {x y : Nat} (hx : x < c.bootInfo.screenWidth.toNat)
    (hy : y < c.bootInfo.screenHeight.toNat) :
    c.bootInfo.pixel (run m (accesses c.scroll.2)) x y =
      if y + 16 < c.bootInfo.screenHeight.toNat then
        c.bootInfo.pixel m x (y + 16)
      else c.bootInfo.colorBytes c.bgColor := by
  rw [accesses_scroll, run_append, accesses_fillRows_paint h,
    pixel_paint hx hy h]
  by_cases hin : y + 16 < c.bootInfo.screenHeight.toNat
  · rw [if_pos hin, if_neg, pixel_copyRows h hlong hx hin]
    intro hmem
    have hlast := (mem_block.1 hmem).2.1
    simp only at hlast
    omega
  · have hheight := h.height
    rw [if_neg hin, if_pos]
    rw [mem_block]
    simp only
    omega

end FramebufferConsole

/-! ## Cells -/

namespace BootInfo

/-- Columns of cells: the row that one more would end is wrapped before. -/
def columns (info : BootInfo) : Nat := (info.screenWidth.toNat - 1) / 8

def rows (info : BootInfo) : Nat := (info.screenHeight.toNat - 1) / 16

theorem HasRoom.columns_pos (h : info.HasRoom) : 0 < info.columns := by
  have hwidth := h.width
  rw [columns]
  omega

theorem HasRoom.rows_pos (h : info.HasRoom) : 0 < info.rows := by
  have hheight := h.height
  rw [rows]
  omega

end BootInfo

/-- A cell is a character or empty. -/
abbrev CellScreen := TextScreen (Option UInt8)

namespace FramebufferConsole

variable {c c₀ : FramebufferConsole} {s : CellScreen} {m₀ : UInt32 → UInt8}

def cellColor (c : FramebufferConsole) : Option UInt8 → Nat → Nat → UInt32
  | none => fun _ _ => c.bgColor
  | some ch => c.glyphColor ch c.textColor c.bgColor

/-- What the pixels show of cells. -/
def picture (c : FramebufferConsole) (cell : Nat → Nat → Option UInt8)
    (x y : Nat) : UInt32 :=
  if y / 16 < c.bootInfo.rows ∧ x / 8 < c.bootInfo.columns then
    c.cellColor (cell (y / 16) (x / 8)) x y
  else c.bgColor

/-- The console with its cursor on a cell of the screen. -/
def onCell (c : FramebufferConsole) (s : CellScreen) (visible : Bool) :
    FramebufferConsole :=
  { c with
    cursorX := UInt32.ofNat (8 * s.col)
    cursorY := UInt32.ofNat (16 * s.row)
    cursorVisible := visible }

/-- The pixels show the cells, and what lies outside of the framebuffer is as
it was in `m₀`. -/
structure Displays (c : FramebufferConsole) (m₀ : UInt32 → UInt8)
    (cell : Nat → Nat → Option UInt8) (m : UInt32 → UInt8) : Prop where
  pixels : ∀ x y, x < c.bootInfo.screenWidth.toNat →
    y < c.bootInfo.screenHeight.toNat →
    c.bootInfo.pixel m x y = c.bootInfo.colorBytes (c.picture cell x y)
  outside : ∀ a, ¬ c.bootInfo.Inside a → m a = m₀ a

/-- The pixels of a character in the color of the background are those of an
empty cell. -/
theorem glyphColor_self (c : FramebufferConsole) (ch : UInt8) (bg : UInt32)
    (x y : Nat) : c.glyphColor ch bg bg x y = bg := ite_self bg

theorem picture_mark (c : FramebufferConsole) (s : CellScreen)
    (a : Option UInt8) (hrow : s.row < c.bootInfo.rows) (x y : Nat) :
    c.picture (s.mark a).cell x y =
      if y / 16 = s.row ∧ x / 8 = s.col ∧ s.col < c.bootInfo.columns then
        c.cellColor a x y
      else c.picture s.cell x y := by
  rw [picture, picture]
  show (if y / 16 < c.bootInfo.rows ∧ x / 8 < c.bootInfo.columns then
    c.cellColor (if y / 16 = s.row ∧ x / 8 = s.col then a
      else s.cell (y / 16) (x / 8)) x y else c.bgColor) = _
  by_cases hin : y / 16 < c.bootInfo.rows ∧ x / 8 < c.bootInfo.columns
  · rw [if_pos hin, if_pos hin]
    by_cases hcell : y / 16 = s.row ∧ x / 8 = s.col
    · rw [if_pos hcell, if_pos ⟨hcell.1, hcell.2, hcell.2 ▸ hin.2⟩]
    · rw [if_neg hcell, if_neg fun hmark => hcell ⟨hmark.1, hmark.2.1⟩]
  · rw [if_neg hin, if_neg hin, if_neg (by omega)]

/-- A character that the console draws at its cursor, in the color of the text
or in that of the background. -/
theorem Displays.drawCharAt (hs : c₀.Displays m₀ s.cell m) (h : c₀.bootInfo.HasRoom)
    (hrow : s.row < c₀.bootInfo.rows) (ch : UInt8) {fg : UInt32}
    {a : Option UInt8}
    (hcell : fg = c₀.textColor ∧ a = some ch ∧ s.col < c₀.bootInfo.columns ∨
      fg = c₀.bgColor ∧ a = none ∧ s.col ≤ c₀.bootInfo.columns)
    (visible : Bool) :
    c₀.Displays m₀ (s.mark a).cell (run m (accesses ((c₀.onCell s visible).drawCharAt
      (UInt32.ofNat (8 * s.col)) (UInt32.ofNat (16 * s.row)) ch fg
      c₀.bgColor))) := by
  have hwidth := c₀.bootInfo.screenWidth.toNat_lt
  have hheight := c₀.bootInfo.screenHeight.toNat_lt
  have hcolumns : c₀.bootInfo.columns = (c₀.bootInfo.screenWidth.toNat - 1) / 8 :=
    rfl
  have hrows : c₀.bootInfo.rows = (c₀.bootInfo.screenHeight.toNat - 1) / 16 :=
    rfl
  refine ⟨fun x y hx hy => ?_, fun b hb => ?_⟩
  swap
  · rw [← hs.outside b hb]
    exact (congrArg (fun ops => run m ops b) (accesses_drawCharAt
      (c := c₀.onCell s visible) h.bpp (by omega) (by omega) ch fg
      c₀.bgColor)).trans (run_paint_outside h _ _ hb)
  rw [picture_mark c₀ s a hrow x y]
  refine (pixel_drawCharAt (c := c₀.onCell s visible) h.scrollable
    (by omega) (by omega) hx hy ch fg c₀.bgColor).trans ?_
  show (if y / 16 = s.row ∧ x / 8 = s.col then
      c₀.bootInfo.colorBytes (c₀.glyphColor ch fg c₀.bgColor x y)
    else c₀.bootInfo.pixel m x y) = _
  by_cases hin : y / 16 = s.row ∧ x / 8 = s.col
  · rw [if_pos hin]
    congr 1
    rcases hcell with ⟨rfl, rfl, hcol⟩ | ⟨rfl, rfl, hcol⟩
    · rw [if_pos ⟨hin.1, hin.2, hcol⟩]
      rfl
    · rw [glyphColor_self]
      by_cases hcol' : s.col < c₀.bootInfo.columns
      · rw [if_pos ⟨hin.1, hin.2, hcol'⟩]
        rfl
      · rw [if_neg (by omega), picture, if_neg (by omega)]
  · rw [if_neg hin, if_neg (by omega), hs.pixels x y hx hy]

theorem Displays.scroll (hs : c₀.Displays m₀ s.cell m) (h : c₀.bootInfo.TextMode)
    (hc : c.bootInfo = c₀.bootInfo) (hbg : c.bgColor = c₀.bgColor) :
    c₀.Displays m₀ (s.scroll c₀.bootInfo.rows none).cell
      (run m (accesses c.scroll.2)) := by
  have hrows : c₀.bootInfo.rows = (c₀.bootInfo.screenHeight.toNat - 1) / 16 :=
    rfl
  refine ⟨fun x y hx hy => ?_, fun b hb => ?_⟩
  swap
  · rw [← hs.outside b hb, accesses_scroll, hc]
    exact run_of_not_touched fun hmem =>
      hb (inside_of_longRows h.scrollable h.longRows hmem)
  have hpixel := pixel_scroll (c := c) (m := m) (x := x) (y := y)
    (by rw [hc]; exact h.scrollable) (by rw [hc]; exact h.long)
    (by rw [hc]; exact hx) (by rw [hc]; exact hy)
  rw [hc, hbg] at hpixel
  rw [hpixel, picture]
  show _ = c₀.bootInfo.colorBytes
    (if y / 16 < c₀.bootInfo.rows ∧ x / 8 < c₀.bootInfo.columns then
      c₀.cellColor (if y / 16 + 1 < c₀.bootInfo.rows then
        s.cell (y / 16 + 1) (x / 8) else none) x y
    else c₀.bgColor)
  have hnext : (y + 16) / 16 = y / 16 + 1 := by omega
  by_cases hin : y + 16 < c₀.bootInfo.screenHeight.toNat
  · rw [if_pos hin, hs.pixels x (y + 16) hx hin, picture, hnext]
    congr 1
    by_cases hcol : x / 8 < c₀.bootInfo.columns
    · by_cases hlow : y / 16 + 1 < c₀.bootInfo.rows
      · rw [if_pos ⟨hlow, hcol⟩, if_pos ⟨Nat.lt_of_succ_lt hlow, hcol⟩,
          if_pos hlow]
        rcases s.cell (y / 16 + 1) (x / 8) with _ | ch
        · rfl
        · rw [cellColor, glyphColor, glyphColor]
          simp only [Nat.add_mod_right]
      · rw [if_neg fun hboth => hlow hboth.1, if_neg hlow]
        exact (ite_self _).symm
    · rw [if_neg fun hboth => hcol hboth.2, if_neg fun hboth => hcol hboth.2]
  · have hlast : ¬ y / 16 + 1 < c₀.bootInfo.rows := by omega
    rw [if_neg hin, if_neg hlast]
    exact congrArg _ (ite_self _).symm

/-! ## Bytes -/

/-- A run from the console on a cell of the screen: what it comes to, and what
is displayed behind it. -/
structure Draws (c₀ : FramebufferConsole) (m₀ : UInt32 → UInt8)
    (s : CellScreen) (visible : Bool) (r : FramebufferConsole × List Event)
    (m : UInt32 → UInt8) : Prop where
  console : r.1 = c₀.onCell s visible
  displays : c₀.Displays m₀ s.cell (run m (accesses r.2))

/-- A run with other events before it. -/
theorem Draws.after {visible : Bool} {r : FramebufferConsole × List Event}
    {es : List Event} (hr : c₀.Draws m₀ s visible r (run m (accesses es))) :
    c₀.Draws m₀ s visible (r.1, es ++ r.2) m := by
  refine ⟨hr.console, ?_⟩
  rw [accesses_append, run_append]
  exact hr.displays

/-- The sums that move a cursor, and the tests that end a row. -/
theorem ofNat_step (k n : Nat) :
    UInt32.ofNat (n * k) + UInt32.ofNat n = UInt32.ofNat (n * (k + 1)) := by
  rw [← UInt32.ofNat_add, Nat.mul_succ]

theorem ofNat_ge_iff {n : Nat} {b : UInt16} (hn : n < 2 ^ 32) :
    UInt32.ofNat n ≥ b.toUInt32 ↔ b.toNat ≤ n := by
  rw [ge_iff_le, UInt32.le_iff_toNat_le, UInt16.toNat_toUInt32,
    UInt32.toNat_ofNat', Nat.mod_eq_of_lt hn]

theorem draws_newLine (h : c₀.bootInfo.TextMode)
    (hs : c₀.Displays m₀ s.cell m) (hrow : s.row < c₀.bootInfo.rows)
    (hcol : s.col ≤ c₀.bootInfo.columns) (visible : Bool) :
    c₀.Draws m₀ (s.newLine c₀.bootInfo.rows none) visible
      (c₀.onCell s visible).newLine m := by
  have hheight := c₀.bootInfo.screenHeight.toNat_lt
  have hrows : c₀.bootInfo.rows = (c₀.bootInfo.screenHeight.toNat - 1) / 16 :=
    rfl
  have hnext : UInt32.ofNat (16 * s.row) + 16 =
      UInt32.ofNat (16 * (s.row + 1)) := ofNat_step s.row 16
  have hbelow : UInt32.ofNat (16 * s.row) + 16 + 16 =
      UInt32.ofNat (16 * (s.row + 1 + 1)) := by
    rw [hnext]
    exact ofNat_step (s.row + 1) 16
  have hmark := hs.drawCharAt h.toHasRoom hrow 0x20 (.inr ⟨rfl, rfl, hcol⟩) visible
  have hevents : c₀.Displays m₀ (s.mark none).cell (run m (accesses
      ((c₀.onCell s visible).drawCharAt (UInt32.ofNat (8 * s.col))
        (UInt32.ofNat (16 * s.row)) 0x20 c₀.bgColor c₀.bgColor ++
        [.value ((c₀.onCell s visible).cursorY.toNat + 16),
          .value (((c₀.onCell s visible).cursorY + 16).toNat + 16)]))) := by
    rw [accesses_append, run_append]
    exact hmark
  rw [newLine]
  by_cases hroom : s.row + 1 < c₀.bootInfo.rows
  · rw [if_neg, TextScreen.newLine, if_pos hroom]
    · refine ⟨?_, hevents⟩
      show ({ c₀.onCell s visible with
        cursorX := 0, cursorY := UInt32.ofNat (16 * s.row) + 16 } :
        FramebufferConsole) = _
      rw [hnext]
      rfl
    · show ¬ UInt32.ofNat (16 * s.row) + 16 + 16 ≥ _
      rw [hbelow, show (c₀.onCell s visible).bootInfo = c₀.bootInfo from rfl,
        ofNat_ge_iff (by omega)]
      omega
  · rw [if_pos, TextScreen.newLine, if_neg hroom]
    · refine ⟨?_, ?_⟩
      · show ({ c₀.onCell s visible with
          cursorX := 0, cursorY := UInt32.ofNat (16 * s.row) + 16 - 16 } :
          FramebufferConsole) = _
        rw [UInt32.add_sub_cancel]
        rfl
      · rw [accesses_append, run_append]
        exact hevents.scroll h rfl rfl
    · show UInt32.ofNat (16 * s.row) + 16 + 16 ≥ _
      rw [hbelow, show (c₀.onCell s visible).bootInfo = c₀.bootInfo from rfl,
        ofNat_ge_iff (by omega)]
      omega

/-- What a byte does to the cells. -/
def writeCell (info : BootInfo) (s : CellScreen) (ch : UInt8) : CellScreen :=
  if ch = 0x0A then s.newLine info.rows none
  else if ch = 0x0D then s.carriageReturn
  else s.write info.columns info.rows none (some ch)

theorem onScreen_writeCell (h : info.HasRoom)
    (hon : s.OnScreen info.columns info.rows) (ch : UInt8) :
    (writeCell info s ch).OnScreen info.columns info.rows := by
  rw [writeCell]
  split
  · exact TextScreen.onScreen_newLine h.columns_pos hon.row
  · split
    · exact hon.carriageReturn
    · exact hon.write (some ch)

theorem draws_writeChar (h : c₀.bootInfo.TextMode)
    (hs : c₀.Displays m₀ s.cell m)
    (hon : s.OnScreen c₀.bootInfo.columns c₀.bootInfo.rows) (visible : Bool)
    (ch : UInt8) :
    c₀.Draws m₀ (writeCell c₀.bootInfo s ch) visible
      ((c₀.onCell s visible).writeChar ch) m := by
  have hcol := hon.col
  by_cases hn : ch = 0x0A
  · rw [writeChar, writeCell, if_pos hn, if_pos hn]
    exact draws_newLine h hs hon.row (Nat.le_of_lt hcol) visible
  · by_cases hr : ch = 0x0D
    · rw [writeChar, writeCell, if_neg hn, if_neg hn, if_pos hr, if_pos hr]
      exact ⟨rfl, hs⟩
    · have hwidth := c₀.bootInfo.screenWidth.toNat_lt
      have hcolumns : c₀.bootInfo.columns =
          (c₀.bootInfo.screenWidth.toNat - 1) / 8 := rfl
      have hnext : UInt32.ofNat (8 * s.col) + 8 =
          UInt32.ofNat (8 * (s.col + 1)) := ofNat_step s.col 8
      have hright : UInt32.ofNat (8 * s.col) + 8 + 8 =
          UInt32.ofNat (8 * (s.col + 1 + 1)) := by
        rw [hnext]
        exact ofNat_step (s.col + 1) 8
      have hmark := hs.drawCharAt h.toHasRoom hon.row ch (.inl ⟨rfl, rfl, hcol⟩) visible
      have hevents : c₀.Displays m₀ (s.put (some ch)).cell (run m (accesses
          ((c₀.onCell s visible).drawCharAt (UInt32.ofNat (8 * s.col))
            (UInt32.ofNat (16 * s.row)) ch c₀.textColor c₀.bgColor ++
            [.value ((c₀.onCell s visible).cursorX.toNat + 8),
              .value (((c₀.onCell s visible).cursorX + 8).toNat + 8)]))) := by
        rw [accesses_append, run_append]
        exact hmark
      have hput : ({ c₀.onCell s visible with
          cursorX := UInt32.ofNat (8 * s.col) + 8 } : FramebufferConsole) =
          c₀.onCell (s.put (some ch)) visible := by
        rw [hnext]
        rfl
      rw [writeChar_printed hn hr, writeCell, if_neg hn, if_neg hr,
        TextScreen.write]
      by_cases hroom : s.col + 1 < c₀.bootInfo.columns
      · rw [if_pos hroom, if_neg]
        · exact ⟨hput, hevents⟩
        · show ¬ UInt32.ofNat (8 * s.col) + 8 + 8 ≥ _
          rw [hright, show (c₀.onCell s visible).bootInfo = c₀.bootInfo from rfl,
            ofNat_ge_iff (by omega)]
          omega
      · rw [if_neg hroom, if_pos]
        · have hline := draws_newLine h hevents hon.row
            (show s.col + 1 ≤ c₀.bootInfo.columns from hcol) visible
          rw [← hput] at hline
          exact hline.after
        · show UInt32.ofNat (8 * s.col) + 8 + 8 ≥ _
          rw [hright, show (c₀.onCell s visible).bootInfo = c₀.bootInfo from rfl,
            ofNat_ge_iff (by omega)]
          omega

theorem draws_writeBytes (h : c₀.bootInfo.TextMode)
    (hs : c₀.Displays m₀ s.cell m)
    (hon : s.OnScreen c₀.bootInfo.columns c₀.bootInfo.rows) (visible : Bool)
    (bytes : List UInt8) :
    c₀.Draws m₀ (bytes.foldl (writeCell c₀.bootInfo) s) visible
      ((c₀.onCell s visible).writeBytes bytes) m := by
  induction bytes generalizing s m with
  | nil => exact ⟨rfl, hs⟩
  | cons ch bytes ih =>
      have hchar := draws_writeChar h hs hon visible ch
      have hrest := ih hchar.displays (onScreen_writeCell h.toHasRoom hon ch)
      rw [← hchar.console] at hrest
      exact hrest.after

/-- What `render_cursor` draws. -/
def cursorCell (c : FramebufferConsole) (visible : Bool) : Option UInt8 :=
  if visible then some c.cursorChar else none

theorem displays_renderCursor (h : c₀.bootInfo.HasRoom)
    (hs : c₀.Displays m₀ s.cell m)
    (hon : s.OnScreen c₀.bootInfo.columns c₀.bootInfo.rows) (visible : Bool) :
    c₀.Displays m₀ (s.mark (c₀.cursorCell visible)).cell
      (run m (accesses (c₀.onCell s visible).renderCursor)) := by
  rw [renderCursor]
  cases visible with
  | true => exact hs.drawCharAt h hon.row _ (.inl ⟨rfl, rfl, hon.col⟩) true
  | false =>
      exact hs.drawCharAt h hon.row _ (.inr ⟨rfl, rfl, Nat.le_of_lt hon.col⟩)
        false

/-- What a call does to the cells. -/
def performCells (c : FramebufferConsole) (visible : Bool) (s : CellScreen) :
    WriteCall → CellScreen
  | .char ch => writeCell c.bootInfo s ch
  | .str bytes =>
      (bytes.foldl (writeCell c.bootInfo) s).mark (c.cursorCell visible)
  | .fmtStr bytes => bytes.foldl (writeCell c.bootInfo) s

theorem onScreen_foldl (h : info.HasRoom)
    (hon : s.OnScreen info.columns info.rows) (bytes : List UInt8) :
    (bytes.foldl (writeCell info) s).OnScreen info.columns info.rows := by
  induction bytes generalizing s with
  | nil => exact hon
  | cons ch bytes ih => exact ih (onScreen_writeCell h hon ch)

theorem onScreen_performCells (h : c.bootInfo.HasRoom)
    (hon : s.OnScreen c.bootInfo.columns c.bootInfo.rows) (visible : Bool)
    (call : WriteCall) :
    (c.performCells visible s call).OnScreen c.bootInfo.columns
      c.bootInfo.rows := by
  cases call with
  | char ch => exact onScreen_writeCell h hon ch
  | str bytes => exact (onScreen_foldl h hon bytes).mark _
  | fmtStr bytes => exact onScreen_foldl h hon bytes

theorem draws_perform (h : c₀.bootInfo.TextMode)
    (hs : c₀.Displays m₀ s.cell m)
    (hon : s.OnScreen c₀.bootInfo.columns c₀.bootInfo.rows) (visible : Bool)
    (call : WriteCall) :
    c₀.Draws m₀ (c₀.performCells visible s call) visible
      ((c₀.onCell s visible).perform call) m := by
  cases call with
  | char ch => exact draws_writeChar h hs hon visible ch
  | fmtStr bytes => exact draws_writeBytes h hs hon visible bytes
  | str bytes =>
      have hbytes := draws_writeBytes h hs hon visible bytes
      have hcursor := displays_renderCursor h.toHasRoom hbytes.displays
        (onScreen_foldl h.toHasRoom hon bytes) visible
      rw [← hbytes.console] at hcursor
      refine ⟨hbytes.console, ?_⟩
      show c₀.Displays m₀ _ (run m (accesses (_ ++ _)))
      rw [accesses_append, run_append]
      exact hcursor

theorem draws_performAll (h : c₀.bootInfo.TextMode)
    (hs : c₀.Displays m₀ s.cell m)
    (hon : s.OnScreen c₀.bootInfo.columns c₀.bootInfo.rows) (visible : Bool)
    (calls : List WriteCall) :
    c₀.Draws m₀ (calls.foldl (c₀.performCells visible) s) visible
      ((c₀.onCell s visible).performAll calls) m := by
  induction calls generalizing s m with
  | nil => exact ⟨rfl, hs⟩
  | cons call calls ih =>
      have hcall := draws_perform h hs hon visible call
      have hrest := ih hcall.displays (onScreen_performCells h.toHasRoom hon visible call)
      rw [← hcall.console] at hrest
      exact hrest.after

theorem displays_clear (h : c.bootInfo.HasRoom) (m : UInt32 → UInt8) :
    c.Displays m (TextScreen.empty none).cell (run m (accesses c.clear)) := by
  refine ⟨fun x y hx hy => ?_, fun a ha => ?_⟩
  · rw [pixel_clear h.scrollable hx hy, picture]
    exact congrArg _ (ite_self _).symm
  · rw [accesses_clear h.bpp]
    exact run_paint_outside h _ _ ha

end FramebufferConsole

/-! ## The layout -/

/-- The bytes of a call. -/
def WriteCall.text : WriteCall → List UInt8
  | .char ch => [ch]
  | .str bytes => bytes
  | .fmtStr bytes => bytes

/-- Whether `>` is to be seen behind a call, if it was before. -/
def WriteCall.leavesCursor (before : Bool) : WriteCall → Bool
  | .char _ => false
  | .str _ => true
  | .fmtStr bytes => before && bytes.isEmpty

namespace FramebufferConsole

variable {c : FramebufferConsole} {s : CellScreen} {text : List UInt8}
  {marked : Bool}

/-- What can be seen of a text: its layout, and the cursor if it is marked. -/
def ShowsText (c : FramebufferConsole) (s : CellScreen) (marked : Bool)
    (text : List UInt8) : Prop :=
  TextScreen.ShowsText c.bootInfo.columns c.bootInfo.rows none (some 0x0A)
    (c.cursorCell marked) s (text.map some)

theorem showsText_writeCell (hs : c.ShowsText s marked text) {ch : UInt8}
    (hch : ch ≠ 0x0D) :
    c.ShowsText (writeCell c.bootInfo s ch) false (text ++ [ch]) := by
  rw [ShowsText, List.map_append]
  by_cases hn : ch = 0x0A
  · rw [writeCell, if_pos hn, hn]
    exact hs.newLine
  · rw [writeCell, if_neg hn, if_neg hch]
    exact TextScreen.ShowsText.write hs fun heq => hn (Option.some.inj heq)

theorem showsText_foldl (hs : c.ShowsText s marked text) {bytes : List UInt8}
    (hbytes : ∀ ch ∈ bytes, ch ≠ 0x0D) :
    c.ShowsText (bytes.foldl (writeCell c.bootInfo) s)
      (marked && bytes.isEmpty) (text ++ bytes) := by
  induction bytes generalizing s text marked with
  | nil =>
      rw [List.append_nil, List.isEmpty_nil, Bool.and_true]
      exact hs
  | cons ch bytes ih =>
      have hch := showsText_writeCell hs (hbytes ch List.mem_cons_self)
      have hrest := ih hch fun d hd => hbytes d (List.mem_cons_of_mem ch hd)
      rw [Bool.false_and] at hrest
      rw [List.append_cons, List.isEmpty_cons, Bool.and_false]
      exact hrest

theorem showsText_mark (hs : c.ShowsText s marked text) (visible : Bool) :
    c.ShowsText (s.mark (c.cursorCell visible)) visible text :=
  TextScreen.ShowsText.mark hs _

theorem showsText_perform (hs : c.ShowsText s marked text) {call : WriteCall}
    (hcall : ∀ ch ∈ call.text, ch ≠ 0x0D) :
    c.ShowsText (c.performCells true s call) (call.leavesCursor marked)
      (text ++ call.text) := by
  cases call with
  | char ch => exact showsText_writeCell hs (hcall ch (List.mem_singleton_self ch))
  | str bytes => exact showsText_mark (showsText_foldl hs hcall) true
  | fmtStr bytes => exact showsText_foldl hs hcall

theorem showsText_performAll (hs : c.ShowsText s marked text)
    {calls : List WriteCall}
    (hcalls : ∀ ch ∈ calls.flatMap WriteCall.text, ch ≠ 0x0D) :
    c.ShowsText (calls.foldl (c.performCells true) s)
      (calls.foldl WriteCall.leavesCursor marked)
      (text ++ calls.flatMap WriteCall.text) := by
  induction calls generalizing s text marked with
  | nil =>
      rw [List.flatMap_nil, List.append_nil]
      exact hs
  | cons call calls ih =>
      rw [List.flatMap_cons] at hcalls ⊢
      rw [← List.append_assoc]
      exact ih (showsText_perform hs fun ch hch =>
          hcalls ch (List.mem_append_left _ hch))
        fun ch hch => hcalls ch (List.mem_append_right _ hch)

/-- The cells of a text. -/
def textCell (info : BootInfo) (text : List UInt8) (i j : Nat) :
    Option UInt8 :=
  window info.rows none
    (layout info.columns (some 0x0A) (text.map some)) i j

/-- With what is drawn under the cursor. -/
def markedCell (info : BootInfo) (text : List UInt8) (mark : Option UInt8)
    (i j : Nat) : Option UInt8 :=
  let rows := layout info.columns (some 0x0A) (text.map some)
  if i = min (rows.length - 1) (info.rows - 1) ∧
      j = (rows.getLastD []).length then mark
  else textCell info text i j

theorem ShowsText.picture_eq (hs : c.ShowsText s marked text) (x y : Nat) :
    c.picture s.cell x y =
      c.picture (markedCell c.bootInfo text (c.cursorCell marked)) x y := by
  rw [picture, picture]
  by_cases hin : y / 16 < c.bootInfo.rows ∧ x / 8 < c.bootInfo.columns
  · obtain ⟨hcol, hrow⟩ := TextScreen.ShowsText.cursor hs
    rw [if_pos hin, if_pos hin, TextScreen.ShowsText.cell hs hin.1 hin.2, hcol,
      hrow]
    rfl
  · rw [if_neg hin, if_neg hin]

/-- Only what lies on the screen matters. -/
theorem ShowsText.displays_iff {m₀ : UInt32 → UInt8}
    (hs : c.ShowsText s marked text) :
    c.Displays m₀ s.cell m ↔
      c.Displays m₀ (markedCell c.bootInfo text (c.cursorCell marked)) m := by
  refine ⟨fun hd => ⟨fun x y hx hy => ?_, hd.outside⟩,
    fun hd => ⟨fun x y hx hy => ?_, hd.outside⟩⟩
  · rw [hd.pixels x y hx hy, hs.picture_eq]
  · rw [hd.pixels x y hx hy, hs.picture_eq]

theorem showsText_empty (h : c.bootInfo.HasRoom) :
    c.ShowsText (.empty none) false [] :=
  TextScreen.showsText_empty h.columns_pos

theorem onScreen_empty (h : info.HasRoom) :
    (TextScreen.empty (none : Option UInt8)).OnScreen info.columns info.rows :=
  TextScreen.onScreen_empty h.columns_pos h.rows_pos

/-- A new console that clears the screen and is written to. -/
theorem draws_session (h : info.TextMode) (fontData : Vector UInt8 4096)
    (calls : List WriteCall) (m : UInt32 → UInt8) :
    (new info fontData).Draws m
      (calls.foldl ((new info fontData).performCells true) (.empty none)) true
      (((new info fontData).performAll calls).1,
        (new info fontData).clear ++ ((new info fontData).performAll calls).2)
      m :=
  (draws_performAll (show (new info fontData).bootInfo.TextMode from h)
    (displays_clear (c := new info fontData) h.toHasRoom m)
    (onScreen_empty h.toHasRoom) true calls).after

end FramebufferConsole

open FramebufferConsole in
/-- The pixels are the cells: after `clear` and any calls, carriage returns
included, every pixel on the screen is that of the cell it lies in, drawn from
the font in white on black, the pixels beside the cells are black, and no byte
outside of the framebuffer has changed. -/
theorem console_shows_cells {info : BootInfo} (h : info.TextMode)
    (fontData : Vector UInt8 4096) (calls : List WriteCall)
    (m : UInt32 → UInt8) :
    (new info fontData).Displays m
      (calls.foldl ((new info fontData).performCells true)
        (.empty none)).cell
      (run m (accesses ((new info fontData).clear ++
        ((new info fontData).performAll calls).2))) :=
  (draws_session h fontData calls m).displays

theorem textMode_bigScreen : bigScreen.TextMode :=
  ⟨hasRoom_bigScreen, by decide⟩

/-- A font in which every row of a character is its code. -/
def codeFont : Vector UInt8 4096 := Vector.ofFn fun i => UInt8.ofNat (i / 16)

open FramebufferConsole in
theorem console_shows_cells_bigScreen :
    (new bigScreen codeFont).Displays (fun _ => 0)
      (([.str [0x48, 0x69], .char 0x0D, .char 0x21] : List WriteCall).foldl
        ((new bigScreen codeFont).performCells true) (.empty none)).cell
      (run (fun _ => 0) (accesses
        ((new bigScreen codeFont).clear ++ ((new bigScreen codeFont).performAll
          [.str [0x48, 0x69], .char 0x0D, .char 0x21]).2))) :=
  console_shows_cells textMode_bigScreen codeFont
    [.str [0x48, 0x69], .char 0x0D, .char 0x21] fun _ => 0

open FramebufferConsole in
/-- The console shows a layout: after `clear` and any calls without carriage
returns, the pixels are those of the last rows of the text, laid out in the
columns of the screen, with `>` behind the last character if a `write_str` was
the last to write. -/
theorem console_shows_layout {info : BootInfo} (h : info.TextMode)
    (fontData : Vector UInt8 4096) (calls : List WriteCall)
    (hcalls : ∀ ch ∈ calls.flatMap WriteCall.text, ch ≠ 0x0D)
    (m : UInt32 → UInt8) :
    (new info fontData).Displays m
      (markedCell info (calls.flatMap WriteCall.text)
        (if calls.foldl WriteCall.leavesCursor false then some 0x3E else none))
      (run m (accesses ((new info fontData).clear ++
        ((new info fontData).performAll calls).2))) :=
  (showsText_performAll (showsText_empty (c := new info fontData) h.toHasRoom)
    hcalls).displays_iff.1 (draws_session h fontData calls m).displays

open FramebufferConsole in
/-- A `!` behind a cursor and a newline. -/
theorem console_shows_layout_bigScreen :
    (new bigScreen codeFont).Displays (fun _ => 0)
      (markedCell bigScreen [0x48, 0x0A, 0x21] none)
      (run (fun _ => 0) (accesses
        ((new bigScreen codeFont).clear ++ ((new bigScreen codeFont).performAll
          [.str [0x48], .char 0x0A, .char 0x21]).2))) := by
  have hplain : ([0x48, 0x0A, 0x21] : List UInt8).all
      (fun ch => decide (ch ≠ 0x0D)) = true := by decide
  simp only [List.all_eq_true, decide_eq_true_eq] at hplain
  exact console_shows_layout textMode_bigScreen codeFont
    [.str [0x48], .char 0x0A, .char 0x21] hplain fun _ => 0

end TermOS.Boot
