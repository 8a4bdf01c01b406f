import TermOS.Ref.Framebuffer

/-!
# The console stays on the screen

A pixel is drawn where it is on the screen and nowhere else, and with rows of
`pitch` bytes below 2^32 no sum on the way to its address wraps. So the
functions are safe as long as the cursor is: a character has room below the
cursor's row, and what sticks out to the right is cut off. The bounds on the
cursor hold behind every byte, because the row that a new line would leave the
screen with is scrolled back.
-/

namespace TermOS.Boot

open TermOS.Lib (MemOp)
open TermOS.Lib.MemOp (addresses touched)
open TermOS.Lib.ByteMemory (bytes16 bytes32)

/-- Bytes of a pixel. -/
def BootInfo.pixelSize (info : BootInfo) : Nat := info.bpp.toNat / 8

/-- The three formats the console draws in. -/
def BootInfo.Drawable (info : BootInfo) : Prop :=
  info.bpp = 32 ∨ info.bpp = 24 ∨ info.bpp = 16

/-- A screen for at least one character, with rows that hold its pixels, in
front of 2^32. -/
structure BootInfo.HasRoom (info : BootInfo) : Prop where
  bpp : info.Drawable
  width : 8 < info.screenWidth.toNat
  height : 16 < info.screenHeight.toNat
  pitch : info.screenWidth.toNat * info.pixelSize ≤ info.pitch.toNat
  below : info.framebufferAddr.toNat +
    info.pitch.toNat * info.screenHeight.toNat ≤ 2 ^ 32

/-- The bytes of the framebuffer. -/
def BootInfo.Inside (info : BootInfo) (a : UInt32) : Prop :=
  info.framebufferAddr.toNat ≤ a.toNat ∧ a.toNat <
    info.framebufferAddr.toNat + info.pitch.toNat * info.screenHeight.toNat

/-- A value that does not wrap, a character with all its rows on the screen, a
store with all its bytes in the framebuffer. Of the copies of `scroll` it is
the targets that are spoken of: with less than four bytes a pixel the last row
is read beyond its end. -/
def Event.Fine (info : BootInfo) : Event → Prop
  | .value v => 0 ≤ v ∧ v < 2 ^ 32
  | .glyph _ y => y.toNat + 16 ≤ info.screenHeight.toNat
  | .access (.write a bytes) =>
      ∀ p ∈ touched (.write a bytes), info.Inside p
  | .access (.copy n _ dest) => ∀ p ∈ addresses dest n, info.Inside p

def AllFine (info : BootInfo) (es : List Event) : Prop :=
  ∀ e ∈ es, e.Fine info

section Lists

variable {info : BootInfo} {es es' : List Event} {e : Event}

theorem AllFine.nil : AllFine info [] := fun _ he => nomatch he

theorem AllFine.cons (he : e.Fine info) (h : AllFine info es) :
    AllFine info (e :: es) := by
  intro e' hmem
  rcases List.mem_cons.1 hmem with rfl | hrest
  · exact he
  · exact h e' hrest

theorem AllFine.append (h : AllFine info es) (h' : AllFine info es') :
    AllFine info (es ++ es') := by
  intro e hmem
  rcases List.mem_append.1 hmem with hl | hr
  · exact h e hl
  · exact h' e hr

theorem AllFine.flatMap {α : Type} {l : List α} {f : α → List Event}
    (h : ∀ x ∈ l, AllFine info (f x)) : AllFine info (l.flatMap f) := by
  intro e hmem
  obtain ⟨x, hx, he⟩ := List.mem_flatMap.1 hmem
  exact h x hx e he

theorem fine_value (info : BootInfo) {n : Nat} (h : n < 2 ^ 32) :
    (Event.value (n : Int)).Fine info :=
  ⟨Int.natCast_nonneg n, by omega⟩

end Lists

/-! ## A pixel -/

section Pixel

variable {info : BootInfo} {x y color : UInt32} {size : Nat}

/-- The end of a pixel on the screen, from the base of the framebuffer on. -/
theorem pixel_end_le (hx : x.toNat < info.screenWidth.toNat)
    (hy : y.toNat < info.screenHeight.toNat)
    (hpitch : info.screenWidth.toNat * size ≤ info.pitch.toNat) :
    y.toNat * info.pitch.toNat + x.toNat * size + size ≤
      info.pitch.toNat * info.screenHeight.toNat := by
  have hcolumn := @Lib.block_le x.toNat _ size hx
  have hrow := @Lib.block_le y.toNat _ info.pitch.toNat hy
  rw [Nat.mul_comm info.screenHeight.toNat] at hrow
  omega

/-- The address of a pixel without a wrap. -/
theorem toNat_pixel {size' : UInt32} (hsize : size'.toNat = size)
    (hbelow : info.framebufferAddr.toNat +
      (y.toNat * info.pitch.toNat + x.toNat * size) < 2 ^ 32) :
    (y * info.pitch.toUInt32).toNat = y.toNat * info.pitch.toNat ∧
    (x * size').toNat = x.toNat * size ∧
    (info.framebufferAddr + y * info.pitch.toUInt32).toNat =
      info.framebufferAddr.toNat + y.toNat * info.pitch.toNat ∧
    (info.framebufferAddr + y * info.pitch.toUInt32 + x * size').toNat =
      info.framebufferAddr.toNat +
        (y.toNat * info.pitch.toNat + x.toNat * size) := by
  have hrow : (y * info.pitch.toUInt32).toNat =
      y.toNat * info.pitch.toNat := by
    rw [UInt32.toNat_mul, UInt16.toNat_toUInt32, Nat.mod_eq_of_lt (by omega)]
  have hcolumn : (x * size').toNat = x.toNat * size := by
    rw [UInt32.toNat_mul, hsize, Nat.mod_eq_of_lt (by omega)]
  have hstart : (info.framebufferAddr + y * info.pitch.toUInt32).toNat =
      info.framebufferAddr.toNat + y.toNat * info.pitch.toNat := by
    rw [UInt32.toNat_add, hrow, Nat.mod_eq_of_lt (by omega)]
  refine ⟨hrow, hcolumn, hstart, ?_⟩
  rw [UInt32.toNat_add, hstart, hcolumn, Nat.mod_eq_of_lt (by omega)]
  omega

/-- Bytes behind an address in the framebuffer. -/
theorem inside_addresses {a : UInt32} {n : Nat}
    (hlo : info.framebufferAddr.toNat ≤ a.toNat)
    (hhi : a.toNat + n ≤ info.framebufferAddr.toNat +
      info.pitch.toNat * info.screenHeight.toNat)
    (hbelow : a.toNat + n ≤ 2 ^ 32) :
    ∀ p ∈ addresses a n, info.Inside p := by
  intro p hp
  obtain ⟨k, hk, rfl⟩ := List.mem_map.1 hp
  have hlt := List.mem_range.1 hk
  have hp' : (a + UInt32.ofNat k).toNat = a.toNat + k := by
    rw [UInt32.toNat_add, UInt32.toNat_ofNat', Nat.mod_eq_of_lt (by omega),
      Nat.mod_eq_of_lt (by omega)]
  rw [BootInfo.Inside, hp']
  omega

theorem fine_storePixel {size' : UInt32} {stores : UInt32 → List MemOp}
    (hsize : size'.toNat = size) (hpos : 0 < size)
    (hx : x.toNat < info.screenWidth.toNat)
    (hy : y.toNat < info.screenHeight.toNat)
    (hpitch : info.screenWidth.toNat * size ≤ info.pitch.toNat)
    (hbelow : info.framebufferAddr.toNat +
      info.pitch.toNat * info.screenHeight.toNat ≤ 2 ^ 32)
    (hstores : ∀ ptr : UInt32, info.framebufferAddr.toNat ≤ ptr.toNat →
      ptr.toNat + size ≤ info.framebufferAddr.toNat +
        info.pitch.toNat * info.screenHeight.toNat →
      AllFine info ((stores ptr).map .access)) :
    AllFine info (.value (y.toNat * info.pitch.toNat) ::
      storePixel info (y * info.pitch.toUInt32) x size' stores) := by
  have hend := pixel_end_le hx hy hpitch
  obtain ⟨hrow, hcolumn, hstart, haddr⟩ :=
    @toNat_pixel info x y size size' hsize (by omega)
  have hstart' : info.framebufferAddr.toNat + y.toNat * info.pitch.toNat <
      2 ^ 32 := by omega
  refine .cons ?_ (.append (.cons ?_ (.cons ?_ (.cons ?_ .nil))) ?_)
  · exact_mod_cast fine_value info
      (n := y.toNat * info.pitch.toNat) (by omega)
  · rw [hsize]
    exact_mod_cast fine_value info (n := x.toNat * size) (by omega)
  · rw [hrow]
    exact_mod_cast fine_value info hstart'
  · rw [hstart, hcolumn]
    exact_mod_cast fine_value info
      (n := info.framebufferAddr.toNat + y.toNat * info.pitch.toNat +
        x.toNat * size) (by omega)
  · refine hstores _ ?_ ?_
    · rw [haddr]
      omega
    · rw [haddr]
      omega

/-- The stores of a pixel in the format of the screen. -/
def BootInfo.pixelStores (info : BootInfo) (color : UInt32) :
    UInt32 → List MemOp :=
  if info.bpp = 32 then fun ptr => [.write ptr (bytes32 color)]
  else if info.bpp = 16 then fun ptr => [.write ptr (bytes16 (color16 color))]
  else fun ptr =>
    [.write ptr [(color &&& 0xFF).toUInt8],
      .write (ptr + 1) [((color >>> 8) &&& 0xFF).toUInt8],
      .write (ptr + 2) [((color >>> 16) &&& 0xFF).toUInt8]]

theorem BootInfo.Drawable.cases (h : info.Drawable) :
    (info.bpp = 32 ∧ info.pixelSize = 4) ∨
    (info.bpp = 24 ∧ info.pixelSize = 3) ∨
    (info.bpp = 16 ∧ info.pixelSize = 2) := by
  rw [BootInfo.pixelSize]
  rcases h with hbpp | hbpp | hbpp <;> rw [hbpp] <;> decide

theorem BootInfo.Drawable.pixelSize (h : info.Drawable) :
    2 ≤ info.pixelSize ∧ info.pixelSize ≤ 4 ∧
      (UInt32.ofNat info.pixelSize).toNat = info.pixelSize := by
  rcases h.cases with ⟨-, hsize⟩ | ⟨-, hsize⟩ | ⟨-, hsize⟩ <;>
    rw [hsize] <;> decide

/-- A pixel on the screen, in any of the formats. -/
theorem drawPixel_eq (h : info.Drawable)
    (hx : x.toNat < info.screenWidth.toNat)
    (hy : y.toNat < info.screenHeight.toNat) :
    drawPixel info x y color = .value (y.toNat * info.pitch.toNat) ::
      storePixel info (y * info.pitch.toUInt32) x
        (UInt32.ofNat info.pixelSize) (info.pixelStores color) := by
  have hon : ¬ (x ≥ info.screenWidth.toUInt32 ∨
      y ≥ info.screenHeight.toUInt32) := by
    rw [not_or, UInt32.not_le, UInt32.not_le, UInt32.lt_iff_toNat_lt,
      UInt32.lt_iff_toNat_lt, UInt16.toNat_toUInt32, UInt16.toNat_toUInt32]
    exact ⟨hx, hy⟩
  rw [drawPixel, if_neg hon]
  rcases h with hbpp | hbpp | hbpp <;>
    simp [BootInfo.pixelSize, BootInfo.pixelStores, hbpp]

theorem drawPixel_outside (h : ¬ (x.toNat < info.screenWidth.toNat ∧
    y.toNat < info.screenHeight.toNat)) : drawPixel info x y color = [] := by
  rw [drawPixel, if_pos]
  rw [ge_iff_le, ge_iff_le, UInt32.le_iff_toNat_le, UInt32.le_iff_toNat_le,
    UInt16.toNat_toUInt32, UInt16.toNat_toUInt32]
  omega

/-- The bytes of a pixel, whether they are stored at once or one by one. -/
theorem touched_pixelStores (h : info.Drawable) (color ptr : UInt32) :
    (info.pixelStores color ptr).flatMap touched =
      addresses ptr info.pixelSize := by
  rw [BootInfo.pixelStores]
  rcases h.cases with ⟨hbpp, hsize⟩ | ⟨hbpp, hsize⟩ | ⟨hbpp, hsize⟩
  · rw [hbpp, hsize, if_pos rfl]
    rfl
  · rw [hbpp, hsize, if_neg (by decide), if_neg (by decide)]
    show [ptr + 0, ptr + 1 + 0, ptr + 2 + 0] = [ptr + 0, ptr + 1, ptr + 2]
    rw [UInt32.add_zero, UInt32.add_zero, UInt32.add_zero]
  · rw [hbpp, hsize, if_neg (by decide), if_pos rfl]
    rfl

theorem fine_access {op : MemOp} (h : ∀ p ∈ touched op, info.Inside p) :
    (Event.access op).Fine info := by
  cases op with
  | write a bytes => exact h
  | copy n src dest => exact fun p hp => h p (List.mem_append_right _ hp)

theorem fine_pixelStores (h : info.Drawable) {ptr : UInt32}
    (hlo : info.framebufferAddr.toNat ≤ ptr.toNat)
    (hhi : ptr.toNat + info.pixelSize ≤ info.framebufferAddr.toNat +
      info.pitch.toNat * info.screenHeight.toNat)
    (hbelow : info.framebufferAddr.toNat +
      info.pitch.toNat * info.screenHeight.toNat ≤ 2 ^ 32) :
    AllFine info ((info.pixelStores color ptr).map .access) := by
  intro e he
  obtain ⟨op, hop, rfl⟩ := List.mem_map.1 he
  refine fine_access fun p hp => ?_
  have hmem : p ∈ (info.pixelStores color ptr).flatMap touched :=
    List.mem_flatMap.2 ⟨op, hop, hp⟩
  rw [touched_pixelStores h] at hmem
  exact inside_addresses hlo hhi (by omega) p hmem

theorem fine_drawPixel (h : info.HasRoom) (x y color : UInt32) :
    AllFine info (drawPixel info x y color) := by
  by_cases hon : x.toNat < info.screenWidth.toNat ∧
      y.toNat < info.screenHeight.toNat
  · obtain ⟨hpos, -, hsize⟩ := h.bpp.pixelSize
    rw [drawPixel_eq h.bpp hon.1 hon.2]
    refine fine_storePixel hsize (by omega) hon.1 hon.2 h.pitch h.below ?_
    intro ptr hlo hhi
    exact fine_pixelStores h.bpp hlo hhi h.below
  · rw [drawPixel_outside hon]
    exact .nil

end Pixel

/-! ## A copy -/

section Copy

variable {info : BootInfo} {x y : UInt32}

theorem mem_rangeU32 {a b : UInt32} (h : x ∈ rangeU32 a b) :
    a.toNat ≤ x.toNat ∧ x.toNat < b.toNat := by
  obtain ⟨i, hi, rfl⟩ := List.mem_map.1 h
  have hlt := List.mem_range.1 hi
  have hb := b.toNat_lt
  rw [UInt32.toNat_add, UInt32.toNat_ofNat', Nat.mod_eq_of_lt (a := i) (by omega),
    Nat.mod_eq_of_lt (by omega)]
  omega

/-- Four bytes for each pixel of a row, sixteen rows above one on the screen,
end in the framebuffer in every format. -/
theorem copy_end_le (h : info.HasRoom)
    (hx : x.toNat < info.screenWidth.toNat) (hlo : 16 ≤ y.toNat)
    (hhi : y.toNat < info.screenHeight.toNat) :
    (y.toNat - 16) * info.pitch.toNat + x.toNat * 4 + 4 ≤
      info.pitch.toNat * info.screenHeight.toNat := by
  obtain ⟨hsize, -, -⟩ := h.bpp.pixelSize
  have hheight := h.height
  have hrow : x.toNat * 4 + 4 ≤ 2 * info.pitch.toNat := by
    have hpixels := Nat.mul_le_mul_left info.screenWidth.toNat hsize
    have hpitch := h.pitch
    omega
  calc (y.toNat - 16) * info.pitch.toNat + x.toNat * 4 + 4
      ≤ (y.toNat - 16) * info.pitch.toNat + 2 * info.pitch.toNat := by omega
    _ = (y.toNat - 16 + 2) * info.pitch.toNat := (Nat.add_mul ..).symm
    _ ≤ info.screenHeight.toNat * info.pitch.toNat :=
        Nat.mul_le_mul_right _ (by omega)
    _ = info.pitch.toNat * info.screenHeight.toNat := Nat.mul_comm ..

theorem fine_copyRows (h : info.HasRoom) :
    AllFine info (FramebufferConsole.copyRows info) := by
  refine .flatMap fun y hy e he => ?_
  obtain ⟨x, hx, rfl⟩ := List.mem_map.1 he
  obtain ⟨hlo, hhi⟩ := mem_rangeU32 hy
  obtain ⟨-, hx'⟩ := mem_rangeU32 hx
  rw [UInt16.toNat_toUInt32] at hhi hx'
  have hlo' : 16 ≤ y.toNat := hlo
  have hup : (y - 16).toNat = y.toNat - 16 :=
    UInt32.toNat_sub_of_le y 16 (UInt32.le_iff_toNat_le.2 hlo')
  have hend := copy_end_le h hx' hlo' hhi
  have hbelow := h.below
  have haddr := (@toNat_pixel info x (y - 16) 4 4 rfl
    (by rw [hup]; omega)).2.2.2
  rw [hup] at haddr
  exact inside_addresses (by rw [haddr]; omega) (by rw [haddr]; omega)
    (by rw [haddr]; omega)

end Copy

/-! ## The cursor -/

namespace FramebufferConsole

variable {c : FramebufferConsole} {info : BootInfo}

/-- A character that has its rows on the screen. -/
theorem fine_drawCharAt (h : c.bootInfo.HasRoom) {x y : UInt32} (ch : UInt8)
    (fg bg : UInt32) (hx : x.toNat < 65536)
    (hy : y.toNat + 16 ≤ c.bootInfo.screenHeight.toNat) :
    AllFine c.bootInfo (c.drawCharAt x y ch fg bg) := by
  have hch := ch.toNat_lt
  have hheight := c.bootInfo.screenHeight.toNat_lt
  refine .cons hy (.cons ?_ (.flatMap fun row _ => ?_))
  · exact_mod_cast fine_value c.bootInfo
      (n := ch.toNat * 16) (by omega)
  · have hrow := row.isLt
    refine .cons ?_ (.flatMap fun col hcol => .cons ?_ (.cons ?_ ?_))
    · exact_mod_cast fine_value c.bootInfo
        (n := ch.toNat * 16 + row.val) (by omega)
    · have hlt := List.mem_range.1 hcol
      exact_mod_cast fine_value c.bootInfo
        (n := x.toNat + col) (by omega)
    · exact_mod_cast fine_value c.bootInfo
        (n := y.toNat + row.val) (by omega)
    · exact fine_drawPixel h _ _ _

/-- Where the cursor is behind every byte. -/
structure OnScreen (c : FramebufferConsole) : Prop where
  column : c.cursorX.toNat + 8 < c.bootInfo.screenWidth.toNat ∨ c.cursorX = 0
  row : c.cursorY.toNat + 16 < c.bootInfo.screenHeight.toNat

theorem fine_scroll (h : c.bootInfo.HasRoom) (hrow : 16 ≤ c.cursorY.toNat) :
    AllFine c.bootInfo c.scroll.2 := by
  have hheight := c.bootInfo.screenHeight.toNat_lt
  have hroom := h.height
  have hy := c.cursorY.toNat_lt
  refine .append (.append (fine_copyRows h) (.cons ?_ ?_)) (.cons ?_ .nil)
  · show (0 : Int) ≤ _ ∧ _
    omega
  · exact .flatMap fun y _ => .flatMap fun x _ => fine_drawPixel h x y _
  · show (0 : Int) ≤ _ ∧ _
    omega

/-- The address arithmetic of a new line, and where it leaves the cursor. -/
theorem newLine_spec (h : c.bootInfo.HasRoom) (hx : c.cursorX.toNat < 65536)
    (hy : c.cursorY.toNat + 16 < c.bootInfo.screenHeight.toNat) :
    c.newLine.1.bootInfo = c.bootInfo ∧ c.newLine.1.OnScreen ∧
      AllFine c.bootInfo c.newLine.2 := by
  have hheight := c.bootInfo.screenHeight.toNat_lt
  have hnext : (c.cursorY + 16).toNat = c.cursorY.toNat + 16 := by
    rw [UInt32.toNat_add]
    exact Nat.mod_eq_of_lt (show c.cursorY.toNat + 16 < 2 ^ 32 by omega)
  have hbelow : (c.cursorY + 16 + 16).toNat = c.cursorY.toNat + 32 := by
    rw [UInt32.toNat_add, hnext]
    exact Nat.mod_eq_of_lt (show c.cursorY.toNat + 16 + 16 < 2 ^ 32 by omega)
  have hevents : AllFine c.bootInfo
      (c.drawCharAt c.cursorX c.cursorY 0x20 c.bgColor c.bgColor ++
        [.value (c.cursorY.toNat + 16),
          .value ((c.cursorY + 16).toNat + 16)]) := by
    refine .append (fine_drawCharAt h _ _ _ hx (by omega))
      (.cons ?_ (.cons ?_ .nil))
    · exact_mod_cast fine_value c.bootInfo
        (n := c.cursorY.toNat + 16) (by omega)
    · rw [hnext]
      exact_mod_cast fine_value c.bootInfo
        (n := c.cursorY.toNat + 16 + 16) (by omega)
  rw [newLine]
  split
  · -- The row that has no room is scrolled back.
    refine ⟨rfl, ⟨.inr rfl, ?_⟩, ?_⟩
    · have hback : (c.cursorY + 16 - 16).toNat = c.cursorY.toNat := by
        rw [UInt32.add_sub_cancel]
      show (c.cursorY + 16 - 16).toNat + 16 < c.bootInfo.screenHeight.toNat
      omega
    · exact .append hevents (fine_scroll
        (c := { c with cursorX := 0, cursorY := c.cursorY + 16 }) h
        (by show 16 ≤ (c.cursorY + 16).toNat; omega))
  · next hroom =>
      have hlt : (c.cursorY + 16 + 16).toNat <
          c.bootInfo.screenHeight.toUInt32.toNat :=
        UInt32.lt_iff_toNat_lt.1 (UInt32.not_le.1 hroom)
      rw [hbelow, UInt16.toNat_toUInt32] at hlt
      refine ⟨rfl, ⟨.inr rfl, ?_⟩, hevents⟩
      show (c.cursorY + 16).toNat + 16 < c.bootInfo.screenHeight.toNat
      omega

/-- A character that is printed, and the new line at the end of a row. -/
theorem writeChar_printed {ch : UInt8} (hn : ch ≠ 0x0A) (hr : ch ≠ 0x0D) :
    c.writeChar ch =
      if c.cursorX + 8 + 8 ≥ c.bootInfo.screenWidth.toUInt32 then
        (({ c with cursorX := c.cursorX + 8 } : FramebufferConsole).newLine.1,
          c.drawCharAt c.cursorX c.cursorY ch c.textColor c.bgColor ++
            [.value (c.cursorX.toNat + 8),
              .value ((c.cursorX + 8).toNat + 8)] ++
            ({ c with
              cursorX := c.cursorX + 8 } : FramebufferConsole).newLine.2)
      else
        ({ c with cursorX := c.cursorX + 8 },
          c.drawCharAt c.cursorX c.cursorY ch c.textColor c.bgColor ++
            [.value (c.cursorX.toNat + 8),
              .value ((c.cursorX + 8).toNat + 8)]) := by
  rw [writeChar, if_neg hn, if_neg hr]

theorem writeChar_spec (h : c.bootInfo.HasRoom) (hon : c.OnScreen)
    (ch : UInt8) : (c.writeChar ch).1.bootInfo = c.bootInfo ∧
      (c.writeChar ch).1.OnScreen ∧ AllFine c.bootInfo (c.writeChar ch).2 := by
  have hwidth := c.bootInfo.screenWidth.toNat_lt
  have hroom := h.width
  have hrow := hon.row
  have hcolumn : c.cursorX.toNat + 8 < c.bootInfo.screenWidth.toNat := by
    rcases hon.column with hlt | hzero
    · exact hlt
    · rw [hzero]
      exact hroom
  by_cases hn : ch = 0x0A
  · rw [writeChar, if_pos hn]
    exact newLine_spec h (by omega) hrow
  · by_cases hr : ch = 0x0D
    · rw [writeChar, if_neg hn, if_pos hr]
      exact ⟨rfl, ⟨.inr rfl, hrow⟩, .nil⟩
    · have hnext : (c.cursorX + 8).toNat = c.cursorX.toNat + 8 := by
        rw [UInt32.toNat_add]
        exact Nat.mod_eq_of_lt (show c.cursorX.toNat + 8 < 2 ^ 32 by omega)
      have hright : (c.cursorX + 8 + 8).toNat = c.cursorX.toNat + 16 := by
        rw [UInt32.toNat_add, hnext]
        exact Nat.mod_eq_of_lt (show c.cursorX.toNat + 8 + 8 < 2 ^ 32 by omega)
      have hevents : AllFine c.bootInfo
          (c.drawCharAt c.cursorX c.cursorY ch c.textColor c.bgColor ++
            [.value (c.cursorX.toNat + 8),
              .value ((c.cursorX + 8).toNat + 8)]) := by
        refine .append (fine_drawCharAt h _ _ _ (by omega) (by omega))
          (.cons ?_ (.cons ?_ .nil))
        · exact_mod_cast fine_value c.bootInfo
            (n := c.cursorX.toNat + 8) (by omega)
        · rw [hnext]
          exact_mod_cast fine_value c.bootInfo
            (n := c.cursorX.toNat + 8 + 8) (by omega)
      rw [writeChar_printed hn hr]
      split
      · obtain ⟨hinfo, hon', hfine⟩ := newLine_spec
          (c := { c with cursorX := c.cursorX + 8 }) h
          (by show (c.cursorX + 8).toNat < _; omega) hrow
        exact ⟨hinfo, hon', .append hevents hfine⟩
      · next hfits =>
          have hlt : (c.cursorX + 8 + 8).toNat <
              c.bootInfo.screenWidth.toUInt32.toNat :=
            UInt32.lt_iff_toNat_lt.1 (UInt32.not_le.1 hfits)
          rw [hright, UInt16.toNat_toUInt32] at hlt
          refine ⟨rfl, ⟨.inl ?_, hrow⟩, hevents⟩
          show (c.cursorX + 8).toNat + 8 < c.bootInfo.screenWidth.toNat
          omega

/-! ## Runs -/

/-- A run from a console with its cursor on the screen: where it ends, and that
nothing on the way went wrong. -/
structure Safe (c : FramebufferConsole)
    (r : FramebufferConsole × List Event) : Prop where
  info : r.1.bootInfo = c.bootInfo
  onScreen : r.1.OnScreen
  fine : AllFine c.bootInfo r.2

/-- One run behind another. -/
theorem Safe.trans {r r' : FramebufferConsole × List Event} (h : c.Safe r)
    (h' : r.1.Safe r') : c.Safe (r'.1, r.2 ++ r'.2) := by
  refine ⟨h'.info.trans h.info, h'.onScreen, .append h.fine ?_⟩
  rw [← h.info]
  exact h'.fine

theorem safe_writeBytes (h : c.bootInfo.HasRoom) (hon : c.OnScreen)
    (s : List UInt8) : c.Safe (c.writeBytes s) := by
  induction s generalizing c with
  | nil => exact ⟨rfl, hon, .nil⟩
  | cons ch s ih =>
      obtain ⟨hinfo, hon', hfine⟩ := writeChar_spec h hon ch
      have hroom : (c.writeChar ch).1.bootInfo.HasRoom := by
        rw [hinfo]
        exact h
      exact Safe.trans (r := c.writeChar ch) ⟨hinfo, hon', hfine⟩
        (ih hroom hon')

theorem safe_renderCursor (h : c.bootInfo.HasRoom) (hon : c.OnScreen) :
    c.Safe (c, c.renderCursor) := by
  have hwidth := c.bootInfo.screenWidth.toNat_lt
  have hrow := hon.row
  refine ⟨rfl, hon, fine_drawCharAt h _ _ _ ?_ (by omega)⟩
  rcases hon.column with hlt | hzero
  · omega
  · rw [hzero]
    decide

theorem safe_perform (h : c.bootInfo.HasRoom) (hon : c.OnScreen)
    (call : WriteCall) : c.Safe (c.perform call) := by
  cases call with
  | char ch =>
      obtain ⟨hinfo, hon', hfine⟩ := writeChar_spec h hon ch
      exact ⟨hinfo, hon', hfine⟩
  | str s =>
      have hbytes := safe_writeBytes h hon s
      have hroom : (c.writeBytes s).1.bootInfo.HasRoom := by
        rw [hbytes.info]
        exact h
      exact hbytes.trans (safe_renderCursor hroom hbytes.onScreen)
  | fmtStr s => exact safe_writeBytes h hon s

theorem safe_performAll (h : c.bootInfo.HasRoom) (hon : c.OnScreen)
    (calls : List WriteCall) : c.Safe (c.performAll calls) := by
  induction calls generalizing c with
  | nil => exact ⟨rfl, hon, .nil⟩
  | cons call calls ih =>
      have hcall := safe_perform h hon call
      have hroom : (c.perform call).1.bootInfo.HasRoom := by
        rw [hcall.info]
        exact h
      exact hcall.trans (ih hroom hcall.onScreen)

theorem onScreen_new (h : info.HasRoom) (fontData : Vector UInt8 4096) :
    (new info fontData).OnScreen := ⟨.inr rfl, h.height⟩

end FramebufferConsole

/-- On a screen with room, behind any calls and any first bytes of a next one,
the cursor is in its bounds, and up to there no 32-bit computation has wrapped,
every character has had its sixteen rows on the screen, and every store, those
of a scroll included, has gone to bytes of the framebuffer. -/
theorem console_in_bounds {info : BootInfo} (h : info.HasRoom)
    (fontData : Vector UInt8 4096) (calls : List WriteCall)
    (s : List UInt8) :
    (((FramebufferConsole.new info fontData).performAll calls).1.writeBytes
        s).1.OnScreen ∧
      (((FramebufferConsole.new info fontData).performAll calls).1.writeBytes
        s).1.bootInfo = info ∧
      AllFine info
        (((FramebufferConsole.new info fontData).performAll calls).2 ++
          (((FramebufferConsole.new info fontData).performAll
            calls).1.writeBytes s).2) := by
  have hcalls := FramebufferConsole.safe_performAll
    (c := .new info fontData) h (FramebufferConsole.onScreen_new h fontData)
    calls
  have hroom : ((FramebufferConsole.new info fontData).performAll
      calls).1.bootInfo.HasRoom := by
    rw [hcalls.info]
    exact h
  have hsafe := hcalls.trans
    (FramebufferConsole.safe_writeBytes hroom hcalls.onScreen s)
  exact ⟨hsafe.onScreen, hsafe.info, hsafe.fine⟩

/-- The mode of the boot sector, 1280 by 1024 pixels of 32 bits. -/
def bigScreen : BootInfo where
  framebufferAddr := 0xFD000000
  screenWidth := 1280
  screenHeight := 1024
  bpp := 32
  pitch := 5120
  bootDrive := 0x80
  memoryMapCount := 0
  memoryMap := Vector.replicate 32 ⟨0, 0, 0, 0⟩

theorem hasRoom_bigScreen : bigScreen.HasRoom := by
  refine ⟨.inl rfl, ?_, ?_, ?_, ?_⟩ <;> decide

theorem console_in_bounds_bigScreen :
    (((FramebufferConsole.new bigScreen (Vector.replicate 4096 0)).performAll
      [.str [0x48, 0x69, 0x0A]]).1.writeBytes [0x21]).1.OnScreen :=
  (console_in_bounds hasRoom_bigScreen (Vector.replicate 4096 0)
    [.str [0x48, 0x69, 0x0A]] [0x21]).1

end TermOS.Boot
