import TermOS.Proofs.FramebufferBounds

/-!
# The rows that scroll away

`scroll` moves sixteen rows of pixels up, four bytes for each pixel, whatever
the format. A row of pixels of two or three bytes is then read and written
beyond its end: into the padding, if there is enough, or into the next row, and
behind the last row out of the framebuffer. Where the rows are long enough for
four bytes a pixel the loop is a move of rows that do not overlap, from the
first on, and it does not matter that it moves more than the pixels.
-/

namespace TermOS.Boot

open TermOS.Lib
open TermOS.Lib.MemOp
open TermOS.Lib.ByteMemory (bytes16 bytes32)

def accesses (es : List Event) : List MemOp :=
  es.flatMap fun e =>
    match e with
    | .access op => [op]
    | _ => []

theorem accesses_append (es es' : List Event) :
    accesses (es ++ es') = accesses es ++ accesses es' := List.flatMap_append

theorem accesses_flatMap {α : Type} (l : List α) (f : α → List Event) :
    accesses (l.flatMap f) = l.flatMap fun x => accesses (f x) :=
  List.flatMap_assoc

theorem accesses_map (ops : List MemOp) :
    accesses (ops.map .access) = ops := by
  induction ops with
  | nil => rfl
  | cons op ops ih =>
      show op :: accesses (ops.map .access) = op :: ops
      rw [ih]

/-! ## What is asked of it -/

namespace BootInfo

/-- Where a pixel begins behind the base of the framebuffer. -/
def place (info : BootInfo) (x y : Nat) : Nat :=
  y * info.pitch.toNat + x * info.pixelSize

/-- The bytes of a pixel. -/
def pixel (info : BootInfo) (m : UInt32 → UInt8) (x y : Nat) : List UInt8 :=
  (addresses (info.framebufferAddr + UInt32.ofNat (info.place x y))
    info.pixelSize).map m

/-- The bytes of a color in the format of the screen. -/
def colorBytes (info : BootInfo) (color : UInt32) : List UInt8 :=
  if info.bpp = 32 then bytes32 color
  else if info.bpp = 16 then bytes16 (color16 color)
  else
    [(color &&& 0xFF).toUInt8, ((color >>> 8) &&& 0xFF).toUInt8,
      ((color >>> 16) &&& 0xFF).toUInt8]

/-- The pixels from the sixteenth row on have moved up, the last sixteen rows
have the color, and no access was outside the framebuffer. -/
structure Scrolled (info : BootInfo) (bg : UInt32) (ops : List MemOp)
    (m : UInt32 → UInt8) : Prop where
  moved : ∀ x y, x < info.screenWidth.toNat →
    y + 16 < info.screenHeight.toNat →
    info.pixel (run m ops) x y = info.pixel m x (y + 16)
  filled : ∀ x y, x < info.screenWidth.toNat →
    info.screenHeight.toNat ≤ y + 16 → y < info.screenHeight.toNat →
    info.pixel (run m ops) x y = info.colorBytes bg
  inside : ∀ a ∈ ops.flatMap touched, info.Inside a

/-- A screen as the claims about it take it. -/
structure Scrollable (info : BootInfo) : Prop where
  bpp : info.Drawable
  width : 1 ≤ info.screenWidth.toNat
  height : 16 ≤ info.screenHeight.toNat
  pitch : info.screenWidth.toNat * info.pixelSize ≤ info.pitch.toNat

/-- The bytes of the last row that are read. -/
def reach (info : BootInfo) : Nat :=
  if info.screenHeight.toNat = 16 then
    info.screenWidth.toNat * info.pixelSize
  else info.screenWidth.toNat * 4

/-- Rows for four bytes a pixel, unless no row is moved, and no address that
wraps. -/
def LongRows (info : BootInfo) : Prop :=
  (info.screenHeight.toNat = 16 ∨
    info.screenWidth.toNat * 4 ≤ info.pitch.toNat) ∧
  info.framebufferAddr.toNat +
    (info.screenHeight.toNat - 1) * info.pitch.toNat + info.reach ≤ 2 ^ 32

end BootInfo

/-! ## The program -/

section Program

variable {info : BootInfo} {bg color : UInt32} {n : Nat}

theorem toUInt32_eq (p : UInt16) : p.toUInt32 = UInt32.ofNat p.toNat := by
  apply UInt32.toNat_inj.1
  have hp := p.toNat_lt
  rw [UInt16.toNat_toUInt32, UInt32.toNat_ofNat', Nat.mod_eq_of_lt (by omega)]

/-- An address that is computed with wraps. -/
theorem address_eq (base : UInt32) (p : UInt16) (x y size : Nat) :
    base + UInt32.ofNat y * p.toUInt32 + UInt32.ofNat x * UInt32.ofNat size =
      base + UInt32.ofNat (y * p.toNat + x * size) := by
  rw [toUInt32_eq, ← UInt32.ofNat_mul, ← UInt32.ofNat_mul, UInt32.add_assoc,
    ← UInt32.ofNat_add]

theorem rangeU32_ofNat (a : Nat) (b : UInt16) (ha : a < 2 ^ 32) :
    rangeU32 (UInt32.ofNat a) b.toUInt32 =
      (List.range (b.toNat - a)).map fun i => UInt32.ofNat (a + i) := by
  rw [rangeU32, UInt16.toNat_toUInt32, UInt32.toNat_ofNat',
    Nat.mod_eq_of_lt ha]
  refine List.map_congr_left fun i _ => ?_
  rw [UInt32.ofNat_add]

/-- The bytes of one pixel on their way. -/
def copyPixel (info : BootInfo) (r x : Nat) : MemOp :=
  .copy 4
    (info.framebufferAddr + UInt32.ofNat ((16 + r) * info.pitch.toNat + x * 4))
    (info.framebufferAddr + UInt32.ofNat (r * info.pitch.toNat + x * 4))

theorem accesses_copyRows (info : BootInfo) :
    accesses (FramebufferConsole.copyRows info) =
      (List.range (info.screenHeight.toNat - 16)).flatMap fun r =>
        (List.range info.screenWidth.toNat).flatMap fun x =>
          [copyPixel info r x] := by
  have hrows := rangeU32_ofNat 16 info.screenHeight (by omega)
  have hcolumns := rangeU32_ofNat 0 info.screenWidth (by omega)
  rw [Nat.sub_zero] at hcolumns
  rw [FramebufferConsole.copyRows, show (16 : UInt32) = UInt32.ofNat 16 from rfl,
    show (0 : UInt32) = UInt32.ofNat 0 from rfl, hrows, hcolumns,
    accesses_flatMap, List.flatMap_map]
  refine List.flatMap_congr fun r _ => ?_
  have hback : UInt32.ofNat (16 + r) - UInt32.ofNat 16 = UInt32.ofNat r := by
    rw [UInt32.ofNat_add, UInt32.add_comm, UInt32.add_sub_cancel]
  rw [List.map_map, accesses, List.flatMap_map]
  refine List.flatMap_congr fun x _ => ?_
  have hsize : (4 : UInt32) = UInt32.ofNat 4 := rfl
  simp only [Function.comp_apply]
  rw [Nat.zero_add, hback, hsize, address_eq, address_eq, copyPixel]

theorem accesses_drawPixel (h : info.Drawable) {x y : Nat}
    (hx : x < info.screenWidth.toNat) (hy : y < info.screenHeight.toNat) :
    accesses (drawPixel info (UInt32.ofNat x) (UInt32.ofNat y) color) =
      info.pixelStores color
        (info.framebufferAddr + UInt32.ofNat (info.place x y)) := by
  have hwidth := info.screenWidth.toNat_lt
  have hheight := info.screenHeight.toNat_lt
  have hx' : (UInt32.ofNat x).toNat = x := by
    rw [UInt32.toNat_ofNat', Nat.mod_eq_of_lt (by omega)]
  have hy' : (UInt32.ofNat y).toNat = y := by
    rw [UInt32.toNat_ofNat', Nat.mod_eq_of_lt (by omega)]
  rw [drawPixel_eq h (by rw [hx']; exact hx) (by rw [hy']; exact hy),
    storePixel, address_eq]
  exact accesses_map _

theorem accesses_fillRows (h : info.Scrollable) (bg : UInt32) :
    accesses (FramebufferConsole.fillRows info bg) =
      (List.range 16).flatMap fun i =>
        (List.range info.screenWidth.toNat).flatMap fun x =>
          info.pixelStores bg (info.framebufferAddr +
            UInt32.ofNat (info.place x (info.screenHeight.toNat - 16 + i))) := by
  have hheight := h.height
  have hlt := info.screenHeight.toNat_lt
  have hstart : info.screenHeight.toUInt32 - 16 =
      UInt32.ofNat (info.screenHeight.toNat - 16) := by
    rw [toUInt32_eq, UInt32.ofNat_sub hheight]
    rfl
  have hrows := rangeU32_ofNat (info.screenHeight.toNat - 16)
    info.screenHeight (by omega)
  have hcolumns := rangeU32_ofNat 0 info.screenWidth (by omega)
  rw [Nat.sub_zero] at hcolumns
  rw [show info.screenHeight.toNat - (info.screenHeight.toNat - 16) = 16 by
    omega] at hrows
  rw [FramebufferConsole.fillRows, hstart,
    show (0 : UInt32) = UInt32.ofNat 0 from rfl, hrows, hcolumns,
    accesses_flatMap, List.flatMap_map]
  refine List.flatMap_congr fun i hi => ?_
  have hi' := List.mem_range.1 hi
  rw [accesses_flatMap, List.flatMap_map]
  refine List.flatMap_congr fun x hx => ?_
  rw [Nat.zero_add]
  exact accesses_drawPixel h.bpp (List.mem_range.1 hx) (by omega)

/-- The accesses of `scroll`, first those of the copy. -/
theorem accesses_scroll (c : FramebufferConsole) :
    accesses c.scroll.2 =
      accesses (FramebufferConsole.copyRows c.bootInfo) ++
        accesses (FramebufferConsole.fillRows c.bootInfo c.bgColor) := by
  show accesses (FramebufferConsole.copyRows c.bootInfo ++
    .value _ :: FramebufferConsole.fillRows c.bootInfo c.bgColor ++
    [.value _]) = _
  rw [accesses_append, accesses_append]
  exact List.append_nil _

end Program

/-! ## What the program does -/

section Meaning

variable {info : BootInfo} {bg color : UInt32} {m : UInt32 → UInt8}
  {g g₀ : Nat → UInt8}

/-- The height of the framebuffer is that of its rows, and below 2^32. -/
theorem rows_lt (info : BootInfo) :
    info.pitch.toNat * info.screenHeight.toNat < 2 ^ 32 ∧
      (info.screenHeight.toNat + 1) * info.pitch.toNat < 2 ^ 32 := by
  have hpitch := info.pitch.toNat_lt
  have hheight := info.screenHeight.toNat_lt
  have hle : (info.screenHeight.toNat + 1) * info.pitch.toNat ≤
      65536 * 65535 :=
    Nat.mul_le_mul (by omega) (by omega)
  have hmul : (info.screenHeight.toNat + 1) * info.pitch.toNat =
      info.pitch.toNat * info.screenHeight.toNat + info.pitch.toNat := by
    rw [Nat.succ_mul, Nat.mul_comm]
  omega

/-- A row lies below the rows behind it. -/
theorem row_le (info : BootInfo) {r r' : Nat} (h : r < r') :
    r * info.pitch.toNat + info.pitch.toNat ≤ r' * info.pitch.toNat :=
  block_le h

/-- One pixel of a row that is moved. -/
def movePixel (info : BootInfo) (r x : Nat) (g : Nat → UInt8) : Nat → UInt8 :=
  putAt g (r * info.pitch.toNat + x * 4)
    ((List.range 4).map fun k => g ((16 + r) * info.pitch.toNat + x * 4 + k))

def moveRow (info : BootInfo) (r : Nat) (g : Nat → UInt8) : Nat → UInt8 :=
  sweep (movePixel info r) g info.screenWidth.toNat

/-- A row, pixel by pixel. -/
theorem moveRow_pixels (hlong : info.screenWidth.toNat * 4 ≤ info.pitch.toNat)
    (r : Nat) (g : Nat → UInt8) :
    (∀ x < info.screenWidth.toNat, ∀ k < 4,
      moveRow info r g (r * info.pitch.toNat + x * 4 + k) =
        g ((16 + r) * info.pitch.toNat + x * 4 + k)) ∧
    Untouched (fun x => r * info.pitch.toNat + x * 4) 4 g (moveRow info r g)
      info.screenWidth.toNat := by
  have hrows := row_le info (show r < 16 + r by omega)
  refine sweep_blocks _ _ _ ?_ ?_
  · intro x x' hlt _
    omega
  · intro x hx g' huntouched
    have hlen : ((List.range 4).map fun k =>
        g' ((16 + r) * info.pitch.toNat + x * 4 + k)).length = 4 := by
      rw [List.length_map, List.length_range]
    refine ⟨?_, ?_⟩
    · intro k hk
      rw [movePixel, putAt_at _ _ (hlen.symm ▸ hk),
        List.getD_eq_getElem _ _ (hlen.symm ▸ hk), List.getElem_map,
        List.getElem_range]
      -- What is read lies behind the whole row that is written.
      refine huntouched _ fun i hi => .inr ?_
      show r * info.pitch.toNat + i * 4 + 4 ≤ _
      omega
    · intro k hk
      exact putAt_of_not (hlen.symm ▸ hk)

/-- A row is moved as if all of it were read before any of it is written. -/
theorem writes_moveRow (hlong : info.screenWidth.toNat * 4 ≤ info.pitch.toNat)
    (r : Nat) (g : Nat → UInt8) :
    Writes (moveRow info r) (r * info.pitch.toNat)
      (info.screenWidth.toNat * 4)
      (fun j => g ((16 + r) * info.pitch.toNat + j)) g := by
  obtain ⟨hpixels, hframe⟩ := moveRow_pixels hlong r g
  refine ⟨?_, ?_⟩
  · intro j hj
    have hdiv : r * info.pitch.toNat + j =
        r * info.pitch.toNat + j / 4 * 4 + j % 4 := by omega
    rw [hdiv]
    refine (hpixels (j / 4) (by omega) (j % 4) (by omega)).trans ?_
    congr 1
    omega
  · intro k hk
    refine hframe k fun x hx => ?_
    show k < r * info.pitch.toNat + x * 4 ∨
      r * info.pitch.toNat + x * 4 + 4 ≤ k
    omega

theorem sweep_moveRow (hlong : info.screenWidth.toNat * 4 ≤ info.pitch.toNat)
    (g : Nat → UInt8) (n : Nat) :
    (∀ r < n, ∀ j < info.screenWidth.toNat * 4,
      sweep (moveRow info) g n (r * info.pitch.toNat + j) =
        g ((16 + r) * info.pitch.toNat + j)) ∧
    Untouched (fun r => r * info.pitch.toNat) (info.screenWidth.toNat * 4) g
      (sweep (moveRow info) g n) n := by
  refine sweep_blocks _ _ _ ?_ ?_
  · intro r r' hlt _
    have hle := row_le info hlt
    omega
  · intro r hr g' huntouched
    have hwrites := writes_moveRow hlong r g'
    refine ⟨?_, hwrites.frame⟩
    intro j hj
    rw [hwrites.block j hj]
    -- The row that is read is not one of those that have been written.
    refine huntouched _ fun i hi => .inr ?_
    have hle := row_le info (show i < 16 + r by omega)
    show i * info.pitch.toNat + info.screenWidth.toNat * 4 ≤ _
    omega

/-- The stores of a pixel, at its place. -/
theorem window_pixelStores (h : info.Drawable) {base : UInt32} {o : Nat}
    (ho : o + info.pixelSize ≤ 2 ^ 32) :
    window base (run m (info.pixelStores color (base + UInt32.ofNat o))) =
      putAt (window base m) o (info.colorBytes color) := by
  rw [BootInfo.pixelStores, BootInfo.colorBytes]
  rcases h.cases with ⟨hbpp, hsize⟩ | ⟨hbpp, hsize⟩ | ⟨hbpp, hsize⟩
  · rw [if_pos hbpp, if_pos hbpp]
    exact window_write (by show o + 4 ≤ 2 ^ 32; omega) (by omega)
  · rw [hbpp, if_neg (by decide), if_neg (by decide), if_neg (by decide),
      if_neg (by decide)]
    have hnext : ∀ k, base + UInt32.ofNat o + UInt32.ofNat k =
        base + UInt32.ofNat (o + k) := by
      intro k
      rw [UInt32.add_assoc, ← UInt32.ofNat_add]
    show window base (exec (exec (exec m _)
      (.write (base + UInt32.ofNat o + UInt32.ofNat 1) _))
      (.write (base + UInt32.ofNat o + UInt32.ofNat 2) _)) = _
    rw [hnext, hnext, window_write (by show o + 2 + 1 ≤ 2 ^ 32; omega) (by omega),
      window_write (by show o + 1 + 1 ≤ 2 ^ 32; omega) (by omega),
      window_write (by show o + 1 ≤ 2 ^ 32; omega) (by omega)]
    have hfirst := putAt_putAt (window base m) o [(color &&& 0xFF).toUInt8]
      [((color >>> 8) &&& 0xFF).toUInt8]
    have hall := putAt_putAt (window base m) o
      [(color &&& 0xFF).toUInt8, ((color >>> 8) &&& 0xFF).toUInt8]
      [((color >>> 16) &&& 0xFF).toUInt8]
    rw [show o + 1 = o + [(color &&& 0xFF).toUInt8].length from rfl, hfirst]
    exact hall
  · rw [hbpp, if_neg (by decide), if_pos rfl, if_neg (by decide), if_pos rfl]
    exact window_write (by show o + 2 ≤ 2 ^ 32; omega) (by omega)

theorem length_colorBytes (h : info.Drawable) (color : UInt32) :
    (info.colorBytes color).length = info.pixelSize := by
  rw [BootInfo.colorBytes]
  rcases h.cases with ⟨hbpp, hsize⟩ | ⟨hbpp, hsize⟩ | ⟨hbpp, hsize⟩
  · rw [hbpp, hsize, if_pos rfl]
    rfl
  · rw [hbpp, hsize, if_neg (by decide), if_neg (by decide)]
    rfl
  · rw [hbpp, hsize, if_neg (by decide), if_pos rfl]
    rfl

/-- One of the last rows is filled. -/
def fillRow (info : BootInfo) (bg : UInt32) (i : Nat) (g : Nat → UInt8) :
    Nat → UInt8 :=
  sweep (fun x g => putAt g (info.place x (info.screenHeight.toNat - 16 + i))
    (info.colorBytes bg)) g info.screenWidth.toNat

theorem fillRow_pixels (h : info.Scrollable) (bg : UInt32) (i : Nat)
    (g : Nat → UInt8) :
    (∀ x < info.screenWidth.toNat, ∀ k < info.pixelSize,
      fillRow info bg i g
          (info.place x (info.screenHeight.toNat - 16 + i) + k) =
        (info.colorBytes bg).getD k 0) ∧
    Untouched (fun x => info.place x (info.screenHeight.toNat - 16 + i))
      info.pixelSize g (fillRow info bg i g) info.screenWidth.toNat := by
  have hlen := length_colorBytes h.bpp bg
  refine sweep_blocks _ _ _ ?_ ?_
  · intro x x' hlt _
    have hle := @block_le x x' info.pixelSize hlt
    rw [BootInfo.place, BootInfo.place]
    omega
  · intro x hx g' _
    refine ⟨?_, ?_⟩
    · intro k hk
      exact putAt_at g' _ (by omega)
    · intro k hk
      exact putAt_of_not (by omega)

theorem writes_fillRow (h : info.Scrollable) (bg : UInt32) (i : Nat)
    (g : Nat → UInt8) :
    Writes (fillRow info bg i)
      ((info.screenHeight.toNat - 16 + i) * info.pitch.toNat)
      (info.screenWidth.toNat * info.pixelSize)
      (fun j => (info.colorBytes bg).getD (j % info.pixelSize) 0) g := by
  obtain ⟨hpixels, hframe⟩ := fillRow_pixels h bg i g
  obtain ⟨hpos, -, -⟩ := h.bpp.pixelSize
  refine ⟨?_, ?_⟩
  · intro j hj
    have hmod := Nat.mod_lt j (show 0 < info.pixelSize by omega)
    have hcolumn : j / info.pixelSize < info.screenWidth.toNat :=
      Nat.div_lt_of_lt_mul (by rw [Nat.mul_comm]; exact hj)
    have hplace : (info.screenHeight.toNat - 16 + i) * info.pitch.toNat + j =
        info.place (j / info.pixelSize)
          (info.screenHeight.toNat - 16 + i) + j % info.pixelSize := by
      have hdiv := Nat.div_add_mod' j info.pixelSize
      rw [BootInfo.place]
      omega
    rw [hplace]
    exact hpixels _ hcolumn _ hmod
  · intro k hk
    refine hframe k fun x hx => ?_
    have hle := @block_le x _ info.pixelSize hx
    show k < info.place x _ ∨ info.place x _ + info.pixelSize ≤ k
    rw [BootInfo.place]
    omega

theorem sweep_fillRow (h : info.Scrollable) (bg : UInt32) (g : Nat → UInt8) :
    (∀ i < 16, ∀ x < info.screenWidth.toNat, ∀ k < info.pixelSize,
      sweep (fillRow info bg) g 16
          (info.place x (info.screenHeight.toNat - 16 + i) + k) =
        (info.colorBytes bg).getD k 0) ∧
    Untouched
      (fun i => (info.screenHeight.toNat - 16 + i) * info.pitch.toNat)
      (info.screenWidth.toNat * info.pixelSize) g
      (sweep (fillRow info bg) g 16) 16 := by
  have hpitch := h.pitch
  have happart : ∀ i j, i < j → j < 16 →
      (info.screenHeight.toNat - 16 + i) * info.pitch.toNat +
        info.screenWidth.toNat * info.pixelSize ≤
      (info.screenHeight.toNat - 16 + j) * info.pitch.toNat := by
    intro i j hlt _
    have hle := row_le info (show info.screenHeight.toNat - 16 + i <
      info.screenHeight.toNat - 16 + j by omega)
    omega
  obtain ⟨hrows, hframe⟩ := sweep_blocks (fillRow info bg) _ g happart
    fun i _ g' _ => writes_fillRow h bg i g'
  refine ⟨?_, hframe⟩
  intro i hi x hx k hk
  have hle := @block_le x _ info.pixelSize hx
  have hmod : (x * info.pixelSize + k) % info.pixelSize = k := by
    rw [Nat.mul_comm, Nat.mul_add_mod, Nat.mod_eq_of_lt hk]
  have hrow := hrows i hi (x * info.pixelSize + k) (by omega)
  rw [hmod] at hrow
  rw [BootInfo.place, Nat.add_assoc]
  exact hrow

/-- A pixel ends within its row, and the row within the framebuffer. -/
theorem place_le (h : info.Scrollable) {x y : Nat}
    (hx : x < info.screenWidth.toNat) (hy : y < info.screenHeight.toNat) :
    info.place x y + info.pixelSize ≤
        y * info.pitch.toNat + info.screenWidth.toNat * info.pixelSize ∧
      info.place x y + info.pixelSize ≤
        info.pitch.toNat * info.screenHeight.toNat := by
  have hpitch := h.pitch
  have hcolumn := @block_le x _ info.pixelSize hx
  have hrow := row_le info hy
  rw [BootInfo.place, Nat.mul_comm info.pitch.toNat info.screenHeight.toNat]
  omega

theorem pixel_eq (h : info.Scrollable) (m : UInt32 → UInt8) {x y : Nat}
    (hx : x < info.screenWidth.toNat) (hy : y < info.screenHeight.toNat) :
    info.pixel m x y = (List.range info.pixelSize).map fun k =>
      window info.framebufferAddr m (info.place x y + k) := by
  have hend := (place_le h hx hy).2
  have hlt := (rows_lt info).1
  exact map_addresses (by omega)

theorem window_copyRows (hlong : info.screenHeight.toNat = 16 ∨
      info.screenWidth.toNat * 4 ≤ info.pitch.toNat) :
    window info.framebufferAddr
        (run m (accesses (FramebufferConsole.copyRows info))) =
      sweep (moveRow info) (window info.framebufferAddr m)
        (info.screenHeight.toNat - 16) := by
  have hlt := (rows_lt info).1
  rw [Nat.mul_comm] at hlt
  rw [accesses_copyRows]
  refine window_run_flatMap (fun r hr m => ?_) m
  have hlong' := hlong.resolve_left (by omega)
  refine window_run_flatMap (f := movePixel info r) (fun x hx m => ?_) m
  have hrow := row_le info
    (show 16 + r < info.screenHeight.toNat by omega)
  have hback := row_le info (show r < 16 + r by omega)
  exact window_copy (by omega) (by omega) (by omega)

theorem window_fillRows (h : info.Scrollable) :
    window info.framebufferAddr
        (run m (accesses (FramebufferConsole.fillRows info bg))) =
      sweep (fillRow info bg) (window info.framebufferAddr m) 16 := by
  have hlt := (rows_lt info).1
  have hheight := h.height
  rw [accesses_fillRows h]
  refine window_run_flatMap (fun i hi m => ?_) m
  refine window_run_flatMap (f := fun x g =>
    putAt g (info.place x (info.screenHeight.toNat - 16 + i))
      (info.colorBytes bg)) (fun x hx m => ?_) m
  have hend := (place_le h hx
    (show info.screenHeight.toNat - 16 + i < _ by omega)).2
  exact window_pixelStores h.bpp (by omega)

/-- The memory that `scroll` leaves. -/
theorem window_scroll {c : FramebufferConsole} (h : c.bootInfo.Scrollable)
    (hlong : c.bootInfo.screenHeight.toNat = 16 ∨
      c.bootInfo.screenWidth.toNat * 4 ≤ c.bootInfo.pitch.toNat) :
    window c.bootInfo.framebufferAddr (run m (accesses c.scroll.2)) =
      sweep (fillRow c.bootInfo c.bgColor)
        (sweep (moveRow c.bootInfo) (window c.bootInfo.framebufferAddr m)
          (c.bootInfo.screenHeight.toNat - 16)) 16 := by
  rw [accesses_scroll, run_append, window_fillRows h, window_copyRows hlong]

end Meaning

/-! ## Which addresses are touched -/

section Touched

variable {info : BootInfo} {bg a : UInt32}

theorem mem_touched_copyRows : a ∈ (accesses
      (FramebufferConsole.copyRows info)).flatMap touched ↔
    ∃ r < info.screenHeight.toNat - 16, ∃ x < info.screenWidth.toNat,
      a ∈ addresses (info.framebufferAddr +
          UInt32.ofNat ((16 + r) * info.pitch.toNat + x * 4)) 4 ∨
      a ∈ addresses (info.framebufferAddr +
          UInt32.ofNat (r * info.pitch.toNat + x * 4)) 4 := by
  rw [accesses_copyRows, List.flatMap_assoc, List.mem_flatMap]
  refine exists_congr fun r => and_congr List.mem_range ?_
  rw [List.flatMap_assoc, List.mem_flatMap]
  refine exists_congr fun x => and_congr List.mem_range ?_
  rw [List.flatMap_singleton, copyPixel, touched, List.mem_append]

theorem mem_touched_fillRows (h : info.Scrollable) : a ∈ (accesses
      (FramebufferConsole.fillRows info bg)).flatMap touched ↔
    ∃ i < 16, ∃ x < info.screenWidth.toNat,
      a ∈ addresses (info.framebufferAddr + UInt32.ofNat
        (info.place x (info.screenHeight.toNat - 16 + i))) info.pixelSize := by
  rw [accesses_fillRows h, List.flatMap_assoc, List.mem_flatMap]
  refine exists_congr fun i => and_congr List.mem_range ?_
  rw [List.flatMap_assoc, List.mem_flatMap]
  refine exists_congr fun x => and_congr List.mem_range ?_
  rw [touched_pixelStores h.bpp]

/-- Bytes that end in front of 2^32. -/
theorem inside_offsets {o n : Nat} (hn : 0 < n)
    (hend : o + n ≤ info.pitch.toNat * info.screenHeight.toNat)
    (hbelow : info.framebufferAddr.toNat + o + n ≤ 2 ^ 32) :
    ∀ a ∈ addresses (info.framebufferAddr + UInt32.ofNat o) n,
      info.Inside a := by
  have ho : (info.framebufferAddr + UInt32.ofNat o).toNat =
      info.framebufferAddr.toNat + o := by
    rw [UInt32.toNat_add, UInt32.toNat_ofNat', Nat.mod_eq_of_lt (by omega),
      Nat.mod_eq_of_lt (by omega)]
  exact inside_addresses (by omega) (by omega) (by omega)

/-- One of the bytes of an access, as one behind the base. -/
theorem mem_addresses (base : UInt32) {o n k : Nat} (hk : k < n) :
    base + UInt32.ofNat (o + k) ∈ addresses (base + UInt32.ofNat o) n := by
  rw [UInt32.ofNat_add, ← UInt32.add_assoc]
  exact List.mem_map_of_mem (List.mem_range.2 hk)

/-- A byte in the framebuffer is not reached by a sum that wraps. -/
theorem offset_of_inside {o : Nat} (ho : o < 2 ^ 32)
    (h : info.Inside (info.framebufferAddr + UInt32.ofNat o)) :
    info.framebufferAddr.toNat + o < 2 ^ 32 ∧
      o < info.pitch.toNat * info.screenHeight.toNat := by
  have hbase := info.framebufferAddr.toNat_lt
  have hlt := (rows_lt info).1
  rw [BootInfo.Inside, UInt32.toNat_add, UInt32.toNat_ofNat',
    Nat.mod_eq_of_lt ho] at h
  omega

theorem inside_of_longRows (h : info.Scrollable) (hlong : info.LongRows)
    (ha : a ∈ (accesses (FramebufferConsole.copyRows info) ++
      accesses (FramebufferConsole.fillRows info bg)).flatMap touched) :
    info.Inside a := by
  obtain ⟨hpos, hsize, -⟩ := h.bpp.pixelSize
  have hheight := h.height
  obtain ⟨hrows, hbelow⟩ := hlong
  rw [List.flatMap_append, List.mem_append] at ha
  rcases ha with hcopy | hfill
  · obtain ⟨r, hr, x, hx, ha⟩ := mem_touched_copyRows.1 hcopy
    have hne : info.screenHeight.toNat ≠ 16 := by omega
    have hlong := hrows.resolve_left hne
    rw [BootInfo.reach, if_neg hne] at hbelow
    have hsource := Nat.mul_le_mul_right info.pitch.toNat
      (show 16 + r ≤ info.screenHeight.toNat - 1 by omega)
    have hdest := row_le info (show r < 16 + r by omega)
    have hlast := row_le info
      (show info.screenHeight.toNat - 1 < info.screenHeight.toNat by omega)
    rw [Nat.mul_comm info.screenHeight.toNat] at hlast
    rcases ha with hread | hwrite
    · exact inside_offsets (by omega) (by omega) (by omega) a hread
    · exact inside_offsets (by omega) (by omega) (by omega) a hwrite
  · obtain ⟨i, hi, x, hx, ha⟩ := (mem_touched_fillRows h).1 hfill
    have hplace := place_le h hx
      (show info.screenHeight.toNat - 16 + i < _ by omega)
    have hrow := Nat.mul_le_mul_right info.pitch.toNat
      (show info.screenHeight.toNat - 16 + i ≤ info.screenHeight.toNat - 1 by
        omega)
    have hreach : info.screenWidth.toNat * info.pixelSize ≤ info.reach := by
      rw [BootInfo.reach]
      split
      · exact Nat.le_refl _
      · exact Nat.mul_le_mul_left _ hsize
    exact inside_offsets (by omega) hplace.2 (by omega) a ha

/-- The last byte of the last pixel that is filled. -/
theorem fill_end_of_inside (h : info.Scrollable)
    (hinside : ∀ a ∈ (accesses
      (FramebufferConsole.fillRows info bg)).flatMap touched, info.Inside a) :
    info.framebufferAddr.toNat +
      (info.screenHeight.toNat - 1) * info.pitch.toNat +
      info.screenWidth.toNat * info.pixelSize ≤ 2 ^ 32 := by
  obtain ⟨hpos, -, -⟩ := h.bpp.pixelSize
  have hheight := h.height
  have hwidth := h.width
  have hlt := (rows_lt info).1
  have hcolumn : (info.screenWidth.toNat - 1) * info.pixelSize +
      info.pixelSize = info.screenWidth.toNat * info.pixelSize := by
    rw [← Nat.succ_mul]
    congr 1
    omega
  have hend := (place_le h (show info.screenWidth.toNat - 1 < _ by omega)
    (show info.screenHeight.toNat - 1 < _ by omega)).2
  have hrow : info.screenHeight.toNat - 16 + 15 =
      info.screenHeight.toNat - 1 := by omega
  have hmem : _ ∈ (accesses
      (FramebufferConsole.fillRows info bg)).flatMap touched :=
    (mem_touched_fillRows h).2 ⟨15, by omega,
      info.screenWidth.toNat - 1, by omega,
      mem_addresses _ (show info.pixelSize - 1 < info.pixelSize by omega)⟩
  rw [hrow] at hmem
  have hoffset := offset_of_inside (by omega) (hinside _ hmem)
  rw [BootInfo.place] at hoffset
  omega

/-- The last byte that is read. -/
theorem copy_end_of_inside (h : info.Scrollable)
    (hne : info.screenHeight.toNat ≠ 16)
    (hinside : ∀ a ∈ (accesses
      (FramebufferConsole.copyRows info)).flatMap touched, info.Inside a) :
    info.screenWidth.toNat * 4 ≤ info.pitch.toNat ∧
      info.framebufferAddr.toNat +
        (info.screenHeight.toNat - 1) * info.pitch.toNat +
        info.screenWidth.toNat * 4 ≤ 2 ^ 32 := by
  obtain ⟨hpos, -, -⟩ := h.bpp.pixelSize
  have hheight := h.height
  have hwidth := h.width
  have hpitch := h.pitch
  have hlt := (rows_lt info).2
  -- A pixel has two bytes at least, so a row read is two rows long at most.
  have hdouble : info.screenWidth.toNat * 4 ≤ 2 * info.pitch.toNat := by
    have hle := Nat.mul_le_mul_left info.screenWidth.toNat hpos
    omega
  have htotal : (info.screenHeight.toNat - 1) * info.pitch.toNat +
      2 * info.pitch.toNat =
      (info.screenHeight.toNat + 1) * info.pitch.toNat := by
    rw [← Nat.add_mul]
    congr 1
    omega
  have hall : info.pitch.toNat * info.screenHeight.toNat =
      (info.screenHeight.toNat - 1) * info.pitch.toNat + info.pitch.toNat := by
    rw [← Nat.succ_mul, Nat.mul_comm]
    congr 1
    omega
  have hrow : 16 + (info.screenHeight.toNat - 17) =
      info.screenHeight.toNat - 1 := by omega
  have hmem : _ ∈ (accesses
      (FramebufferConsole.copyRows info)).flatMap touched :=
    mem_touched_copyRows.2 ⟨info.screenHeight.toNat - 17, by omega,
      info.screenWidth.toNat - 1, by omega,
      .inl (mem_addresses _ (show 3 < 4 by omega))⟩
  rw [hrow] at hmem
  have hoffset := offset_of_inside (by omega) (hinside _ hmem)
  omega

theorem longRows_of_inside (h : info.Scrollable)
    (hinside : ∀ a ∈ (accesses (FramebufferConsole.copyRows info) ++
      accesses (FramebufferConsole.fillRows info bg)).flatMap touched,
      info.Inside a) : info.LongRows := by
  rw [List.flatMap_append, List.forall_mem_append] at hinside
  rw [BootInfo.LongRows, BootInfo.reach]
  by_cases hsixteen : info.screenHeight.toNat = 16
  · rw [if_pos hsixteen]
    exact ⟨.inl hsixteen, fill_end_of_inside h hinside.2⟩
  · rw [if_neg hsixteen]
    obtain ⟨hlong, hend⟩ := copy_end_of_inside h hsixteen hinside.1
    exact ⟨.inr hlong, hend⟩

end Touched

/-- On any screen with one of the three formats, `scroll` moves the pixels, fills
the last rows and stays in the framebuffer if and only if its rows are long
enough for four bytes a pixel, or none is moved, and the last byte it touches
lies below 2^32. -/
theorem scrolled_iff {c : FramebufferConsole} (h : c.bootInfo.Scrollable)
    (m : UInt32 → UInt8) :
    c.bootInfo.Scrolled c.bgColor (accesses c.scroll.2) m ↔
      c.bootInfo.LongRows := by
  have hheight := h.height
  refine ⟨?_, ?_⟩
  · intro hscrolled
    have hinside := hscrolled.inside
    rw [accesses_scroll] at hinside
    exact longRows_of_inside h hinside
  · intro hlong
    obtain ⟨-, hsize, -⟩ := h.bpp.pixelSize
    have hpitch := h.pitch
    have hwindow := window_scroll (m := m) h hlong.1
    obtain ⟨hfilled, huntouched⟩ := sweep_fillRow h c.bgColor
      (sweep (moveRow c.bootInfo) (window c.bootInfo.framebufferAddr m)
        (c.bootInfo.screenHeight.toNat - 16))
    refine ⟨?_, ?_, ?_⟩
    · intro x y hx hy
      have hrows := hlong.1.resolve_left (by omega)
      have hmoved := (sweep_moveRow hrows
        (window c.bootInfo.framebufferAddr m)
        (c.bootInfo.screenHeight.toNat - 16)).1 y (by omega)
      have hcolumn := @block_le x _ c.bootInfo.pixelSize hx
      have hfour := Nat.mul_le_mul_left c.bootInfo.screenWidth.toNat hsize
      rw [pixel_eq h _ hx (by omega), pixel_eq h _ hx hy, hwindow]
      refine List.map_congr_left fun k hk => ?_
      have hk' := List.mem_range.1 hk
      -- The fill lies behind the pixel, and the pixel has been moved.
      rw [huntouched _ fun i hi => .inl (by
        have hrow := row_le c.bootInfo
          (show y < c.bootInfo.screenHeight.toNat - 16 + i by omega)
        show c.bootInfo.place x y + k <
          (c.bootInfo.screenHeight.toNat - 16 + i) * c.bootInfo.pitch.toNat
        rw [BootInfo.place]
        omega)]
      rw [BootInfo.place, BootInfo.place, Nat.add_assoc, Nat.add_assoc,
        hmoved _ (by omega), Nat.add_comm 16]
    · intro x y hx hlo hy
      have hrow : c.bootInfo.screenHeight.toNat - 16 +
          (y - (c.bootInfo.screenHeight.toNat - 16)) = y := by omega
      have hpixel := hfilled (y - (c.bootInfo.screenHeight.toNat - 16))
        (by omega) x hx
      rw [hrow] at hpixel
      rw [pixel_eq h _ hx hy, hwindow]
      refine List.ext_getElem ?_ fun k hk hk' => ?_
      · rw [List.length_map, List.length_range, length_colorBytes h.bpp]
      · rw [List.length_map, List.length_range] at hk
        rw [List.getElem_map, List.getElem_range, hpixel k hk,
          List.getD_eq_getElem _ _ hk']
    · intro a ha
      rw [accesses_scroll] at ha
      exact inside_of_longRows h hlong ha

theorem scrollable_bigScreen : bigScreen.Scrollable := by
  refine ⟨.inl rfl, ?_, ?_, ?_⟩ <;> decide

theorem scrolled_iff_bigScreen :
    bigScreen.Scrolled 0
        (accesses (FramebufferConsole.new bigScreen
          (Vector.replicate 4096 0)).scroll.2) (fun _ => 0) ↔
      bigScreen.LongRows :=
  scrolled_iff (c := .new bigScreen (Vector.replicate 4096 0))
    scrollable_bigScreen fun _ => 0

/-- The same mode with 16 bits a pixel and the rows that it needs. -/
def bigScreen16 : BootInfo := { bigScreen with bpp := 16, pitch := 2560 }

/-- There `scroll` reads behind the last row. -/
theorem not_scrolled_bigScreen16 : bigScreen16.Scrollable ∧
    ¬ bigScreen16.Scrolled 0
      (accesses (FramebufferConsole.new bigScreen16
        (Vector.replicate 4096 0)).scroll.2) (fun _ => 0) := by
  have hscrollable : bigScreen16.Scrollable := by
    refine ⟨.inr (.inr rfl), ?_, ?_, ?_⟩ <;> decide
  refine ⟨hscrollable, ?_⟩
  intro hscrolled
  have hinside := hscrolled.inside
  rw [accesses_scroll] at hinside
  have hlong := (longRows_of_inside hscrollable hinside).1
  exact absurd hlong (by decide)

end TermOS.Boot
