import TermOS.Lib.BlockStores
import TermOS.Ref.BootInfo

/-!
# The console of the loader (`drivers/src/lib.rs`)

What a function does is a list of events: its accesses to memory in their order,
where it draws a character, and the value of each 32-bit computation before it
wraps. A release build wraps, and so do the definitions. No function but
`scroll` reads the memory it draws to, and what `scroll` reads it stores
elsewhere at once.

The sums of addresses in the copying loop of `scroll` are not recorded. The
colors of a `Color` are its 32 bits. `cursor_ticks` is kept beside the console,
because only `update_cursor` looks at it.
-/

namespace TermOS.Boot

open TermOS.Lib (MemOp)
open TermOS.Lib.ByteMemory (bytes16 bytes32)

inductive Event where
  /-- A 32-bit computation and its value before it wraps. -/
  | value (v : Int)
  /-- A call of `draw_char_at`. -/
  | glyph (x y : UInt32)
  | access (op : MemOp)

/-- `a..b`. -/
def rangeU32 (a b : UInt32) : List UInt32 :=
  (List.range (b.toNat - a.toNat)).map fun i => a + UInt32.ofNat i

/-- The address of a pixel of `size` bytes and the stores through it. -/
def storePixel (info : BootInfo) (rowOffset x size : UInt32)
    (stores : UInt32 → List MemOp) : List Event :=
  [.value (x.toNat * size.toNat),
    .value (info.framebufferAddr.toNat + rowOffset.toNat),
    .value ((info.framebufferAddr + rowOffset).toNat + (x * size).toNat)] ++
  (stores (info.framebufferAddr + rowOffset + x * size)).map .access

/-- RGB565. -/
def color16 (color : UInt32) : UInt16 :=
  let r := ((color >>> 16) &&& 0xFF) >>> 3
  let g := ((color >>> 8) &&& 0xFF) >>> 2
  let b := (color &&& 0xFF) >>> 3
  ((r <<< 11) ||| (g <<< 5) ||| b).toUInt16

def drawPixel (info : BootInfo) (x y color : UInt32) : List Event :=
  if x ≥ info.screenWidth.toUInt32 ∨ y ≥ info.screenHeight.toUInt32 then []
  else
    let rowOffset := y * info.pitch.toUInt32
    .value (y.toNat * info.pitch.toNat) ::
      if info.bpp = 32 then
        storePixel info rowOffset x 4 fun ptr => [.write ptr (bytes32 color)]
      else if info.bpp = 16 then
        storePixel info rowOffset x 2 fun ptr =>
          [.write ptr (bytes16 (color16 color))]
      else if info.bpp = 24 then
        storePixel info rowOffset x 3 fun ptr =>
          [.write ptr [(color &&& 0xFF).toUInt8],
            .write (ptr + 1) [((color >>> 8) &&& 0xFF).toUInt8],
            .write (ptr + 2) [((color >>> 16) &&& 0xFF).toUInt8]]
      else []

structure FramebufferConsole where
  bootInfo : BootInfo
  fontData : Vector UInt8 4096
  cursorX : UInt32
  cursorY : UInt32
  textColor : UInt32
  bgColor : UInt32
  cursorVisible : Bool
  cursorChar : UInt8

namespace FramebufferConsole

/-- `Color::WHITE` on `Color::BLACK`. -/
def new (bootInfo : BootInfo) (fontData : Vector UInt8 4096) :
    FramebufferConsole where
  bootInfo := bootInfo
  fontData := fontData
  cursorX := 0
  cursorY := 0
  textColor := 0x00FFFFFF
  bgColor := 0x00000000
  cursorVisible := true
  cursorChar := 0x3E

theorem font_index_lt (ch : UInt8) (row : Fin 16) :
    ch.toNat * 16 + row.val < 4096 := by
  have hch := ch.toNat_lt
  have hrow := row.isLt
  omega

/-- `self.font_data[font_offset + row]`. -/
def fontBits (c : FramebufferConsole) (ch : UInt8) (row : Fin 16) : UInt8 :=
  c.fontData.get ⟨ch.toNat * 16 + row.val, font_index_lt ch row⟩

/-- `ascii` is never 256 or more. -/
def drawCharAt (c : FramebufferConsole) (x y : UInt32) (ch : UInt8)
    (fg bg : UInt32) : List Event :=
  .glyph x y :: .value (ch.toNat * 16) ::
    (List.finRange 16).flatMap fun row =>
      .value (ch.toNat * 16 + row.val) ::
        (List.range 8).flatMap fun col =>
          let color :=
            if c.fontBits ch row &&& (0x80 >>> UInt8.ofNat col) ≠ 0 then fg
            else bg
          .value (x.toNat + col) :: .value (y.toNat + row.val) ::
            drawPixel c.bootInfo (x + UInt32.ofNat col)
              (y + UInt32.ofNat row.val) color

/-- The rows from the sixteenth on, moved up sixteen rows, four bytes at a
time. -/
def copyRows (info : BootInfo) : List Event :=
  (rangeU32 16 info.screenHeight.toUInt32).flatMap fun y =>
    let destRowOffset := (y - 16) * info.pitch.toUInt32
    let srcRowOffset := y * info.pitch.toUInt32
    (rangeU32 0 info.screenWidth.toUInt32).map fun x =>
      .access (.copy 4 (info.framebufferAddr + srcRowOffset + x * 4)
        (info.framebufferAddr + destRowOffset + x * 4))

/-- The last sixteen rows. -/
def fillRows (info : BootInfo) (bg : UInt32) : List Event :=
  let height := info.screenHeight.toUInt32
  (rangeU32 (height - 16) height).flatMap fun y =>
    (rangeU32 0 info.screenWidth.toUInt32).flatMap fun x =>
      drawPixel info x y bg

def scroll (c : FramebufferConsole) : FramebufferConsole × List Event :=
  ({ c with cursorY := c.cursorY - 16 },
    copyRows c.bootInfo ++
      .value (c.bootInfo.screenHeight.toNat - 16) ::
      fillRows c.bootInfo c.bgColor ++
      [.value (c.cursorY.toNat - 16)])

def newLine (c : FramebufferConsole) : FramebufferConsole × List Event :=
  let next := { c with cursorX := 0, cursorY := c.cursorY + 16 }
  let events :=
    c.drawCharAt c.cursorX c.cursorY 0x20 c.bgColor c.bgColor ++
      [.value (c.cursorY.toNat + 16), .value (next.cursorY.toNat + 16)]
  if next.cursorY + 16 ≥ c.bootInfo.screenHeight.toUInt32 then
    (next.scroll.1, events ++ next.scroll.2)
  else (next, events)

def writeChar (c : FramebufferConsole) (ch : UInt8) :
    FramebufferConsole × List Event :=
  if ch = 0x0A then c.newLine
  else if ch = 0x0D then ({ c with cursorX := 0 }, [])
  else
    let next := { c with cursorX := c.cursorX + 8 }
    let events :=
      c.drawCharAt c.cursorX c.cursorY ch c.textColor c.bgColor ++
        [.value (c.cursorX.toNat + 8), .value (next.cursorX.toNat + 8)]
    if next.cursorX + 8 ≥ c.bootInfo.screenWidth.toUInt32 then
      (next.newLine.1, events ++ next.newLine.2)
    else (next, events)

/-- The loop of both `write_str`, and all of the one of `fmt::Write`. -/
def writeBytes (c : FramebufferConsole) :
    List UInt8 → FramebufferConsole × List Event
  | [] => (c, [])
  | ch :: bytes =>
      let rest := (c.writeChar ch).1.writeBytes bytes
      (rest.1, (c.writeChar ch).2 ++ rest.2)

def renderCursor (c : FramebufferConsole) : List Event :=
  c.drawCharAt c.cursorX c.cursorY c.cursorChar
    (if c.cursorVisible then c.textColor else c.bgColor) c.bgColor

def writeStr (c : FramebufferConsole) (s : List UInt8) :
    FramebufferConsole × List Event :=
  ((c.writeBytes s).1, (c.writeBytes s).2 ++ (c.writeBytes s).1.renderCursor)

def clear (c : FramebufferConsole) : List Event :=
  (rangeU32 0 c.bootInfo.screenHeight.toUInt32).flatMap fun y =>
    (rangeU32 0 c.bootInfo.screenWidth.toUInt32).flatMap fun x =>
      drawPixel c.bootInfo x y c.bgColor

end FramebufferConsole

/-- A call of one of the functions that write. -/
inductive WriteCall where
  | char (ch : UInt8)
  | str (s : List UInt8)
  | fmtStr (s : List UInt8)

namespace FramebufferConsole

def perform (c : FramebufferConsole) : WriteCall → FramebufferConsole × List Event
  | .char ch => c.writeChar ch
  | .str s => c.writeStr s
  | .fmtStr s => c.writeBytes s

def performAll (c : FramebufferConsole) :
    List WriteCall → FramebufferConsole × List Event
  | [] => (c, [])
  | call :: calls =>
      let rest := (c.perform call).1.performAll calls
      (rest.1, (c.perform call).2 ++ rest.2)

end FramebufferConsole

/-- The console with `cursor_ticks`, which is zero in a new one. -/
structure TickingConsole where
  console : FramebufferConsole
  cursorTicks : UInt32

namespace TickingConsole

def updateCursor (t : TickingConsole) : TickingConsole × List Event :=
  let ticks := t.cursorTicks + 1
  let counted := Event.value (t.cursorTicks.toNat + 1)
  if ticks ≥ 200000000 then
    let console :=
      { t.console with cursorVisible := !t.console.cursorVisible }
    (⟨console, 0⟩, counted :: console.renderCursor)
  else ({ t with cursorTicks := ticks }, [counted])

/-- That many rounds of the loop at the end of `_kboot`. -/
def idle (t : TickingConsole) : Nat → TickingConsole × List Event
  | 0 => (t, [])
  | n + 1 =>
      let before := t.idle n
      (before.1.updateCursor.1, before.2 ++ before.1.updateCursor.2)

end TickingConsole

end TermOS.Boot
