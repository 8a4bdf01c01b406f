import Mathlib.Data.UInt
import TermOS.Lib.TextGrid

/-!
# The terminal (`stdio.cpp`, `vfs.cpp`)

The text screen is 2000 cells of 16 bits, a character in the low byte and its
color in the high one. `x` and `y` are never negative: the code decrements
them only where it has seen that they are positive. `update_cursor` tells the
display controller a position in 16 bits, which is `cursor`. `screen_buffer`
and the functions over it take no part in printing and are left out.
-/

namespace TermOS.Console

open TermOS.Lib

abbrev newline : UInt8 := 0x0A
abbrev backspace : UInt8 := 0x08
abbrev blank : UInt8 := 0x20

/-- `vga_color`, the colors the kernel uses. -/
abbrev black : UInt8 := 0
abbrev red : UInt8 := 4
abbrev white : UInt8 := 15

structure Terminal where
  vidmem : Nat → UInt16
  x : Nat
  y : Nat
  currentColor : UInt8
  cursor : UInt16

namespace Terminal

/-- `(uint16_t)c | (uint16_t)current_color << 8`; a `char` is signed. -/
def cell (t : Terminal) (c : UInt8) : UInt16 :=
  c.toInt8.toInt16.toUInt16 ||| t.currentColor.toUInt16 <<< 8

def setColor (t : Terminal) (fg bg : UInt8) : Terminal :=
  { t with currentColor := fg ||| bg <<< 4 }

def updateCursor (t : Terminal) : Terminal :=
  { t with cursor := UInt16.ofNat (t.y * 80 + t.x) }

def clear (t : Terminal) : Terminal :=
  updateCursor { t with
    vidmem := fill t.vidmem 0 (80 * 25) (t.cell blank), x := 0, y := 0 }

/-- `vidmem[y * 80 + x] = …`. -/
def store (t : Terminal) (c : UInt8) : Terminal :=
  { t with vidmem := Function.update t.vidmem (t.y * 80 + t.x) (t.cell c) }

/-- The end of `put_char` when `y` has reached 25. -/
def scrollUp (t : Terminal) : Terminal :=
  { t with
    vidmem := fill (copyBack t.vidmem (24 * 80) 80) (24 * 80) 80 (t.cell blank)
    y := 24 }

def putChar (t : Terminal) (c : UInt8) : Terminal :=
  if c = backspace then
    if t.x > 0 then (store { t with x := t.x - 1 } blank).updateCursor
    else if t.y > 0 then
      (store { t with y := t.y - 1, x := 79 } blank).updateCursor
    else t.updateCursor
  else
    let t :=
      if c = newline then { t with x := 0, y := t.y + 1 }
      else { t.store c with x := t.x + 1 }
    let t := if t.x ≥ 80 then { t with x := 0, y := t.y + 1 } else t
    let t := if t.y ≥ 25 then t.scrollUp else t
    t.updateCursor

/-- `print`, up to the terminating zero. -/
def print (t : Terminal) (str : List UInt8) : Terminal :=
  (str.takeWhile (· ≠ 0)).foldl putChar t

/-- `Terminal::init`. -/
def init (t : Terminal) : Terminal :=
  (setColor { t with x := 0, y := 0 } white black).clear

/-- The low byte of a cell. -/
def glyph (t : Terminal) (k : Nat) : UInt8 := (t.vidmem k).toUInt8

/-! ## The standard streams -/

/-- `vga_write`. -/
def vgaWrite (t : Terminal) (str : List UInt8) : Terminal := t.print str

/-- `vga_write_err`. -/
def vgaWriteErr (t : Terminal) (str : List UInt8) : Terminal :=
  ((t.setColor red black).print str).setColor white black

end Terminal

end TermOS.Console
