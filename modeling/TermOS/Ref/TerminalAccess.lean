import TermOS.Ref.Iostream
import TermOS.Ref.Terminal

/-!
# The terminal and the cells it touches (`stdio.cpp`)

The functions of `Terminal` that print, with `x` and `y` as the `int`s that
they are and with every read and write of video memory put on record. Nothing
here keeps an index inside the 2000 cells but what the code does.
-/

namespace TermOS.Console

/-- A read or a write of `vidmem[index]`. -/
structure CellAccess where
  index : Int
  isWrite : Bool
  deriving DecidableEq, Repr

/-- The terminal, with the accesses there have been, the last one in front. -/
structure Screen where
  vidmem : Int → UInt16
  x : Int
  y : Int
  currentColor : UInt8
  cursor : UInt16
  accesses : List CellAccess

namespace Screen

/-- `(uint16_t)c | (uint16_t)current_color << 8`. -/
def cell (s : Screen) (c : UInt8) : UInt16 :=
  c.toInt8.toInt16.toUInt16 ||| s.currentColor.toUInt16 <<< 8

/-- `vidmem[i] = v`. -/
def store (s : Screen) (i : Int) (v : UInt16) : Screen :=
  { s with
    vidmem := Function.update s.vidmem i v
    accesses := ⟨i, true⟩ :: s.accesses }

/-- `vidmem[i] = vidmem[j]`. -/
def copy (s : Screen) (i j : Int) : Screen :=
  store { s with accesses := ⟨j, false⟩ :: s.accesses } i (s.vidmem j)

/-- `for (i = start; i < start + n; i++) vidmem[i] = ' ' | current_color << 8`. -/
def blankCells (s : Screen) (start n : Nat) : Screen :=
  (List.range' start n).foldl (fun s (i : Nat) => s.store i (s.cell blank)) s

/-- `for (i = 0; i < n; i++) vidmem[i] = vidmem[i + d]`. -/
def copyCells (s : Screen) (n d : Nat) : Screen :=
  (List.range n).foldl (fun s (i : Nat) => s.copy i (i + d)) s

def setColor (s : Screen) (fg bg : UInt8) : Screen :=
  { s with currentColor := fg ||| bg <<< 4 }

def updateCursor (s : Screen) : Screen :=
  { s with cursor := UInt16.ofInt (s.y * 80 + s.x) }

def clear (s : Screen) : Screen :=
  updateCursor { s.blankCells 0 (80 * 25) with x := 0, y := 0 }

/-- The end of `put_char` when `y` has reached 25. -/
def scrollUp (s : Screen) : Screen :=
  { (s.copyCells (24 * 80) 80).blankCells (24 * 80) 80 with y := 24 }

def putChar (s : Screen) (c : UInt8) : Screen :=
  if c = backspace then
    if s.x > 0 then
      let s := { s with x := s.x - 1 }
      (s.store (s.y * 80 + s.x) (s.cell blank)).updateCursor
    else if s.y > 0 then
      let s := { s with y := s.y - 1, x := 79 }
      (s.store (s.y * 80 + s.x) (s.cell blank)).updateCursor
    else s.updateCursor
  else
    let s :=
      if c = newline then { s with x := 0, y := s.y + 1 }
      else { s.store (s.y * 80 + s.x) (s.cell c) with x := s.x + 1 }
    let s := if s.x ≥ 80 then { s with x := 0, y := s.y + 1 } else s
    let s := if s.y ≥ 25 then s.scrollUp else s
    s.updateCursor

/-- `print`, up to the terminating zero. -/
def print (s : Screen) (str : List UInt8) : Screen :=
  (str.takeWhile (· ≠ 0)).foldl putChar s

/-- `print_hex`, the highest of the sixteen digits first. -/
def printHex (s : Screen) (n : UInt64) : Screen :=
  (List.range 16).reverse.foldl (fun s i =>
    let nibble := ((n >>> UInt64.ofNat (i * 4)) &&& 0x0F).toUInt8
    s.putChar (Ostream.digit nibble.toNat)) (s.print [0x30, 0x78])

/-- `Terminal::init`. -/
def init (s : Screen) : Screen :=
  (setColor { s with x := 0, y := 0 } white black).clear

end Screen

/-- The operations after `init`. -/
inductive ScreenOp where
  | putChar (c : UInt8)
  | print (str : List UInt8)
  | printHex (n : UInt64)
  | clear

def Screen.perform (s : Screen) : ScreenOp → Screen
  | .putChar c => s.putChar c
  | .print str => s.print str
  | .printHex n => s.printHex n
  | .clear => s.clear

def Screen.Step (s : Screen) (op : ScreenOp) (s' : Screen) : Prop :=
  s' = s.perform op

end TermOS.Console
