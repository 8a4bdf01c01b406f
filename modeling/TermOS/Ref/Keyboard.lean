import TermOS.Lib.BoundedQueue
import TermOS.Ref.Fat32

/-!
# The keyboard (`idt.cpp`)

`irq1_handler` turns a scancode into what it has the rest of the kernel do:
nothing, a scroll of the screen, the end of the foreground task, or a
character for `kbd_push`. A `char` is a byte, and `c > 0` is about its value
as a signed one.

`kbd_buffer` is written by the keyboard interrupt and read by whoever reads
from `stdin`. The interrupt gate keeps `kbd_push` whole, and the interrupt may
come between any two statements of `kbd_pop`: `Machine` cuts it at its check,
at its read of the buffer and at its store to `kbd_tail`.
-/

namespace TermOS.Console

open TermOS.Lib
open TermOS.Storage (lit)

/-! ## Scancodes -/

def kbdUs : List UInt8 :=
  [0, 27] ++ lit "1234567890-=" ++ [8, 9] ++ lit "qwertyuiop[]" ++ [10, 0] ++
    lit "asdfghjkl;'`" ++ [0] ++ lit "\\zxcvbnm,./" ++ [0] ++ lit "*" ++ [0] ++
    lit " "

def kbdUsShift : List UInt8 :=
  [0, 27] ++ lit "!@#$%^&*()_+" ++ [8, 9] ++ lit "QWERTYUIOP\x7b\x7d" ++
    [10, 0] ++ lit "ASDFGHJKL:\"~" ++ [0] ++ lit "|ZXCVBNM<>?" ++ [0] ++
    lit "*" ++ [0] ++ lit " "

/-- `shift_pressed` and `ctrl_pressed`. -/
structure Keys where
  shiftPressed : Bool
  ctrlPressed : Bool
  deriving DecidableEq, Repr

/-- What a key is for. -/
inductive KeyAction where
  | none
  /-- `view_offset += delta`, and a refresh. -/
  | view (delta : Int)
  | killForeground
  | push (c : UInt8)
  deriving DecidableEq, Repr

namespace Keys

/-- The modifiers after a scancode. -/
def track (k : Keys) (scancode : UInt8) : Keys where
  ctrlPressed :=
    if scancode = 0x1D then true
    else if scancode = 0x9D then false
    else k.ctrlPressed
  shiftPressed :=
    if scancode = 0x2A ∨ scancode = 0x36 then true
    else if scancode = 0xAA ∨ scancode = 0xB6 then false
    else k.shiftPressed

/-- The character of a key, from the table the shift key selects. -/
def char (k : Keys) (scancode : UInt8) : UInt8 :=
  (if k.shiftPressed then kbdUsShift else kbdUs).getD scancode.toNat 0

/-- `irq1_handler`, with the scancode it reads from port `0x60`. -/
def irq1Handler (k : Keys) (scancode : UInt8) : Keys × KeyAction :=
  let k := k.track scancode
  if scancode = 0x49 then (k, .view (-1))
  else if scancode = 0x51 then (k, .view 1)
  else if scancode &&& 0x80 = 0 then
    if k.ctrlPressed ∧ scancode = 0x2E then (k, .killForeground)
    else
      let c := k.char scancode
      if 0 < c.toInt8 then (k, .push c) else (k, .none)
  else (k, .none)

end Keys

/-! ## The ring -/

/-- `kbd_buffer`, `kbd_head` and `kbd_tail`. -/
structure Kbd where
  buffer : UInt32 → UInt8
  head : UInt32
  tail : UInt32

namespace Kbd

/-- The statics as they are initialised. -/
def initial : Kbd := ⟨fun _ => 0, 0, 0⟩

/-- `next != kbd_tail` in `kbd_push`. -/
def accepts (k : Kbd) : Bool := (k.head + 1) % 256 != k.tail

def push (k : Kbd) (c : UInt8) : Kbd :=
  if k.accepts then
    { k with
      buffer := Function.update k.buffer k.head c, head := (k.head + 1) % 256 }
  else k

/-- `kbd_tail = (kbd_tail + 1) % 256`. -/
def advance (k : Kbd) : Kbd := { k with tail := (k.tail + 1) % 256 }

/-- `kbd_pop`, when nothing interrupts it. -/
def pop (k : Kbd) : UInt8 × Kbd :=
  if k.head = k.tail then (0, k) else (k.buffer k.tail, k.advance)

end Kbd

/-- The ring and where its consumer is in `kbd_pop`. -/
structure Machine where
  kbd : Kbd
  consumer : Consumer UInt8

namespace Machine

def initial : Machine := ⟨.initial, .idle⟩

/-- A push, or a step of `kbd_pop` from one of its cuts to the next. With
`check true` it returns 0, and with `release c` it returns `c`. -/
def Step (m : Machine) : QueueEvent UInt8 → Machine → Prop
  | .push c accepted, m' =>
      accepted = m.kbd.accepts ∧ m' = { m with kbd := m.kbd.push c }
  | .check empty, m' =>
      m.consumer = .idle ∧ empty = (m.kbd.head == m.kbd.tail) ∧
        m' = if empty then m else { m with consumer := .checked }
  | .read, m' =>
      m.consumer = .checked ∧
        m' = { m with consumer := .read (m.kbd.buffer m.kbd.tail) }
  | .release c, m' => m.consumer = .read c ∧ m' = ⟨m.kbd.advance, .idle⟩

end Machine

end TermOS.Console
