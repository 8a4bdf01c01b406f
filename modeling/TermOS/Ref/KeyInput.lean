import TermOS.Ref.LineInput
import TermOS.Ref.Scrollback

/-!
# From the keys to a line (`idt.cpp`, `iostream.cpp`)

The keyboard interrupt and `>> buffer` on one ring. The reader is cut inside
`kbd_pop`, and behind an empty read, in front of its `hlt`; there and between
any two of its steps the interrupts may come. An interrupt of either kind ends
a `hlt`. A character that has been popped is echoed and stored in one step: the
interrupt touches neither the buffer nor what `cout` does. As in `LineInput` the
buffer is as long as it needs to be.
-/

namespace TermOS.Console

open TermOS.Lib

/-- Where `>> buffer` is. -/
inductive ReadPoint where
  /-- In `kbd_pop`. -/
  | pop (consumer : Consumer UInt8)
  /-- It has read a zero, and `hlt` is next. -/
  | halt
  | halted
  | ended
  deriving DecidableEq, Repr

structure KeyInput where
  view : View
  kbd : Kbd
  point : ReadPoint
  buffer : Nat → UInt8
  i : Nat

namespace KeyInput

inductive Event where
  /-- IRQ1; `dropped` if its character finds the ring full. -/
  | key (scancode : UInt8) (beyond : Int → UInt16) (dropped : Bool)
  /-- IRQ0. -/
  | timer
  /-- The reader goes on. -/
  | read

/-- An interrupt is over. -/
def wake : ReadPoint → ReadPoint
  | .halted => .pop .idle
  | p => p

/-- What `irq1_handler` hands to `kbd_push`. -/
def pushed (keys : Keys) (scancode : UInt8) : Option UInt8 :=
  match (keys.irq1Handler scancode).2 with
  | .push c => some c
  | _ => none

def key (m : KeyInput) (scancode : UInt8) (beyond : Int → UInt16) :
    KeyInput :=
  { m with
    view := m.view.irq1Handler scancode beyond
    kbd := ((pushed m.view.keys scancode).map m.kbd.push).getD m.kbd
    point := wake m.point }

/-- A character has been popped. -/
def receive (m : KeyInput) (c : UInt8) : KeyInput :=
  let line : LineInput := ⟨m.buffer, m.i, m.view.term⟩
  if c = 0 then { m with point := .halt }
  else
    let line := if c = newline then line.enter else line.key c
    { m with
      view := { m.view with term := line.term }
      point := if c = newline then .ended else .pop .idle
      buffer := line.buffer
      i := line.i }

def advance (m : KeyInput) : Option KeyInput :=
  match m.point with
  | .pop .idle =>
      if m.kbd.head = m.kbd.tail then some { m with point := .halt }
      else some { m with point := .pop .checked }
  | .pop .checked =>
      some { m with point := .pop (.read (m.kbd.buffer m.kbd.tail)) }
  | .pop (.read c) => some (receive { m with kbd := m.kbd.advance } c)
  | .halt => some { m with point := .halted }
  | .halted => none
  | .ended => none

def Step (m : KeyInput) : Event → KeyInput → Prop
  | .key scancode beyond dropped, m' =>
      dropped = ((pushed m.view.keys scancode).isSome && !m.kbd.accepts) ∧
        m' = m.key scancode beyond
  | .timer, m' => m' = { m with point := wake m.point }
  | .read, m' => m.advance = some m'

/-- `>> buffer` is called. -/
def start (view : View) (kbd : Kbd) (buffer : Nat → UInt8) : KeyInput :=
  ⟨view, kbd, .pop .idle, buffer, 0⟩

end KeyInput

end TermOS.Console
