import TermOS.Ref.Keyboard
import TermOS.Ref.Terminal

/-!
# Scrolling back (`stdio.cpp`, `idt.cpp`, `vfs.cpp`)

`refresh` copies 25 rows of `screen_buffer` to the screen, from the row
`view_offset` on, and two keys move the offset. `screen_buffer` is a static of
200 rows; nothing in the kernel writes to it. An index that misses it reads
whatever lies there, which each key brings with it as `beyond`.

What else `irq1_handler` does with a key, the character for `kbd_push` or the
end of a task, is not on the screen.
-/

namespace TermOS.Console

open TermOS.Lib

structure View where
  term : Terminal
  screenBuffer : Nat → UInt16
  viewOffset : Int
  keys : Keys

/-- Characters that are printed, one at a time, and keys. -/
inductive ViewEvent where
  | write (c : UInt8)
  | writeErr (c : UInt8)
  | key (scancode : UInt8) (beyond : Int → UInt16)

namespace View

/-- `screen_buffer[i]`. -/
def load (v : View) (beyond : Int → UInt16) (i : Int) : UInt16 :=
  if 0 ≤ i ∧ i < 16000 then v.screenBuffer i.toNat else beyond i

def refresh (v : View) (beyond : Int → UInt16) : View :=
  { v with term := { v.term with
      vidmem := tabulate v.term.vidmem (80 * 25) fun i =>
        v.load beyond (v.viewOffset * 80 + i) } }

/-- `irq1_handler`. -/
def irq1Handler (v : View) (scancode : UInt8) (beyond : Int → UInt16) : View :=
  let keys := (v.keys.irq1Handler scancode).1
  match (v.keys.irq1Handler scancode).2 with
  | .view delta =>
      refresh { v with keys := keys, viewOffset := v.viewOffset + delta } beyond
  | _ => { v with keys := keys }

def perform (v : View) : ViewEvent → View
  | .write c => { v with term := v.term.vgaWrite [c] }
  | .writeErr c => { v with term := v.term.vgaWriteErr [c] }
  | .key scancode beyond => v.irq1Handler scancode beyond

def Step (v : View) (e : ViewEvent) (v' : View) : Prop := v' = v.perform e

/-- The kernel when `term` has been set up and no key has been pressed. -/
def start (t : Terminal) : View :=
  ⟨t.init, fun _ => 0, 0, ⟨false, false⟩⟩

end View

end TermOS.Console
