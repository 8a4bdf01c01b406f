import TermOS.Ref.Fat32
import TermOS.Ref.Terminal

/-!
# The editor (`edit.cpp`)

`editor_main` with its buffer, its index and the terminal. What the syscall for
reading a character returns, call after call, is a list; where the list ends
the editor still waits. The index is an `int` and the buffer as large as it
needs to be, in both directions, so that a store outside of `buffer[4096]` is a
store like any other.
-/

namespace TermOS.Console

open TermOS.Storage (lit)

/-- `MAX_LEN`. -/
abbrev maxLen : Int := 4096

abbrev escape : UInt8 := 27

/-- `c >= ' ' && c <= '~'`; a negative `char` is neither. -/
def IsPrintable (c : UInt8) : Prop := 0x20 ≤ c.toInt8 ∧ c.toInt8 ≤ 0x7E

instance (c : UInt8) : Decidable (IsPrintable c) :=
  inferInstanceAs (Decidable (_ ∧ _))

structure Editor where
  buffer : Int → UInt8
  pos : Int
  term : Terminal

namespace Editor

/-- The print syscall, and then `buffer[pos++] = c`. -/
def type (s : Editor) (c : UInt8) : Editor where
  buffer := Function.update s.buffer s.pos c
  pos := s.pos + 1
  term := s.term.print [c]

/-- A round of the loop that does not end it. -/
def key (s : Editor) (c : UInt8) : Editor :=
  if c = backspace then
    if s.pos > 0 then
      { s with pos := s.pos - 1, term := s.term.print (lit "\x08 \x08") }
    else s
  else if c = newline then s.type newline
  else if IsPrintable c then s.type c
  else s

/-- The loop, and whether it has ended. -/
def loop (s : Editor) : List UInt8 → Editor × Bool
  | [] => (s, false)
  | c :: reads => if c = escape then (s, true) else (s.key c).loop reads

/-- The state in front of the loop. -/
def start (buffer : Int → UInt8) (t : Terminal) : Editor where
  buffer := buffer
  pos := 0
  term := (t.print (lit "--- Simple Text Editor ---\n")).print
    (lit "Enter text (ESC to exit):\n")

/-- `editor_main`, up to the exit syscall if it gets there. -/
def editorMain (buffer : Int → UInt8) (t : Terminal) (reads : List UInt8) :
    Editor × Bool :=
  match (start buffer t).loop reads with
  | (s, false) => (s, false)
  | (s, true) =>
      ({ s with term := s.term.print (lit "\nExiting editor...\n") }, true)

/-! ## Stores -/

/-- The stores of a round into `buffer`, by their index. -/
def keyStores (s : Editor) (c : UInt8) : List (Int × UInt8) :=
  if c = backspace then []
  else if c = newline then [(s.pos, newline)]
  else if IsPrintable c then [(s.pos, c)]
  else []

def loopStores (s : Editor) : List UInt8 → List (Int × UInt8)
  | [] => []
  | c :: reads =>
      if c = escape then [] else s.keyStores c ++ (s.key c).loopStores reads

end Editor

end TermOS.Console
