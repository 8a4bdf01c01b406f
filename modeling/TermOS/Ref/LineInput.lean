import TermOS.Ref.Terminal

/-!
# Reading a line (`iostream.cpp`)

`istream::operator>>(char*)` with its buffer, its index and the terminal that
it echoes to. What `stdin->read()` returns, call after call, is a list; where
the list ends the reader still waits. The buffer is as long as it needs to be:
it is the caller's for every line shorter than that, in the shell for lines of
less than 128 characters.
-/

namespace TermOS.Console

/-- `cout << c`, through `write_to_stream` and the `write` of `stdout`. -/
def Terminal.echo (t : Terminal) (c : UInt8) : Terminal := t.vgaWrite [c]

structure LineInput where
  buffer : Nat → UInt8
  i : Nat
  term : Terminal

namespace LineInput

/-- A character other than a newline. -/
def key (s : LineInput) (c : UInt8) : LineInput :=
  if c = backspace then
    if s.i > 0 then { s with i := s.i - 1, term := s.term.echo backspace } else s
  else
    { buffer := Function.update s.buffer s.i c, i := s.i + 1
      term := s.term.echo c }

/-- The newline. -/
def enter (s : LineInput) : LineInput :=
  { s with
    buffer := Function.update s.buffer s.i 0, term := s.term.echo newline }

/-- The loop of `>> buffer`, and whether it has ended. The inner loop, that of
`>> c`, passes over the zeroes of an empty keyboard ring. -/
def readLine (s : LineInput) : List UInt8 → LineInput × Bool
  | [] => (s, false)
  | c :: reads =>
      if c = 0 then readLine s reads
      else if c = newline then (s.enter, true)
      else (s.key c).readLine reads

end LineInput

end TermOS.Console
