import TermOS.Lib.CString
import TermOS.Ref.LineInput

/-!
# Where `>> buffer` stores (`iostream.cpp`, `tsh.cpp`)

`istream::operator>>(char*)` gets an address and no size. Here is its loop once
more as the stores it makes, by their offsets from that address. A backspace
moves the index and stores nothing.
-/

namespace TermOS.Console

/-- The array that `Shell::run` reads into is `char input[128]`. -/
abbrev inputSize : Nat := 128

namespace LineInput

/-- The stores of a character other than a newline. -/
def keyStores (s : LineInput) (c : UInt8) : List (Nat × UInt8) :=
  if c = backspace then [] else [(s.i, c)]

/-- The stores of the loop, in their order. -/
def readLineStores (s : LineInput) : List UInt8 → List (Nat × UInt8)
  | [] => []
  | c :: reads =>
      if c = 0 then readLineStores s reads
      else if c = newline then [(s.i, 0)]
      else s.keyStores c ++ (s.key c).readLineStores reads

end LineInput

end TermOS.Console
