import Mathlib.Data.Nat.Digits.Defs
import Mathlib.Data.UInt

/-!
# Output streams (`iostream.cpp`)

An `ostream` is its number format and the bytes it has handed to the `write`
of its file, the last ones at the end. A C string goes out up to its
terminating zero, so a zero character goes out as nothing.
-/

namespace TermOS.Console

/-- `std::fmt`. -/
inductive Fmt where
  | dec
  | hex
  | bin
  deriving DecidableEq, Repr

structure Ostream where
  currentFmt : Fmt
  written : List UInt8

namespace Ostream

/-- `<< f`. -/
def fmt (s : Ostream) (f : Fmt) : Ostream := { s with currentFmt := f }

/-- `<< str`. -/
def str (s : Ostream) (text : List UInt8) : Ostream :=
  { s with written := s.written ++ text.takeWhile (· ≠ 0) }

/-- `<< c`, through the string `{c, 0}`. -/
def char (s : Ostream) (c : UInt8) : Ostream := s.str [c]

/-- `<< std::endl`. -/
def endl (s : Ostream) : Ostream := s.char 0x0A

/-- `"0123456789ABCDEF"[d]`. -/
def digit (d : Nat) : UInt8 :=
  if d < 10 then UInt8.ofNat (0x30 + d) else UInt8.ofNat (0x41 + (d - 10))

/-- The loop of `print_uint` leaves the digits lowest first, and they go out
highest first. -/
def printUint (s : Ostream) (n : UInt64) (base : Nat) : Ostream :=
  if n = 0 then s.char 0x30
  else (Nat.digits base n.toNat).reverse.foldl (fun s d => s.char (digit d)) s

/-- `<< n` for the unsigned types. -/
def uint (s : Ostream) (n : UInt64) : Ostream :=
  match s.currentFmt with
  | .hex => (s.str [0x30, 0x78]).printUint n 16
  | .bin => s.printUint n 2
  | .dec => s.printUint n 10

/-- `<< ptr`, in hexadecimal whatever the format is. -/
def ptr (s : Ostream) (p : UInt64) : Ostream :=
  ((s.fmt .hex).uint p).fmt s.currentFmt

/-- `<< n` for an `int`. -/
def int (s : Ostream) (n : Int32) : Ostream :=
  if n < 0 then (s.char 0x2D).uint (-n).toInt64.toUInt64
  else s.uint n.toInt64.toUInt64

end Ostream

end TermOS.Console
