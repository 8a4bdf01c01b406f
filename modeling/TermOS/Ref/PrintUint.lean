import Mathlib.Logic.Function.Basic
import TermOS.Ref.Iostream

/-!
# The loops of `ostream::print_uint` (`iostream.cpp`)

The function with its buffer of 65 cells, its index and its two loops. It fails
on a store beyond the buffer and on a character beyond the table, neither of
which the code checks for, and `fuel` bounds the rounds of the first loop. What
is in the buffer before is whatever was on the stack.
-/

namespace TermOS.Console.Ostream

/-- `"0123456789ABCDEF"` -/
def chars : List UInt8 :=
  [0x30, 0x31, 0x32, 0x33, 0x34, 0x35, 0x36, 0x37, 0x38, 0x39, 0x41, 0x42,
    0x43, 0x44, 0x45, 0x46]

/-- `while (n > 0)`: the buffer and the index it leaves. -/
def digitLoop (base : UInt8) :
    Nat → UInt64 → (Nat → UInt8) → Nat → Option ((Nat → UInt8) × Nat)
  | 0, _, _, _ => none
  | fuel + 1, n, buf, i =>
      if n > 0 then
        match chars[(n % base.toUInt64).toNat]? with
        | some c =>
            if i < 65 then
              digitLoop base fuel (n / base.toUInt64)
                (Function.update buf i c) (i + 1)
            else none
        | none => none
      else some (buf, i)

/-- `while (--i >= 0)` -/
def putLoop (buf : Nat → UInt8) : Nat → Ostream → Ostream
  | 0, s => s
  | i + 1, s => putLoop buf i (s.char (buf i))

/-- `print_uint` -/
def printUintLoops (fuel : Nat) (buf : Nat → UInt8) (s : Ostream) (n : UInt64)
    (base : UInt8) : Option Ostream :=
  if n = 0 then some (s.char 0x30)
  else
    match digitLoop base fuel n buf 0 with
    | some (buf, i) => some (putLoop buf i s)
    | none => none

end TermOS.Console.Ostream
