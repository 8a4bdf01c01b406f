import TermOS.Lib.CString
import TermOS.Ref.Shell

/-!
# What `add_to_history` stores (`tsh.cpp`)

The rows of `history` are next to each other and filled with `strcpy`, which
does not know where a row ends. Here is the function once more as its stores,
in their order, with the copies from row to row byte by byte.
-/

namespace TermOS.Shell

open TermOS.Lib
open TermOS.Storage (Str)

/-- The lines of the shell that go into the history: what fits the buffer
`input`, and is not empty. -/
abbrev CommandLine := { s : Str // s ≠ [] ∧ s.length ≤ 127 ∧ 0 ∉ s }

namespace History

/-- The stores of the loop that shifts. -/
def shiftStores (fuel : Nat) :
    List Nat → (Nat → UInt8) → List (Nat × UInt8)
  | [], _ => []
  | i :: is, m =>
      let stores :=
        CString.strcpyLoop fuel m (entrySize * i) (entrySize * (i + 1))
      stores ++ shiftStores fuel is (CString.apply m stores)

/-- The stores of `add_to_history`. -/
def addStores (fuel : Nat) (h : History) (cmd : Str) : List (Nat × UInt8) :=
  if cmd = [] then []
  else if h.count = historySize then
    shiftStores fuel (List.range (historySize - 1)) h.bytes ++
      CString.storesAt (entrySize * (historySize - 1)) (cmd ++ [0])
  else CString.storesAt (entrySize * h.count) (cmd ++ [0])

/-- A call of `add_to_history` with a line. -/
def Step (fuel : Nat) (h : History) (line : CommandLine) (h' : History) : Prop :=
  h.add fuel line.val = some h'

end History

end TermOS.Shell
