import Mathlib.Data.Nat.Digits.Defs

/-!
# Positional numerals, read from the left

A numeral is a non-empty list of characters, and `val` says which digit a
character stands for, if any. Reading goes from the highest digit down, the way
a person reads, while the algorithms that produce digits start from the lowest.
`readNumeral_map_reverse` is the meeting point.
-/

namespace TermOS.Lib

variable {α : Type*} {val : α → Option Nat} {base : Nat} {f : Nat → α}
  {ds : List Nat}

/-- One more character behind a numeral of value `v`. -/
def readDigit (val : α → Option Nat) (base v : Nat) (c : α) : Option Nat :=
  (val c).bind fun d => if d < base then some (base * v + d) else none

/-- The value of a numeral, `none` for anything else. -/
def readNumeral (val : α → Option Nat) (base : Nat) (text : List α) :
    Option Nat :=
  if text.isEmpty then none
  else text.foldl (fun acc c => acc.bind fun v => readDigit val base v c)
    (some 0)

theorem readDigit_of_lt {v d : Nat} {c : α} (hc : val c = some d)
    (hd : d < base) : readDigit val base v c = some (base * v + d) := by
  rw [readDigit, hc, Option.bind_some, if_pos hd]

/-- Digits that were produced from the lowest one up, written down the other
way round. -/
theorem readNumeral_map_reverse (hne : ds ≠ [])
    (hval : ∀ d ∈ ds, val (f d) = some d) (hlt : ∀ d ∈ ds, d < base) :
    readNumeral val base (ds.map f).reverse = some (Nat.ofDigits base ds) := by
  have hempty : (ds.map f).reverse.isEmpty = false := by simp [hne]
  rw [readNumeral, hempty, if_neg Bool.false_ne_true, List.foldl_reverse]
  clear hne hempty
  induction ds with
  | nil => rfl
  | cons d ds ih =>
      have hrest := ih (fun e he => hval e (List.mem_cons_of_mem d he))
        (fun e he => hlt e (List.mem_cons_of_mem d he))
      rw [List.map_cons, List.foldr_cons, hrest, Option.bind_some,
        readDigit_of_lt (hval d List.mem_cons_self)
          (hlt d List.mem_cons_self), Nat.ofDigits_cons, Nat.add_comm]

end TermOS.Lib
