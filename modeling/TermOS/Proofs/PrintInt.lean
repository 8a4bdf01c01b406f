import TermOS.Proofs.PrintUint

/-!
# Signed numbers on an output stream

`<< int` writes a sign, negates, widens to 64 bits and prints what it then has
as an unsigned number. For every negative number but one the negation is
positive and the widening adds zeroes. The least `int` is its own negation, so
it is still negative when it is widened, and the sign bit fills the upper half.
-/

namespace TermOS.Console

open TermOS.Lib Ostream

def Fmt.base : Fmt → Nat
  | .dec => 10
  | .hex => 16
  | .bin => 2

/-- What `<< n` writes before the digits. -/
def Fmt.mark : Fmt → List UInt8
  | .hex => [0x30, 0x78]
  | _ => []

/-- The value of digits behind an optional mark. -/
def readUnsigned (f : Fmt) (text : List UInt8) : Option Nat :=
  readNumeral digitValue f.base
    (if f.mark.isPrefixOf text then text.drop f.mark.length else text)

/-- The value of a number behind an optional sign. -/
def readInt (f : Fmt) (text : List UInt8) : Option Int :=
  if text.head? = some 0x2D then
    (readUnsigned f text.tail).map fun v : Nat => -(v : Int)
  else (readUnsigned f text).map fun v : Nat => (v : Int)

variable {s : Ostream} {f : Fmt} {n : Int32}

theorem Fmt.base_bounds (f : Fmt) : 2 ≤ f.base ∧ f.base ≤ 16 := by
  cases f <;> decide

theorem uint_eq (s : Ostream) (n : UInt64) : s.uint n =
    { s with written :=
        s.written ++ (s.currentFmt.mark ++ numeral n s.currentFmt.base) } := by
  obtain ⟨fmt, written⟩ := s
  cases fmt with
  | dec => exact printUint_eq (by decide) (by decide)
  | bin => exact printUint_eq (by decide) (by decide)
  | hex =>
      show ((⟨.hex, written⟩ : Ostream).str [0x30, 0x78]).printUint n 16 = _
      rw [printUint_eq (by decide) (by decide)]
      simp [str, Fmt.mark, Fmt.base]

/-- The text of an unsigned number reads back as it. -/
theorem readUnsigned_mark (f : Fmt) (n : UInt64) :
    readUnsigned f (f.mark ++ numeral n f.base) = some n.toNat := by
  have hprefix : f.mark.isPrefixOf (f.mark ++ numeral n f.base) = true := by
    rw [List.isPrefixOf_iff_prefix]
    exact List.prefix_append _ _
  rw [readUnsigned, if_pos hprefix, List.drop_left]
  exact readNumeral_numeral f.base_bounds.1 f.base_bounds.2

/-- It does not begin with a sign. -/
theorem head?_mark (f : Fmt) (n : UInt64) :
    (f.mark ++ numeral n f.base).head? ≠ some 0x2D := by
  cases f with
  | hex => simp [Fmt.mark]
  | dec | bin =>
      intro h
      obtain ⟨d, hd, hc⟩ := mem_numeral (by decide) (by decide)
        (List.mem_of_mem_head? h)
      have hvalue := digitValue_digit (Nat.lt_of_lt_of_le hd (by decide))
      rw [← hc] at hvalue
      exact absurd hvalue (by simp [digitValue])

/-- Widening a negative number sets the upper half. -/
theorem toNat_widened (n : Int32) : (n.toInt64.toUInt64.toNat : Int) =
    if 0 ≤ n.toInt then n.toInt else n.toInt + 18446744073709551616 := by
  have hlo := n.le_toInt
  have hhi := n.toInt_lt
  have hwide := Int32.toInt_toInt64 n
  have hbits : n.toInt64.toUInt64.toNat = n.toInt64.toBitVec.toNat := rfl
  have hlt := n.toInt64.toBitVec.isLt
  rw [← Int64.toInt_toBitVec, BitVec.toInt_eq_toNat_bmod] at hwide
  rw [hbits]
  grind

/-- The negation of a negative number, on 32 bits. -/
theorem toInt_neg_of_neg (hn : n.toInt < 0) : (-n).toInt =
    if n = Int32.minValue then n.toInt else -n.toInt := by
  have hlo := n.le_toInt
  have hmin : n = Int32.minValue ↔ n.toInt = -2147483648 := by
    rw [← Int32.toInt_inj]
    rfl
  simp only [hmin]
  rw [Int32.toInt_neg]
  grind

/-- What the text of a number reads back as. -/
def readsAs (n : Int32) : Int :=
  if n = Int32.minValue then -18446744071562067968 else n.toInt

theorem int_eq (s : Ostream) (n : Int32) : ∃ text,
    s.int n = { s with written := s.written ++ text } ∧
      readInt s.currentFmt text = some (readsAs n) := by
  have hzero : (0 : Int32).toInt = 0 := rfl
  by_cases hn : n < 0
  · have hneg : n.toInt < 0 := Int32.lt_iff_toInt_lt.1 hn
    have hlo := n.le_toInt
    refine ⟨0x2D :: (s.currentFmt.mark ++
      numeral (-n).toInt64.toUInt64 s.currentFmt.base), ?_, ?_⟩
    · rw [int, if_pos hn, char_of_ne_zero (by decide), uint_eq]
      simp
    · rw [readInt, List.head?_cons, if_pos rfl, List.tail_cons,
        readUnsigned_mark, Option.map_some, toNat_widened,
        toInt_neg_of_neg hneg, readsAs]
      have hmin : n = Int32.minValue → n.toInt = -2147483648 := by
        rintro rfl
        rfl
      grind
  · have hpos : 0 ≤ n.toInt := by
      rw [Int32.lt_iff_toInt_lt, hzero] at hn
      omega
    refine ⟨s.currentFmt.mark ++
      numeral n.toInt64.toUInt64 s.currentFmt.base, ?_, ?_⟩
    · rw [int, if_neg hn, uint_eq]
    · have hmin : n ≠ Int32.minValue := by
        rintro rfl
        exact absurd hpos (by decide)
      rw [readInt, if_neg (head?_mark _ _), readUnsigned_mark, Option.map_some,
        toNat_widened, if_pos hpos, readsAs, if_neg hmin]

/-- For every number, every format and everything written before: the text that
`<< n` adds reads back as `n` if and only if `n` is not the least `int`. -/
theorem int_denotes_iff (s : Ostream) (n : Int32) :
    (∃ text, s.int n = { s with written := s.written ++ text } ∧
        readInt s.currentFmt text = some n.toInt) ↔
      n ≠ Int32.minValue := by
  obtain ⟨text, htext, hread⟩ := int_eq s n
  rw [readsAs] at hread
  refine ⟨?_, ?_⟩
  · rintro ⟨text', htext', hread'⟩ rfl
    rw [htext, Ostream.mk.injEq] at htext'
    obtain rfl := List.append_cancel_left htext'.2
    rw [hread] at hread'
    exact absurd hread' (by decide)
  · intro hn
    rw [if_neg hn] at hread
    exact ⟨text, htext, hread⟩

/-- -2147483648 in decimal is printed as -18446744071562067968. -/
theorem not_int_denotes_min : ¬ ∃ text,
    (⟨.dec, []⟩ : Ostream).int Int32.minValue = ⟨.dec, [] ++ text⟩ ∧
      readInt .dec text = some Int32.minValue.toInt := by
  rintro ⟨text, htext, hread⟩
  obtain ⟨text', htext', hread'⟩ := int_eq ⟨.dec, []⟩ Int32.minValue
  rw [htext, Ostream.mk.injEq] at htext'
  obtain rfl := List.append_cancel_left htext'.2
  rw [hread, readsAs, if_pos rfl] at hread'
  exact absurd hread' (by decide)

end TermOS.Console
