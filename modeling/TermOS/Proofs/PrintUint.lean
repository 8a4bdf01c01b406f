import Mathlib.Data.Nat.Digits.Lemmas
import TermOS.Lib.CString
import TermOS.Lib.Numeral
import TermOS.Ref.PrintUint

/-!
# What `print_uint` prints

The first loop takes the digits off the lowest end. Its invariant is that the
cells below the index hold the characters of the digits taken off so far, and
what is left of the number has the digits that are still to come. So after at
most 64 rounds the buffer holds the digits of the number, the second loop puts
them out the other way round, and reading them back gives the number.
-/

namespace TermOS.Console

open TermOS.Lib

/-- The digit a character of a numeral stands for. -/
def digitValue (c : UInt8) : Option Nat :=
  if 0x30 ≤ c ∧ c ≤ 0x39 then some (c.toNat - 0x30)
  else if 0x41 ≤ c ∧ c ≤ 0x46 then some (c.toNat - 0x41 + 10)
  else none

namespace Ostream

variable {s : Ostream} {n m : UInt64} {b : Nat} {base : UInt8}
  {buf : Nat → UInt8}

/-! ## Characters -/

theorem chars_getElem? {d : Nat} (h : d < 16) : chars[d]? = some (digit d) := by
  have hall : ∀ d < 16, chars[d]? = some (digit d) := by decide
  exact hall d h

theorem digitValue_digit {d : Nat} (h : d < 16) :
    digitValue (digit d) = some d := by
  have hall : ∀ d < 16, digitValue (digit d) = some d := by decide
  exact hall d h

theorem digit_ne_zero {d : Nat} (h : d < 16) : digit d ≠ 0 := by
  have hall : ∀ d < 16, digit d ≠ 0 := by decide
  exact hall d h

theorem char_of_ne_zero {c : UInt8} (h : c ≠ 0) :
    s.char c = { s with written := s.written ++ [c] } := by
  simp [char, str, h]

theorem foldl_char {cs : List UInt8} (h : ∀ c ∈ cs, c ≠ 0) :
    cs.foldl char s = { s with written := s.written ++ cs } := by
  induction cs generalizing s with
  | nil => simp
  | cons c cs ih =>
      rw [List.foldl_cons, char_of_ne_zero (h c List.mem_cons_self),
        ih fun d hd => h d (List.mem_cons_of_mem c hd)]
      simp

/-! ## The numeral -/

/-- The text of a number. -/
def numeral (n : UInt64) (b : Nat) : List UInt8 :=
  if n = 0 then [0x30] else ((Nat.digits b n.toNat).map digit).reverse

theorem toNat_ne_zero (hn : n ≠ 0) : n.toNat ≠ 0 := by
  intro h
  exact hn (UInt64.toNat_inj.1 h)

theorem digits_lt (hlo : 2 ≤ b) (hhi : b ≤ 16) {d : Nat}
    (hd : d ∈ Nat.digits b n.toNat) : d < 16 :=
  Nat.lt_of_lt_of_le (Nat.digits_lt_base hlo hd) hhi

/-- The characters of a numeral are digits below the base. -/
theorem mem_numeral (hlo : 2 ≤ b) (hhi : b ≤ 16) {c : UInt8}
    (hc : c ∈ numeral n b) : ∃ d < b, c = digit d := by
  rw [numeral] at hc
  split at hc
  · exact ⟨0, by omega, List.mem_singleton.1 hc⟩
  · rw [List.mem_reverse, List.mem_map] at hc
    obtain ⟨d, hd, rfl⟩ := hc
    exact ⟨d, Nat.digits_lt_base hlo hd, rfl⟩

theorem numeral_ne_nil : numeral n b ≠ [] := by
  rw [numeral]
  split
  · exact List.cons_ne_nil _ _
  · next hn =>
      rw [Ne, List.reverse_eq_nil_iff, List.map_eq_nil_iff,
        Nat.digits_eq_nil_iff_eq_zero]
      exact toNat_ne_zero hn

theorem head?_digits {b n : Nat} (h : Nat.digits b n ≠ []) :
    ((Nat.digits b n).map digit).reverse.head? =
      some (digit ((Nat.digits b n).getLast h)) := by
  rw [List.head?_reverse, List.getLast?_map, List.getLast?_eq_some_getLast h,
    Option.map_some]

/-- The first character is the highest digit, which is not zero. -/
theorem head?_numeral (hlo : 2 ≤ b) (hhi : b ≤ 16)
    (h : (numeral n b).head? = some 0x30) : numeral n b = [0x30] := by
  by_cases hn : n = 0
  · rw [numeral, if_pos hn]
  · have hdigits : Nat.digits b n.toNat ≠ [] :=
      Nat.digits_ne_nil_iff_ne_zero.2 (toNat_ne_zero hn)
    have hlast := Nat.getLast_digit_ne_zero b (toNat_ne_zero hn)
    rw [numeral, if_neg hn, head?_digits hdigits, Option.some.injEq] at h
    have hzero := digitValue_digit
      (digits_lt hlo hhi (List.getLast_mem hdigits))
    rw [h] at hzero
    exact absurd (Option.some.inj hzero).symm hlast

theorem readNumeral_numeral (hlo : 2 ≤ b) (hhi : b ≤ 16) :
    readNumeral digitValue b (numeral n b) = some n.toNat := by
  rw [numeral]
  split
  · next hn =>
      have hone := @readNumeral_map_reverse _ digitValue b digit [0]
        (List.cons_ne_nil _ _)
        (fun d hd => digitValue_digit (by simp_all))
        (fun d hd => by simp_all; omega)
      rw [hn]
      exact hone
  · next hn =>
      rw [readNumeral_map_reverse (Nat.digits_ne_nil_iff_ne_zero.2
        (toNat_ne_zero hn))
        (fun d hd => digitValue_digit (digits_lt hlo hhi hd))
        (fun d hd => Nat.digits_lt_base hlo hd), Nat.ofDigits_digits]

theorem numeral_inj (hlo : 2 ≤ b) (hhi : b ≤ 16)
    (h : numeral m b = numeral n b) : m = n := by
  have hread := @readNumeral_numeral m b hlo hhi
  rw [h, readNumeral_numeral hlo hhi, Option.some.injEq] at hread
  exact UInt64.toNat_inj.1 hread.symm

theorem printUint_eq (hlo : 2 ≤ b) (hhi : b ≤ 16) :
    s.printUint n b = { s with written := s.written ++ numeral n b } := by
  rw [printUint, numeral]
  split
  · exact char_of_ne_zero (by decide)
  · have hne : ∀ c ∈ ((Nat.digits b n.toNat).map digit).reverse, c ≠ 0 := by
      intro c hc
      rw [List.mem_reverse, List.mem_map] at hc
      obtain ⟨d, hd, rfl⟩ := hc
      exact digit_ne_zero (digits_lt hlo hhi hd)
    rw [← foldl_char hne, ← List.map_reverse, List.foldl_map]

/-! ## The loops -/

theorem putLoop_eq (buf : Nat → UInt8) (i : Nat) (s : Ostream) :
    putLoop buf i s = (CString.firstBytes buf i).reverse.foldl char s := by
  induction i generalizing s with
  | zero => rfl
  | succ i ih =>
      rw [putLoop, ih, CString.firstBytes_succ, List.reverse_append]
      rfl

/-- One round takes the lowest digit off. -/
theorem digitLoop_succ (hlo : 2 ≤ base.toNat) (hhi : base.toNat ≤ 16)
    (hn : n ≠ 0) {i : Nat} (hi : i < 65) (fuel : Nat) :
    digitLoop base (fuel + 1) n buf i =
      digitLoop base fuel (n / base.toUInt64)
        (Function.update buf i (digit (n.toNat % base.toNat))) (i + 1) := by
  have hpos : n > 0 := UInt64.pos_iff_ne_zero.2 hn
  have hdigit : n.toNat % base.toNat < 16 :=
    Nat.lt_of_lt_of_le (Nat.mod_lt _ (by omega)) hhi
  rw [digitLoop, if_pos hpos, UInt64.toNat_mod, UInt8.toNat_toUInt64,
    chars_getElem? hdigit]
  exact if_pos hi

theorem digits_div (hlo : 2 ≤ base.toNat) (hn : n ≠ 0) :
    Nat.digits base.toNat n.toNat = n.toNat % base.toNat ::
      Nat.digits base.toNat (n / base.toUInt64).toNat := by
  rw [UInt64.toNat_div, UInt8.toNat_toUInt64]
  exact Nat.digits_def' hlo (Nat.pos_of_ne_zero (toNat_ne_zero hn))

/-- The loop appends the digits of what is left of the number, and cells from
the index up stay as they were. -/
theorem digitLoop_spec (hlo : 2 ≤ base.toNat) (hhi : base.toNat ≤ 16)
    (fuel : Nat) : ∀ (n : UInt64) (buf : Nat → UInt8) (i : Nat),
      (Nat.digits base.toNat n.toNat).length < fuel →
      i + (Nat.digits base.toNat n.toNat).length ≤ 65 →
      ∃ buf', digitLoop base fuel n buf i =
          some (buf', i + (Nat.digits base.toNat n.toNat).length) ∧
        CString.firstBytes buf'
            (i + (Nat.digits base.toNat n.toNat).length) =
          CString.firstBytes buf i ++
            (Nat.digits base.toNat n.toNat).map digit ∧
        ∀ j ≥ i + (Nat.digits base.toNat n.toNat).length, buf' j = buf j := by
  induction fuel with
  | zero =>
      intro n buf i hfuel
      exact absurd hfuel (Nat.not_lt_zero _)
  | succ fuel ih =>
      intro n buf i hfuel hroom
      by_cases hn : n = 0
      · refine ⟨buf, ?_, ?_, fun _ _ => rfl⟩
        · simp [digitLoop, hn]
        · simp [hn]
      · have hdigits := digits_div hlo hn
        rw [hdigits, List.length_cons] at hfuel hroom ⊢
        obtain ⟨buf', hloop, hcells, hkept⟩ := ih (n / base.toUInt64)
          (Function.update buf i (digit (n.toNat % base.toNat))) (i + 1)
          (by omega) (by omega)
        rw [Nat.add_right_comm, Nat.add_assoc] at hloop hcells hkept
        refine ⟨buf', ?_, ?_, fun j hj => ?_⟩
        · rw [digitLoop_succ hlo hhi hn (by omega), hloop]
        · rw [hcells, CString.firstBytes_push, List.append_assoc]
          rfl
        · rw [hkept j hj, Function.update_of_ne (by omega)]

/-- A number has at most 64 digits. -/
theorem length_digits_le (hlo : 2 ≤ b) (n : UInt64) :
    (Nat.digits b n.toNat).length ≤ 64 := by
  rw [Nat.digits_length_le_iff hlo]
  exact Nat.lt_of_lt_of_le n.toNat_lt (Nat.pow_le_pow_left hlo 64)

/-- The function with its loops is `printUint`. -/
theorem printUintLoops_eq (hlo : 2 ≤ base.toNat) (hhi : base.toNat ≤ 16)
    {fuel : Nat} (hfuel : 65 ≤ fuel) (buf : Nat → UInt8) (s : Ostream)
    (n : UInt64) :
    printUintLoops fuel buf s n base = some (s.printUint n base.toNat) := by
  rw [printUintLoops, printUint]
  split
  · rfl
  · have hlen := length_digits_le hlo n
    obtain ⟨buf', hloop, hcells, -⟩ :=
      digitLoop_spec hlo hhi fuel n buf 0 (by omega) (by omega)
    rw [Nat.zero_add] at hloop hcells
    rw [hloop]
    show some (putLoop buf' _ s) = _
    have hempty : CString.firstBytes buf 0 = [] := rfl
    rw [putLoop_eq, hcells, hempty, List.nil_append, ← List.map_reverse,
      List.foldl_map]

end Ostream

open Ostream

/-- For every number and every base from 2 to 16, whatever is in the buffer and
on the stream: `print_uint` returns after at most 65 rounds, has stored into at
most 64 cells, and has written a non-empty numeral of digits below the base,
without leading zeros, whose value is the number. So different numbers are
printed differently. -/
theorem print_uint_numeral (n : UInt64) (base : UInt8)
    (hlo : 2 ≤ base.toNat) (hhi : base.toNat ≤ 16) :
    (∀ fuel buf, 65 ≤ fuel → ∃ buf' i,
        digitLoop base fuel n buf 0 = some (buf', i) ∧ i ≤ 64 ∧
          ∀ j ≥ i, buf' j = buf j) ∧
      (∀ fuel buf s, 65 ≤ fuel → printUintLoops fuel buf s n base =
        some { s with written := s.written ++ numeral n base.toNat }) ∧
      numeral n base.toNat ≠ [] ∧
      (∀ c ∈ numeral n base.toNat, ∃ d < base.toNat, digitValue c = some d) ∧
      ((numeral n base.toNat).head? = some 0x30 →
        numeral n base.toNat = [0x30]) ∧
      readNumeral digitValue base.toNat (numeral n base.toNat) =
        some n.toNat ∧
      ∀ m, numeral m base.toNat = numeral n base.toNat → m = n := by
  have hlen := length_digits_le hlo n
  refine ⟨fun fuel buf hfuel => ?_, fun fuel buf s hfuel => ?_, numeral_ne_nil,
    fun c hc => ?_, head?_numeral hlo hhi, readNumeral_numeral hlo hhi,
    fun m => numeral_inj hlo hhi⟩
  · obtain ⟨buf', hloop, -, hkept⟩ :=
      digitLoop_spec hlo hhi fuel n buf 0 (by omega) (by omega)
    rw [Nat.zero_add] at hloop hkept
    exact ⟨buf', _, hloop, hlen, hkept⟩
  · rw [printUintLoops_eq hlo hhi hfuel, printUint_eq hlo hhi]
  · obtain ⟨d, hd, rfl⟩ := mem_numeral hlo hhi hc
    exact ⟨d, hd, digitValue_digit (Nat.lt_of_lt_of_le hd hhi)⟩

/-- The largest number in binary. -/
theorem print_uint_numeral_max :
    readNumeral digitValue 2 (numeral 0xFFFFFFFFFFFFFFFF 2) =
      some 18446744073709551615 :=
  (print_uint_numeral 0xFFFFFFFFFFFFFFFF 2 (by decide) (by decide)).2.2.2.2.2.1

end TermOS.Console
