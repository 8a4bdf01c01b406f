import TermOS.Proofs.PrintInt
import TermOS.Proofs.Startup

/-!
# Recalling a command by its number

`history` prints the entries with the numbers from 1 on, and `!n` is to run the
`n`-th. What `Shell::run` does with the text behind the `!` is to subtract `'1'`
from its first character: nothing looks at the second. So it agrees with the
printed numbers for one digit with nothing behind it, and for every text whose
first character names no entry. In between it runs some entry, and if there
are ten, the tenth cannot be reached by its number.
-/

namespace TermOS.Shell

open TermOS.Console (Ostream)
open TermOS.Console.Ostream (digit)
open TermOS.Storage (Str lit)

/-! ## Decimal numbers -/

/-- The text of a number from 1 on. -/
def decimal (n : Nat) : Str := ((Nat.digits 10 n).map digit).reverse

/-- It is what `cmd_history` prints. -/
theorem int_eq_decimal (o : Ostream) (hfmt : o.currentFmt = .dec) {n : Nat}
    (hpos : 0 < n) (hlt : n < 2147483648) :
    o.int (Int32.ofNat n) = { o with written := o.written ++ decimal n } := by
  have hint : (Int32.ofNat n).toInt = n :=
    Int32.toInt_ofNat_of_lt (by omega)
  have hwide := Console.toNat_widened (Int32.ofNat n)
  rw [hint, if_pos (Int.natCast_nonneg n), Int.natCast_inj] at hwide
  have hsign : ¬ Int32.ofNat n < 0 := by
    have hzero : (0 : Int32).toInt = 0 := rfl
    rw [Int32.lt_iff_toInt_lt, hint, hzero]
    omega
  have hne : (Int32.ofNat n).toInt64.toUInt64 ≠ 0 := by
    intro h
    rw [h, UInt64.toNat_zero] at hwide
    omega
  rw [Ostream.int, if_neg hsign, Console.uint_eq, hfmt]
  show (⟨.dec, o.written ++ Ostream.numeral _ 10⟩ : Ostream) = _
  rw [Ostream.numeral, if_neg hne, hwide]
  rfl

variable {n d : Nat} {b : UInt8} {rest : Str}

theorem decimal_of_lt (hpos : 0 < n) (hlt : n < 10) : decimal n = [digit n] := by
  rw [decimal, Nat.digits_of_lt 10 n (Nat.ne_of_gt hpos) hlt]
  rfl

/-- A number begins with a digit that is not zero and not larger than the
number. -/
theorem head_decimal (hpos : 0 < n) (h : decimal n = b :: rest) :
    ∃ q, 0 < q ∧ q < 10 ∧ q ≤ n ∧ b = digit q := by
  have hdigits : Nat.digits 10 n ≠ [] :=
    Nat.digits_ne_nil_iff_ne_zero.2 (Nat.ne_of_gt hpos)
  have hlast := Nat.getLast_digit_ne_zero 10 (Nat.ne_of_gt hpos)
  have hlt : (Nat.digits 10 n).getLast hdigits < 10 :=
    Nat.digits_lt_base (by decide) (List.getLast_mem hdigits)
  have hhead := congrArg List.head? h
  rw [decimal, Ostream.head?_digits hdigits, List.head?_cons,
    Option.some.injEq] at hhead
  refine ⟨_, Nat.pos_of_ne_zero hlast, hlt, ?_, hhead.symm⟩
  rcases Nat.lt_or_ge n 10 with hsmall | hlarge
  · simp [Nat.digits_of_lt 10 n (Nat.ne_of_gt hpos) hsmall]
  · omega

/-- It has one digit if and only if it is below ten. -/
theorem tail_decimal (h : decimal n = b :: rest) : rest = [] ↔ n < 10 := by
  have hlen := congrArg List.length h
  rw [decimal, List.length_reverse, List.length_map, List.length_cons] at hlen
  have hle := Nat.digits_length_le_iff (by decide : 1 < 10) (k := 1) n
  rw [← List.length_eq_zero_iff]
  omega

/-! ## The index that `Shell::run` computes -/

/-- The first character behind the `!`, as the code subtracts from it. -/
def firstChar (line : Str) : Int := (line.getD 1 0).toInt8.toInt

theorem toInt_digit (h : d < 10) : (digit d).toInt8.toInt = 0x30 + d := by
  have hall : ∀ d < 10, (digit d).toInt8.toInt = 0x30 + d := by decide
  exact hall d h

theorem eq_digit (h : d < 10) (hb : b.toInt8.toInt = 0x30 + d) :
    b = digit d := by
  rw [← toInt_digit h, Int8.toInt_inj] at hb
  exact congrArg Int8.toUInt8 hb

theorem recalled_eq_some_iff {h : History} {line : Str} {i : Nat} :
    recalled h line = some i ↔ firstChar line = 0x31 + i ∧ i < h.count := by
  show (if 0 ≤ firstChar line - 0x31 ∧ firstChar line - 0x31 < h.count then
    some (firstChar line - 0x31).toNat else none) = some i ↔ _
  split
  · rw [Option.some.injEq]
    omega
  · refine iff_of_false (fun h => ?_) (by omega)
    cases h

/-- The text is the number of entry `i`. -/
def Numbers (h : History) (text : Str) (i : Nat) : Prop :=
  i < h.count ∧ text = decimal (i + 1)

/-- If the first character is that of an entry, counted from `'1'`, then it is
a digit and the only one. -/
def OneDigit (h : History) (line : Str) : Prop :=
  0x31 ≤ firstChar line → firstChar line < 0x31 + h.count →
    firstChar line ≤ 0x39 ∧ line.length = 2

/-- The first character of a number is that of an entry. -/
theorem Numbers.firstChar_eq {h : History} {a : UInt8} {i : Nat}
    (hnum : Numbers h (b :: rest) i) :
    ∃ q, 0 < q ∧ q < 10 ∧ q ≤ h.count ∧ firstChar (a :: b :: rest) = 0x30 + q ∧
      (rest = [] → q = i + 1) := by
  obtain ⟨hi, htext⟩ := hnum
  obtain ⟨q, hpos, hlt, hle, rfl⟩ :=
    head_decimal (Nat.succ_pos i) htext.symm
  refine ⟨q, hpos, hlt, by omega, toInt_digit hlt, fun hrest => ?_⟩
  have hsmall := (tail_decimal htext.symm).1 hrest
  rw [decimal_of_lt (Nat.succ_pos i) hsmall, List.cons.injEq] at htext
  have hvalue := toInt_digit hlt
  rw [htext.1, toInt_digit hsmall] at hvalue
  omega

/-- The index is that of the number, for every number, if and only if the first
character tells. -/
theorem recalled_numbers_iff (h : History) (a b : UInt8) (rest : Str) :
    (∀ i, recalled h (a :: b :: rest) = some i ↔ Numbers h (b :: rest) i) ↔
      OneDigit h (a :: b :: rest) := by
  refine ⟨?_, ?_⟩
  · intro hall hlo hhi
    obtain ⟨i, hi⟩ : ∃ i : Nat, firstChar (a :: b :: rest) = 0x31 + i :=
      ⟨(firstChar (a :: b :: rest) - 0x31).toNat, by omega⟩
    have hnum := (hall i).1 (recalled_eq_some_iff.2 ⟨hi, by omega⟩)
    obtain ⟨q, -, hlt, -, hfirst, -⟩ := hnum.firstChar_eq (a := a)
    have hrest : rest = [] := (tail_decimal hnum.2.symm).2 (by omega)
    refine ⟨by omega, ?_⟩
    rw [hrest]
    rfl
  · intro hone i
    rw [recalled_eq_some_iff]
    refine ⟨?_, ?_⟩
    · rintro ⟨hfirst, hi⟩
      obtain ⟨hdigit, hlen⟩ := hone (by omega) (by omega)
      have hrest : rest = [] := by
        simpa using hlen
      refine ⟨hi, ?_⟩
      have hb : b = digit (i + 1) := by
        refine eq_digit (by omega) ?_
        show firstChar (a :: b :: rest) = 0x30 + ((i + 1 : Nat) : Int)
        omega
      rw [decimal_of_lt (Nat.succ_pos i) (by omega), hrest, hb]
    · intro hnum
      obtain ⟨q, hpos, hlt, hle, hfirst, hq⟩ := hnum.firstChar_eq (a := a)
      obtain ⟨-, hlen⟩ := hone (by omega) (by omega)
      have hrest : rest = [] := by
        simpa using hlen
      rw [hfirst, hq hrest]
      refine ⟨?_, hnum.1⟩
      omega

/-! ## The round of the loop -/

namespace Kernel

variable {k read : Kernel} {editorMain : UInt64} {input : Input} {line : Str}
  {i : Nat}

/-- The round copies entry `i` into the buffer, shows it, records it and
executes it. -/
def RunsEntry (k : Kernel) (editorMain : UInt64) (input : Input) (i : Nat) :
    Prop :=
  ∃ line read, k.prompt.readLine input = some (line, read) ∧
    recalled read.history line = some i ∧
    ∀ k', k.Round editorMain input k' ↔ ∃ fuel text,
      read.history.entry fuel i = some text ∧
      (read.sayLine text).Execute editorMain input.hidden text k'

/-- The round says that there is no such command, and that is all. -/
def RefusesRecall (k : Kernel) (editorMain : UInt64) (input : Input) : Prop :=
  ∃ line read, k.prompt.readLine input = some (line, read) ∧
    ∀ k', k.Round editorMain input k' ↔
      k' = read.sayLine (lit "No such command in history.") ∧
        k'.history = k.history ∧ k'.fs = k.fs

theorem readLine_unique {line' : Str} {read' : Kernel}
    (h : k.readLine input = some (line, read))
    (h' : k.readLine input = some (line', read')) :
    line = line' ∧ read = read' := by
  rw [h, Option.some.injEq, Prod.mk.injEq] at h'
  exact h'

theorem fs_readLine (h : k.prompt.readLine input = some (line, read)) :
    read.fs = k.fs := by
  rw [readLine] at h
  split at h
  · obtain ⟨-, rfl⟩ := Prod.mk.inj (Option.some.inj h)
    rfl
  · cases h

/-- What a round does with a line that asks for an entry. -/
theorem round_of_isRecall (hread : k.prompt.readLine input = some (line, read))
    (hrecall : isRecall line = true) (k' : Kernel) :
    k.Round editorMain input k' ↔
      (∃ i fuel text, recalled read.history line = some i ∧
        read.history.entry fuel i = some text ∧
        (read.sayLine text).Execute editorMain input.hidden text k') ∨
      (recalled read.history line = none ∧
        k' = read.sayLine (lit "No such command in history.")) := by
  refine ⟨?_, ?_⟩
  · rintro (⟨text, fetched, ⟨line', read', hread', htaken⟩, hrun⟩ |
      ⟨line', read', hread', -, hnone, rfl⟩)
    · obtain ⟨rfl, rfl⟩ := readLine_unique hread hread'
      rcases htaken with ⟨hno, -, -⟩ | ⟨-, i, fuel, hi, hentry, rfl⟩
      · rw [hrecall] at hno
        cases hno
      · exact .inl ⟨i, fuel, text, hi, hentry, hrun⟩
    · obtain ⟨rfl, rfl⟩ := readLine_unique hread hread'
      exact .inr ⟨hnone, rfl⟩
  · rintro (⟨i, fuel, text, hi, hentry, hrun⟩ | ⟨hnone, rfl⟩)
    · exact .inl ⟨text, read.sayLine text, ⟨line, read, hread,
        .inr ⟨hrecall, i, fuel, hi, hentry, rfl⟩⟩, hrun⟩
    · exact .inr ⟨line, read, hread, hrecall, hnone, rfl⟩

/-- A round in which the index is that of an entry. -/
theorem round_of_recalled (hread : k.prompt.readLine input = some (line, read))
    (hrecall : isRecall line = true)
    (hi : recalled read.history line = some i) (k' : Kernel) :
    k.Round editorMain input k' ↔ ∃ fuel text,
      read.history.entry fuel i = some text ∧
      (read.sayLine text).Execute editorMain input.hidden text k' := by
  rw [round_of_isRecall hread hrecall, hi]
  refine ⟨?_, fun ⟨fuel, text, h⟩ => .inl ⟨i, fuel, text, rfl, h⟩⟩
  rintro (⟨j, fuel, text, hj, h⟩ | ⟨hnone, -⟩)
  · obtain rfl := Option.some.inj hj
    exact ⟨fuel, text, h⟩
  · cases hnone

theorem runsEntry_iff (hread : k.prompt.readLine input = some (line, read))
    (hrecall : isRecall line = true) : k.RunsEntry editorMain input i ↔
      recalled read.history line = some i := by
  refine ⟨?_, ?_⟩
  · rintro ⟨line', read', hread', hi, -⟩
    obtain ⟨rfl, rfl⟩ := readLine_unique hread hread'
    exact hi
  · intro hi
    exact ⟨line, read, hread, hi, round_of_recalled hread hrecall hi⟩

/-- A round in which it is not. -/
theorem refusesRecall_of_none
    (hread : k.prompt.readLine input = some (line, read))
    (hrecall : isRecall line = true)
    (hnone : recalled read.history line = none) :
    k.RefusesRecall editorMain input := by
  refine ⟨line, read, hread, fun k' => ?_⟩
  rw [round_of_isRecall hread hrecall, hnone]
  refine ⟨?_, fun h => .inr ⟨rfl, h.1⟩⟩
  rintro (⟨i, fuel, text, hi, -⟩ | ⟨-, rfl⟩)
  · cases hi
  · have hsay : (read.sayLine (lit "No such command in history.")).fs =
        read.fs := rfl
    exact ⟨rfl, (keeps_readLine hread).history, hsay.trans (fs_readLine hread)⟩

/-- History recall accepts the numbers that `history` prints: a round executes
entry `i` if and only if its number is the text behind the `!`, and if the text
is no entry's number, the round refuses it. -/
def RecallsByNumber (k : Kernel) (editorMain : UInt64) (input : Input)
    (line : Str) : Prop :=
  (∀ i, k.RunsEntry editorMain input i ↔ Numbers k.history line.tail i) ∧
    ((∀ i, ¬ Numbers k.history line.tail i) →
      k.RefusesRecall editorMain input)

end Kernel

/-- For every state of the shell and every line from a `!` on that is longer
than one character. -/
theorem recall_by_number_iff (k : Kernel) (editorMain : UInt64) (input : Input)
    (line : Str) (read : Kernel)
    (hread : k.prompt.readLine input = some (line, read))
    (hrecall : isRecall line = true) :
    k.RecallsByNumber editorMain input line ↔ OneDigit k.history line := by
  have hhist : read.history = k.history := (Kernel.keeps_readLine hread).history
  have hruns : ∀ i, k.RunsEntry editorMain input i ↔
      recalled k.history line = some i := by
    intro i
    rw [← hhist]
    exact Kernel.runsEntry_iff hread hrecall
  obtain ⟨a, b, rest, rfl⟩ : ∃ a b rest, line = a :: b :: rest := by
    rw [isRecall, Bool.and_eq_true, decide_eq_true_eq] at hrecall
    match line, hrecall.2 with
    | a :: b :: rest, _ => exact ⟨a, b, rest, rfl⟩
  rw [← recalled_numbers_iff, Kernel.RecallsByNumber, List.tail_cons]
  simp only [hruns]
  refine and_iff_left_of_imp fun hall hno => ?_
  refine Kernel.refusesRecall_of_none hread hrecall ?_
  rw [hhist]
  cases hindex : recalled k.history (a :: b :: rest) with
  | none => rfl
  | some i => exact absurd ((hall i).1 hindex) (hno i)

/-- Ten commands of one letter each, from `a` to `j`. -/
def tenLetters : Kernel :=
  { Kernel.kmain noDisks with
    history :=
      { bytes := fun a =>
          if a % 64 = 0 then UInt8.ofNat (0x61 + a / 64) else 0
        count := 10 } }

/-- `!3` runs the third of them. -/
theorem recall_by_number_iff_third :
    tenLetters.RecallsByNumber 0x8000 (typedLine "!3") (lit "!3") := by
  obtain ⟨read, hread⟩ := readLine_typedLine tenLetters "!3" (by decide)
  exact (recall_by_number_iff _ 0x8000 _ _ read hread (by decide)).2
    fun _ _ => ⟨by decide, by decide⟩

/-- `!10` runs the first of them. -/
theorem not_recall_by_number_ten :
    ¬ tenLetters.RecallsByNumber 0x8000 (typedLine "!10") (lit "!10") := by
  rintro ⟨hruns, -⟩
  obtain ⟨read, hread⟩ := readLine_typedLine tenLetters "!10" (by decide)
  have hlast := (hruns 9).2 ⟨by decide, by decide⟩
  rw [Kernel.runsEntry_iff hread (by decide),
    (Kernel.keeps_readLine hread).history] at hlast
  exact absurd hlast (by decide)

end TermOS.Shell
