import Mathlib.Data.List.GetD
import Mathlib.Tactic.Tauto
import TermOS.Ref.Fat32

/-!
# Names and the strings they answer to

Three characters at the front of a name decide what the driver takes an entry
for: a zero or `0xE5` marks a free slot, and a dot marks `.` and `..`. A match
never finds a name that begins with a zero or a dot, and `mkdir` and `touch`
never make one. That keeps the two dot entries out of every command's hands.

Which name a string matches is a matter of eight characters. `mkdir` and
`touch` write the same eight, but for a line break: they write it, and a match
takes it for the end of the string.
-/

namespace TermOS.Storage

theorem upper_eq_self {c : UInt8} (h : ¬ (0x61 ≤ c ∧ c ≤ 0x7A)) :
    upper c = c := if_neg h

/-- `upper` makes capital letters of letters and nothing else. -/
theorem upper_eq_of_lt {c d : UInt8} (hd : d < 0x41 ∨ 0x5A < d)
    (hd' : ¬ (0x61 ≤ d ∧ d ≤ 0x7A)) : upper c = d ↔ c = d := by
  by_cases hc : 0x61 ≤ c ∧ c ≤ 0x7A
  · rw [upper, if_pos hc]
    refine ⟨?_, ?_⟩
    · intro heq
      subst heq
      simp only [UInt8.lt_iff_toNat_lt, UInt8.le_iff_toNat_le,
        UInt8.toNat_sub, UInt8.reduceToNat] at hd hc
      omega
    · intro heq
      subst heq
      exact absurd hc hd'
  · rw [upper_eq_self hc]

theorem toList_take_eight (n : Vector UInt8 11) :
    ∃ fs, n.toList.take 8 = firstByte n :: fs := by
  obtain ⟨⟨l⟩, hl⟩ := n
  match l, hl with
  | f :: fs, _ => exact ⟨fs.take 7, rfl⟩

/-- A matched name begins neither with a zero nor with a dot. -/
theorem fatNameMatch_head {input : Str} {n : Vector UInt8 11}
    (h : fatNameMatch input n = true) : firstByte n ≠ 0 ∧ firstByte n ≠ dot := by
  obtain ⟨fs, hfs⟩ := toList_take_eight n
  rw [fatNameMatch, hfs, matchChars] at h
  by_cases hend : input.headD 0 = 0 ∨ input.headD 0 = dot ∨
      input.headD 0 = newline ∨ input.headD 0 = carriageReturn
  · simp only [if_pos hend, List.all_cons, Bool.and_eq_true, beq_iff_eq] at h
    rw [h.1]
    decide
  · simp only [if_neg hend] at h
    split at h
    · cases h
    · next hup =>
        rw [Decidable.not_not] at hup
        rw [← hup, not_or, not_or] at *
        exact ⟨fun hz => hend.1 ((upper_eq_of_lt (by decide) (by decide)).1 hz),
          fun hdot =>
            hend.2.1 ((upper_eq_of_lt (by decide) (by decide)).1 hdot)⟩

/-- What stands first in the name made of a string. -/
theorem fatName_head (name : Str) :
    firstByte (fatName name) =
      if name.headD 0 = 0 ∨ name.headD 0 = dot then space
      else upper (name.headD 0) := by
  simp only [firstByte, fatName, Vector.getElem_ofFn]
  cases name with
  | nil => rfl
  | cons c cs =>
      rw [List.take_succ_cons, List.takeWhile_cons]
      by_cases hc : c = 0 ∨ c = dot
      · have hstop : decide (c ≠ 0 ∧ c ≠ dot) = false :=
          decide_eq_false fun h => hc.elim h.1 h.2
        rw [hstop, List.headD_cons, if_pos hc]
        rfl
      · have hgo : decide (c ≠ 0 ∧ c ≠ dot) = true :=
          decide_eq_true (not_or.1 hc)
        rw [hgo, List.headD_cons, if_neg hc]
        rfl

theorem fatName_head_ne (name : Str) :
    firstByte (fatName name) ≠ 0 ∧ firstByte (fatName name) ≠ dot := by
  rw [fatName_head]
  split
  · decide
  · next h =>
      rw [not_or] at h
      exact ⟨fun hz => h.1 ((upper_eq_of_lt (by decide) (by decide)).1 hz),
        fun hdot => h.2 ((upper_eq_of_lt (by decide) (by decide)).1 hdot)⟩

/-- Only a string that begins with `0xE5` makes the name of a free slot. -/
theorem fatName_head_eq_removed {name : Str} :
    firstByte (fatName name) = 0xE5 ↔ name.headD 0 = 0xE5 := by
  rw [fatName_head]
  split
  · next h =>
      refine ⟨?_, ?_⟩
      · intro hsp
        exact absurd hsp (by decide)
      · intro hhead
        rw [hhead] at h
        exact absurd h (by decide)
  · exact upper_eq_of_lt (by decide) (by decide)

/-! ## The key of a string

A match compares the first eight characters of a name with what the string
amounts to: its characters up to the first at which the reading stops, in
capitals, and blanks behind them. -/

/-- Where `fat_name_match` stops reading a string. -/
def stopsMatch (c : UInt8) : Bool :=
  c == 0 || c == dot || c == newline || c == carriageReturn

/-- Where `mkdir` and `touch` stop reading a name. -/
def stopsName (c : UInt8) : Bool := c == 0 || c == dot

/-- The first `n` characters of a string, up to one that stops, in capitals
and filled up with blanks. -/
def padded (stops : UInt8 → Bool) : Nat → Str → List UInt8
  | 0, _ => []
  | n + 1, [] => List.replicate (n + 1) space
  | n + 1, c :: cs =>
      if stops c then List.replicate (n + 1) space
      else upper c :: padded stops n cs

theorem matchChars_iff (input : Str) (fs : List UInt8) :
    matchChars input fs = true ↔ fs = padded stopsMatch fs.length input := by
  induction fs generalizing input with
  | nil => simp [matchChars, padded]
  | cons f fs ih =>
      cases input with
      | nil => simp [matchChars, padded, List.eq_replicate_iff]
      | cons c cs =>
          have hstops : stopsMatch c = true ↔
              c = 0 ∨ c = dot ∨ c = newline ∨ c = carriageReturn := by
            simp [stopsMatch, or_assoc]
          rw [matchChars, List.length_cons, padded]
          simp only [List.headD_cons, List.tail_cons, ← hstops]
          by_cases hstop : stopsMatch c = true
          · simp [hstop, List.eq_replicate_iff]
          · by_cases hup : upper c = f
            · simp [hstop, hup, ih]
            · simp [hstop, hup, Ne.symm hup]

theorem fatNameMatch_iff {input : Str} {n : Vector UInt8 11} :
    fatNameMatch input n = true ↔
      n.toList.take 8 = padded stopsMatch 8 input := by
  have hlen : (n.toList.take 8).length = 8 := by simp
  rw [fatNameMatch, matchChars_iff, hlen]

/-- The padding, character by character. -/
theorem getD_padded (stops : UInt8 → Bool) (n : Nat) (name : Str) (k : Nat) :
    (padded stops n name).getD k space =
      (((name.take n).takeWhile fun c => !stops c).map upper).getD k space := by
  induction n generalizing name k with
  | zero => simp [padded]
  | succ n ih =>
      cases name with
      | nil => simp [padded, List.getElem?_replicate]; split <;> rfl
      | cons c cs =>
          rw [padded, List.take_succ_cons, List.takeWhile_cons]
          by_cases hstop : stops c = true
          · simp [hstop, List.getElem?_replicate]; split <;> rfl
          · cases k with
            | zero => simp [hstop]
            | succ k => simpa [hstop] using ih cs k

theorem length_padded (stops : UInt8 → Bool) (n : Nat) (input : Str) :
    (padded stops n input).length = n := by
  induction n generalizing input with
  | zero => rfl
  | succ n ih =>
      cases input with
      | nil => exact List.length_replicate
      | cons c cs =>
          rw [padded]
          split
          · exact List.length_replicate
          · rw [List.length_cons, ih]

/-- The name made of a string is the string's padding. -/
theorem take_fatName (name : Str) :
    (fatName name).toList.take 8 = padded stopsName 8 name := by
  refine List.ext_getElem (by simp [length_padded]) fun k hk hk' => ?_
  have hget := getD_padded stopsName 8 name k
  rw [← List.getD_eq_getElem _ space hk', hget]
  have hstem : ((name.take 8).takeWhile fun c => !stopsName c) =
      (name.take 8).takeWhile fun c => c ≠ 0 ∧ c ≠ dot := by
    congr 1
    funext c
    exact Bool.eq_iff_iff.2 (by simp [stopsName])
  rw [hstem]
  simp [fatName]

theorem padded_nil (stops : UInt8 → Bool) (n : Nat) :
    padded stops n [] = List.replicate n space := by cases n <;> rfl

/-- A padding begins with the capital of a character that does not stop, or
with a blank. -/
theorem padded_succ (n : Nat) (input : Str) :
    ∃ d ds, stopsMatch d = false ∧
      padded stopsMatch (n + 1) input = upper d :: padded stopsMatch n ds := by
  have hblank : List.replicate (n + 1) space =
      upper space :: padded stopsMatch n [] := by
    rw [padded_nil]
    rfl
  cases input with
  | nil => exact ⟨space, [], by decide, hblank⟩
  | cons c cs =>
      rw [padded]
      split
      · exact ⟨space, [], by decide, hblank⟩
      · next hstop => exact ⟨c, cs, Bool.eq_false_iff.2 hstop, rfl⟩

theorem padded_eq_of_eq {n : Nat} {name input : Str}
    (h : padded stopsName n name = padded stopsMatch n input) :
    padded stopsName n name = padded stopsMatch n name := by
  induction n generalizing name input with
  | zero => rfl
  | succ n ih =>
      cases name with
      | nil => rfl
      | cons c cs =>
          obtain ⟨d, ds, hd, hpad⟩ := padded_succ n input
          rw [padded, padded]
          by_cases hname : stopsName c = true
          · have hmatch : stopsMatch c = true := by
              rw [stopsName] at hname
              rw [stopsMatch, hname]
              rfl
            rw [if_pos hname, if_pos hmatch]
          · rw [padded, if_neg hname, hpad, List.cons.injEq] at h
            -- A line break in the name is none in `d`, and stays itself.
            have hmatch : ¬ stopsMatch c = true := by
              intro hstop
              have hbreak : c = newline ∨ c = carriageReturn := by
                simp only [stopsMatch, stopsName, Bool.or_eq_true,
                  beq_iff_eq] at hstop hname
                tauto
              have hdc : d = c := by
                rcases hbreak with rfl | rfl
                · exact (upper_eq_of_lt (by decide) (by decide)).1 h.1.symm
                · exact (upper_eq_of_lt (by decide) (by decide)).1 h.1.symm
              rw [hdc, hstop] at hd
              cases hd
            rw [if_neg hname, if_neg hmatch, ih h.2]

theorem padded_congr {stops stops' : UInt8 → Bool} {name : Str}
    (h : ∀ c ∈ name, stops c = stops' c) (n : Nat) :
    padded stops n name = padded stops' n name := by
  induction n generalizing name with
  | zero => rfl
  | succ n ih =>
      cases name with
      | nil => rfl
      | cons c cs =>
          rw [padded, padded, h c List.mem_cons_self,
            ih fun d hd => h d (List.mem_cons_of_mem c hd)]

/-- A string without line breaks matches the name made of it. -/
theorem fatNameMatch_self {name : Str}
    (h : ∀ c ∈ name, c ≠ newline ∧ c ≠ carriageReturn) :
    fatNameMatch name (fatName name) = true := by
  rw [fatNameMatch_iff, take_fatName]
  refine padded_congr (fun c hc => ?_) 8
  rw [stopsMatch, beq_eq_false_iff_ne.2 (h c hc).1,
    beq_eq_false_iff_ne.2 (h c hc).2, Bool.or_false, Bool.or_false, stopsName]

/-- Strings that one name answers to have the same names answer to them. -/
theorem fatNameMatch_congr {input input' : Str} {n m : Vector UInt8 11}
    (h : fatNameMatch input n = true) (h' : fatNameMatch input' n = true) :
    fatNameMatch input m = fatNameMatch input' m := by
  rw [Bool.eq_iff_iff, fatNameMatch_iff, fatNameMatch_iff,
    ← fatNameMatch_iff.1 h, ← fatNameMatch_iff.1 h']

/-- A name that answers to anything answers to the string it was made of. -/
theorem fatNameMatch_fatName {input name : Str}
    (h : fatNameMatch input (fatName name) = true) :
    fatNameMatch name (fatName name) = true := by
  rw [fatNameMatch_iff, take_fatName] at h ⊢
  exact padded_eq_of_eq h

/-- Names that answer to the same string begin alike. -/
theorem firstByte_eq_of_match {input : Str} {n m : Vector UInt8 11}
    (h : fatNameMatch input n = true) (h' : fatNameMatch input m = true) :
    firstByte n = firstByte m := by
  obtain ⟨fs, hn⟩ := toList_take_eight n
  obtain ⟨fs', hm⟩ := toList_take_eight m
  have heq := (fatNameMatch_iff.1 h).trans (fatNameMatch_iff.1 h').symm
  rw [hn, hm] at heq
  exact (List.cons.inj heq).1

end TermOS.Storage
