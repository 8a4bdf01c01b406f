import TermOS.Lib.Delimited
import TermOS.Proofs.Kboot
import TermOS.Proofs.PrintUint

/-!
# What the report says

The text of the report has one line behind another and in each line numerals
with something behind them that is not a digit. So it can be read back: two
reports are the same text only if they report the same.
-/

namespace TermOS.Boot

open TermOS.Lib
open TermOS.Console (digitValue)
open TermOS.Console.Ostream (digit digitValue_digit)

section Numerals

variable {base n k : Nat} {rest rest' : List UInt8}

theorem readNumeral_radix (hlo : 2 ≤ base) (hhi : base ≤ 16) (n : Nat) :
    readNumeral digitValue base (radix base n) = some n := by
  rw [radix]
  split
  · next hn =>
      have hone := @readNumeral_map_reverse _ digitValue base digit [0]
        (List.cons_ne_nil _ _)
        (fun d hd => digitValue_digit (by rw [List.mem_singleton.1 hd]; decide))
        (fun d hd => by rw [List.mem_singleton.1 hd]; omega)
      rw [hn]
      exact hone
  · next hn =>
      rw [List.map_reverse]
      show readNumeral digitValue base ((Nat.digits base n).map digit).reverse =
        some n
      rw [readNumeral_map_reverse (Nat.digits_ne_nil_iff_ne_zero.2 hn)
        (fun d hd => digitValue_digit
          (Nat.lt_of_lt_of_le (Nat.digits_lt_base hlo hd) hhi))
        (fun d hd => Nat.digits_lt_base hlo hd), Nat.ofDigits_digits]

theorem not_mem_radix (hlo : 2 ≤ base) (hhi : base ≤ 16) {ch : UInt8}
    (hch : ∀ d < 16, radixDigit d ≠ ch) (n : Nat) : ch ∉ radix base n := by
  rw [radix]
  split
  · intro hmem
    exact hch 0 (by decide) (List.mem_singleton.1 hmem).symm
  · intro hmem
    obtain ⟨d, hd, hdigit⟩ := List.mem_map.1 hmem
    have hlt := Nat.digits_lt_base hlo (List.mem_reverse.1 hd)
    exact hch d (by omega) hdigit

theorem radix_inj (hlo : 2 ≤ base) (hhi : base ≤ 16)
    (h : radix base n = radix base k) : n = k := by
  have hread := readNumeral_radix hlo hhi n
  rw [h, readNumeral_radix hlo hhi k] at hread
  exact (Option.some.inj hread).symm

/-- A numeral and what is behind it. -/
theorem radix_field (hlo : 2 ≤ base) (hhi : base ≤ 16) {c : UInt8}
    (hc : ∀ d < 16, radixDigit d ≠ c)
    (h : radix base n ++ c :: rest = radix base k ++ c :: rest') :
    n = k ∧ rest = rest' := by
  obtain ⟨hnumeral, hrest⟩ := field_inj (not_mem_radix hlo hhi hc n)
    (not_mem_radix hlo hhi hc k) h
  exact ⟨radix_inj hlo hhi hnumeral, hrest⟩

end Numerals

variable {a b : BootInfo}

/-! ## Lines -/

theorem lines_of_reportText (h : reportText a = reportText b) :
    reportLines a = reportLines b := by
  refine lines_inj (d := 0x0A) (fun l hl => ?_) (fun l hl => ?_) h
  · exact (plain_reportLines a l hl).not_mem (by decide)
  · exact (plain_reportLines b l hl).not_mem (by decide)

/-- The line with three numbers. -/
theorem screenSize_inj {w w' h h' d d' : Nat}
    (hline : ascii "Screen Size   : " ++ display w ++ ascii "x" ++
        display h ++ ascii " @ " ++ display d ++ ascii "bpp" =
      ascii "Screen Size   : " ++ display w' ++ ascii "x" ++
        display h' ++ ascii " @ " ++ display d' ++ ascii "bpp") :
    w = w' ∧ h = h' ∧ d = d' := by
  simp only [List.append_assoc] at hline
  obtain ⟨hw, hrest⟩ := radix_field (by decide) (by decide)
    (c := 0x78) (by decide) (List.append_cancel_left hline)
  obtain ⟨hh, hrest⟩ := radix_field (by decide) (by decide)
    (c := 0x20) (by decide) hrest
  obtain ⟨hd, -⟩ := radix_field (by decide) (by decide)
    (c := 0x62) (by decide)
    (@List.append_cancel_left _ (ascii "@ ") _ _ hrest)
  exact ⟨hw, hh, hd⟩

/-- The first line of a region. -/
def Region.line (r : Region) : List UInt8 :=
  ascii "  Reg [" ++ display r.index ++ ascii "]: Base: 0x" ++
    upperHex r.base.toNat ++ ascii " | Length: 0x" ++
    upperHex r.length.toNat ++ ascii " | Type: " ++ ascii r.typeStr ++
    ascii " (0x" ++ upperHex r.memType.toNat ++ ascii ")"

theorem Region.lines_eq (r : Region) : r.lines =
    [r.line, ascii "----------------------------------", []] := rfl

/-- A region with the text that `_kboot` chooses for its type. -/
def Region.Named (r : Region) : Prop :=
  r.typeStr = Boot.typeStr r.memType

theorem named_of_region {info : BootInfo} {i : Nat} {r : Region}
    (hr : info.region i = some r) : r.Named := by
  rw [region_eq] at hr
  obtain ⟨entry, -, rfl⟩ := Option.map_eq_some_iff.1 hr
  rfl

theorem named_of_mem {info : BootInfo} {r : Region}
    (hr : r ∈ info.shownRegions) : r.Named := by
  obtain ⟨i, -, hi⟩ := List.mem_filterMap.1 hr
  exact named_of_region hi

theorem not_mem_typeStr (memType : UInt32) :
    0x28 ∉ ascii (typeStr memType) ++ [0x20] := by
  have hall : ∀ text : List UInt8, text.all (· ≠ 0x28) = true →
      (0x28 : UInt8) ∉ text := fun text h hmem =>
    of_decide_eq_true (List.all_eq_true.1 h _ hmem) rfl
  unfold typeStr
  split <;> exact hall _ (by decide)

theorem line_inj {r r' : Region} (hr : r.Named) (hr' : r'.Named)
    (hline : r.line = r'.line) : r = r' := by
  simp only [Region.line, List.append_assoc] at hline
  obtain ⟨hindex, hrest⟩ := radix_field (by decide) (by decide)
    (c := 0x5D) (by decide) (List.append_cancel_left hline)
  obtain ⟨hbase, hrest⟩ := radix_field (by decide) (by decide)
    (c := 0x20) (by decide)
    (@List.append_cancel_left _ (ascii ": Base: 0x") _ _ hrest)
  obtain ⟨hlength, hrest⟩ := radix_field (by decide) (by decide)
    (c := 0x20) (by decide)
    (@List.append_cancel_left _ (ascii "| Length: 0x") _ _ hrest)
  have htype : (ascii r.typeStr ++ [0x20]) ++ 0x28 :: (ascii "0x" ++
      (upperHex r.memType.toNat ++ ascii ")")) =
      (ascii r'.typeStr ++ [0x20]) ++ 0x28 :: (ascii "0x" ++
        (upperHex r'.memType.toNat ++ ascii ")")) := by
    rw [List.append_assoc, List.append_assoc]
    exact @List.append_cancel_left _ (ascii "| Type: ") _ _ hrest
  have hfree : ∀ q : Region, q.Named → 0x28 ∉ ascii q.typeStr ++ [0x20] := by
    intro q hq
    rw [hq]
    exact not_mem_typeStr q.memType
  obtain ⟨-, hlast⟩ := field_inj (hfree r hr) (hfree r' hr') htype
  obtain ⟨hmem, -⟩ := radix_field (by decide) (by decide)
    (c := 0x29) (by decide) (List.append_cancel_left hlast)
  have hmem' := UInt32.toNat_inj.1 hmem
  cases r with
  | mk i base length text memType =>
      cases r' with
      | mk i' base' length' text' memType' =>
          obtain rfl := hindex
          obtain rfl := UInt64.toNat_inj.1 hbase
          obtain rfl := UInt64.toNat_inj.1 hlength
          obtain rfl := hmem'
          obtain rfl := hr.trans hr'.symm
          rfl

theorem regions_inj {rs rs' : List Region} (hrs : ∀ r ∈ rs, r.Named)
    (hrs' : ∀ r ∈ rs', r.Named)
    (h : rs.flatMap Region.lines = rs'.flatMap Region.lines) : rs = rs' := by
  induction rs generalizing rs' with
  | nil =>
      cases rs' with
      | nil => rfl
      | cons r' rs' => exact nomatch h
  | cons r rs ih =>
      cases rs' with
      | nil => exact nomatch h
      | cons r' rs' =>
          rw [List.flatMap_cons, List.flatMap_cons, Region.lines_eq,
            Region.lines_eq] at h
          obtain ⟨hlines, hrest⟩ := List.append_inj h rfl
          rw [line_inj (hrs r List.mem_cons_self)
            (hrs' r' List.mem_cons_self) (List.cons.inj hlines).1,
            ih (fun q hq => hrs q (List.mem_cons_of_mem r hq))
              (fun q hq => hrs' q (List.mem_cons_of_mem r' hq)) hrest]

/-- The report says all of the `BootInfo` that it names: two reports are the
same text if and only if drive, mode, framebuffer and count are the same, and
every region that is printed, with its place, its length and its type. -/
theorem report_eq_iff {a b : BootInfo} : reportText a = reportText b ↔
    a.bootDrive = b.bootDrive ∧ a.screenWidth = b.screenWidth ∧
      a.screenHeight = b.screenHeight ∧ a.bpp = b.bpp ∧
      a.framebufferAddr = b.framebufferAddr ∧
      a.memoryMapCount = b.memoryMapCount ∧
      a.shownRegions = b.shownRegions := by
  refine ⟨?_, ?_⟩
  · intro h
    have hlines := lines_of_reportText h
    rw [reportLines, reportLines] at hlines
    obtain ⟨hheader, hregions⟩ := List.append_inj hlines rfl
    simp only [headerLines, List.cons.injEq, true_and, and_true] at hheader
    obtain ⟨hdrive, hsize, haddr, hcount⟩ := hheader
    obtain ⟨hwidth, hheight, hbpp⟩ := screenSize_inj hsize
    have hregions' := regions_inj (fun r hr => named_of_mem hr)
      (fun r hr => named_of_mem hr) (List.cons.inj hregions).2
    refine ⟨?_, UInt16.toNat_inj.1 hwidth, UInt16.toNat_inj.1 hheight,
      UInt8.toNat_inj.1 hbpp, ?_, ?_, hregions'⟩
    · exact UInt8.toNat_inj.1 (radix_inj (by decide) (by decide)
        (List.append_cancel_left hdrive))
    · exact UInt32.toNat_inj.1 (radix_inj (by decide) (by decide)
        (List.append_cancel_left haddr))
    · exact UInt16.toNat_inj.1 (radix_inj (by decide) (by decide)
        (List.append_cancel_left hcount))
  · rintro ⟨hdrive, hwidth, hheight, hbpp, haddr, hcount, hregions⟩
    rw [reportText, reportText, reportLines, reportLines, headerLines,
      headerLines, hdrive, hwidth, hheight, hbpp, haddr, hcount, hregions]

end TermOS.Boot
