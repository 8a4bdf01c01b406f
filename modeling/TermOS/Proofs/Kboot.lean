import TermOS.Proofs.FramebufferText
import TermOS.Ref.Kboot

/-!
# What the loader shows

The report of `_kboot` has no carriage returns, so what it leaves on the screen
is the layout of its text. Then the loop at the end counts: nothing is drawn but
the cursor, and that once in two hundred million rounds, off and on in turns.
The first time that the cursor is drawn it is drawn off.
-/

namespace TermOS.Boot

open TermOS.Lib
open TermOS.Lib.MemOp

variable {info : BootInfo} {m m₀ : UInt32 → UInt8}

/-! ## The text -/

/-- A text without control characters. -/
def Plain (text : List UInt8) : Prop := ∀ ch ∈ text, 0x20 ≤ ch

theorem plain_of_all {text : List UInt8}
    (h : text.all (0x20 ≤ ·) = true) : Plain text := fun ch hch =>
  of_decide_eq_true (List.all_eq_true.1 h ch hch)

theorem Plain.not_mem {text : List UInt8} (h : Plain text) {ch : UInt8}
    (hch : ch < 0x20) : ch ∉ text := fun hmem =>
  absurd (h ch hmem) (UInt8.not_le.2 hch)

theorem Plain.append {text more : List UInt8} (h : Plain text)
    (hmore : Plain more) : Plain (text ++ more) :=
  List.forall_mem_append.2 ⟨h, hmore⟩

theorem plain_radix {base : Nat} (hlo : 2 ≤ base) (hhi : base ≤ 16) (n : Nat) :
    Plain (radix base n) := by
  have hdigit : ∀ d < 16, 0x20 ≤ radixDigit d := by decide
  intro ch hch
  rw [radix] at hch
  split at hch
  · rw [List.mem_singleton.1 hch]
    decide
  · obtain ⟨d, hd, rfl⟩ := List.mem_map.1 hch
    have hlt := Nat.digits_lt_base hlo (List.mem_reverse.1 hd)
    exact hdigit d (by omega)

theorem plain_display (n : Nat) : Plain (display n) :=
  plain_radix (by decide) (by decide) n

theorem plain_upperHex (n : Nat) : Plain (upperHex n) :=
  plain_radix (by decide) (by decide) n

theorem plain_headerLines (info : BootInfo) :
    ∀ line ∈ headerLines info, Plain line := by
  rw [headerLines]
  simp only [List.forall_mem_cons]
  refine ⟨plain_of_all (by decide), plain_of_all (by decide),
    (plain_of_all (by decide)).append (plain_upperHex _), ?_,
    (plain_of_all (by decide)).append (plain_upperHex _),
    (plain_of_all (by decide)).append (plain_display _),
    plain_of_all (by decide), fun _ h => absurd h List.not_mem_nil⟩
  exact ((((((plain_of_all (by decide)).append (plain_display _)).append
    (plain_of_all (by decide))).append (plain_display _)).append
    (plain_of_all (by decide))).append (plain_display _)).append
    (plain_of_all (by decide))

theorem plain_typeStr (memType : UInt32) : Plain (ascii (typeStr memType)) := by
  unfold typeStr
  split <;> exact plain_of_all (by decide)

theorem region_eq (info : BootInfo) (i : Nat) : info.region i =
    (info.memoryMap[i]?).map fun entry =>
      ⟨i, entry.baseAddress, entry.length, typeStr entry.entryType,
        entry.entryType⟩ := by
  rw [BootInfo.region]
  cases info.memoryMap[i]? <;> rfl

theorem region_isSome_iff (info : BootInfo) (i : Nat) :
    (info.region i).isSome ↔ i < 32 := by
  rw [region_eq, Option.isSome_map]
  exact Iff.of_eq (isSome_getElem? info.memoryMap i)

theorem plain_lines {i : Nat} {r : Region} (hr : info.region i = some r) :
    ∀ line ∈ r.lines, Plain line := by
  have htype : Plain (ascii r.typeStr) := by
    rw [region_eq] at hr
    obtain ⟨entry, -, rfl⟩ := Option.map_eq_some_iff.1 hr
    exact plain_typeStr _
  rw [Region.lines]
  simp only [List.forall_mem_cons]
  refine ⟨?_, plain_of_all (by decide), plain_of_all (by decide),
    fun _ h => absurd h List.not_mem_nil⟩
  exact ((((((((((plain_of_all (by decide)).append (plain_display _)).append
    (plain_of_all (by decide))).append (plain_upperHex _)).append
    (plain_of_all (by decide))).append (plain_upperHex _)).append
    (plain_of_all (by decide))).append htype).append
    (plain_of_all (by decide))).append (plain_upperHex _)).append
    (plain_of_all (by decide))

/-- The regions that are printed before the loop ends, or panics. -/
def BootInfo.shownRegions (info : BootInfo) : List Region :=
  (List.range info.memoryMapCount.toNat).filterMap info.region

/-- All lines of the report. -/
def reportLines (info : BootInfo) : List (List UInt8) :=
  headerLines info ++ ascii "kernel_shell " ::
    info.shownRegions.flatMap Region.lines

def reportText (info : BootInfo) : List UInt8 :=
  (reportLines info).flatMap (· ++ [0x0A])

theorem plain_reportLines (info : BootInfo) :
    ∀ line ∈ reportLines info, Plain line := by
  rw [reportLines, List.forall_mem_append, List.forall_mem_cons]
  refine ⟨plain_headerLines info, plain_of_all (by decide), ?_⟩
  intro line hline
  obtain ⟨r, hr, hmem⟩ := List.mem_flatMap.1 hline
  obtain ⟨i, -, hi⟩ := List.mem_filterMap.1 hr
  exact plain_lines hi line hmem

/-- No carriage returns. -/
theorem ne_of_mem_reportText {ch : UInt8} (hch : ch ∈ reportText info) :
    ch ≠ 0x0D := by
  obtain ⟨line, hline, hmem⟩ := List.mem_flatMap.1 hch
  rcases List.mem_append.1 hmem with htext | hnewline
  · rintro rfl
    exact (plain_reportLines info line hline).not_mem (by decide) htext
  · rw [List.mem_singleton.1 hnewline]
    decide

/-! ## The calls -/

theorem text_kprintln (lines : List (List UInt8)) :
    (lines.flatMap kprintln).flatMap WriteCall.text =
      lines.flatMap (· ++ [0x0A]) := by
  rw [List.flatMap_assoc]
  refine List.flatMap_congr fun line _ => ?_
  show line ++ ([0x0A] ++ []) = _
  rw [List.append_nil]

theorem regionCalls_append {a : List Nat} (ha : ∀ i ∈ a, i < 32)
    (b : List Nat) :
    regionCalls info (a ++ b) =
      (((a.filterMap info.region).flatMap Region.lines).flatMap kprintln ++
        (regionCalls info b).1, (regionCalls info b).2) := by
  induction a with
  | nil => rfl
  | cons i a ih =>
      obtain ⟨r, hr⟩ := Option.isSome_iff_exists.1
        ((region_isSome_iff info i).2 (ha i List.mem_cons_self))
      rw [List.cons_append, regionCalls, hr]
      simp only
      rw [ih fun j hj => ha j (List.mem_cons_of_mem i hj),
        List.filterMap_cons_some hr, List.flatMap_cons, List.flatMap_append,
        List.append_assoc]

/-- The loop prints what there is, and panics if it is asked for more. -/
theorem regionCalls_eq (info : BootInfo) :
    regionCalls info (List.range info.memoryMapCount.toNat) =
      ((info.shownRegions.flatMap Region.lines).flatMap kprintln,
        decide (info.memoryMapCount.toNat ≤ 32)) := by
  by_cases hle : info.memoryMapCount.toNat ≤ 32
  · have hall := @regionCalls_append info
      (List.range info.memoryMapCount.toNat)
      (fun i hi => Nat.lt_of_lt_of_le (List.mem_range.1 hi) hle) []
    rw [List.append_nil] at hall
    rw [hall, decide_eq_true hle]
    exact congrArg (·, true) (List.append_nil _)
  · obtain ⟨n, hn⟩ : ∃ n, info.memoryMapCount.toNat = 32 + (n + 1) :=
      ⟨info.memoryMapCount.toNat - 33, by omega⟩
    have hbeyond : ∀ i, 32 ≤ i → info.region i = none := by
      intro i hi
      rw [← Option.not_isSome_iff_eq_none, region_isSome_iff]
      omega
    have hrest : ((List.range (n + 1)).map (32 + ·)).filterMap info.region =
        [] := by
      rw [List.filterMap_eq_nil_iff]
      intro i hi
      obtain ⟨j, -, rfl⟩ := List.mem_map.1 hi
      exact hbeyond _ (by omega)
    have hpanic : regionCalls info ((List.range (n + 1)).map (32 + ·)) =
        ([], false) := by
      rw [List.range_succ_eq_map, List.map_cons, regionCalls,
        hbeyond _ (by omega)]
    rw [BootInfo.shownRegions, hn, List.range_add,
      regionCalls_append fun i hi => List.mem_range.1 hi, hpanic,
      List.filterMap_append, hrest, List.append_nil, List.append_nil,
      decide_eq_false (by omega)]

theorem text_kbootCalls (info : BootInfo) :
    (kbootCalls info).1.flatMap WriteCall.text = reportText info := by
  rw [kbootCalls, regionCalls_eq]
  simp only
  rw [List.flatMap_append, List.flatMap_cons, text_kprintln, text_kprintln,
    reportText, reportLines, List.flatMap_append, List.flatMap_cons]
  rfl

/-- The cursor is left where no line follows the one with the cursor. -/
theorem leavesCursor_kprintln (lines : List (List UInt8)) (before : Bool) :
    (lines.flatMap kprintln).foldl WriteCall.leavesCursor before =
      (before && lines.isEmpty) := by
  induction lines generalizing before with
  | nil => exact (Bool.and_true before).symm
  | cons line lines ih =>
      rw [List.flatMap_cons, List.foldl_append, ih]
      show (false && lines.isEmpty) = (before && false)
      rw [Bool.false_and, Bool.and_false]

theorem leavesCursor_kbootCalls (info : BootInfo) :
    (kbootCalls info).1.foldl WriteCall.leavesCursor false =
      (info.memoryMapCount == 0) := by
  rw [kbootCalls, regionCalls_eq]
  simp only
  rw [List.foldl_append, List.foldl_cons, leavesCursor_kprintln]
  show (true && (info.shownRegions.flatMap Region.lines).isEmpty) = _
  rw [Bool.true_and]
  by_cases hzero : info.memoryMapCount = 0
  · rw [BootInfo.shownRegions, hzero]
    rfl
  · have hpos : 0 < info.memoryMapCount.toNat :=
      Nat.pos_of_ne_zero fun h => hzero (UInt16.toNat_inj.1 h)
    obtain ⟨r, hr⟩ := Option.isSome_iff_exists.1
      ((region_isSome_iff info 0).2 (by decide))
    have hmem : r ∈ info.shownRegions :=
      List.mem_filterMap.2 ⟨0, List.mem_range.2 hpos, hr⟩
    have hline : ([] : List UInt8) ∈
        info.shownRegions.flatMap Region.lines :=
      List.mem_flatMap.2 ⟨r, hmem, by rw [Region.lines]; simp⟩
    rw [beq_eq_false_iff_ne.2 hzero, List.isEmpty_eq_false_iff]
    exact List.ne_nil_of_mem hline

theorem kbootCalls_snd (info : BootInfo) :
    (kbootCalls info).2 = decide (info.memoryMapCount.toNat ≤ 32) := by
  rw [kbootCalls, regionCalls_eq]

/-! ## The loop at the end -/

/-- Rounds between two strokes of the cursor. -/
def strokeRounds : Nat := 200000000

/-- Whether the cursor is to be seen after so many rounds. -/
def strokeMark (marked : Bool) (rounds : Nat) : Bool :=
  if rounds / strokeRounds = 0 then marked
  else decide (rounds / strokeRounds % 2 = 0)

theorem stroke_of_le {rounds : Nat}
    (h : strokeRounds ≤ rounds % strokeRounds + 1) :
    (rounds + 1) / strokeRounds = rounds / strokeRounds + 1 ∧
      (rounds + 1) % strokeRounds = 0 := by
  rw [strokeRounds] at h ⊢
  omega

theorem stroke_of_lt {rounds : Nat}
    (h : ¬ strokeRounds ≤ rounds % strokeRounds + 1) :
    (rounds + 1) / strokeRounds = rounds / strokeRounds ∧
      (rounds + 1) % strokeRounds = rounds % strokeRounds + 1 := by
  rw [strokeRounds] at h ⊢
  omega

namespace FramebufferConsole

variable {c₀ : FramebufferConsole} {s : CellScreen} {marked : Bool}

/-- The state of the loop after so many rounds, and what is displayed. -/
structure Idles (c₀ : FramebufferConsole) (m₀ : UInt32 → UInt8)
    (s : CellScreen) (marked : Bool) (rounds : Nat)
    (r : TickingConsole × List Event) (m : UInt32 → UInt8) : Prop where
  ticks : r.1.cursorTicks = UInt32.ofNat (rounds % strokeRounds)
  console : r.1.console =
    c₀.onCell s (decide (rounds / strokeRounds % 2 = 0))
  displays : c₀.Displays m₀
    (s.mark (c₀.cursorCell (strokeMark marked rounds))).cell
    (run m (accesses r.2))

theorem mark_mark (s : CellScreen) (a b : Option UInt8) :
    ((s.mark a).mark b).cell = (s.mark b).cell := by
  funext i j
  show (if i = s.row ∧ j = s.col then b
    else if i = s.row ∧ j = s.col then a else s.cell i j) =
    if i = s.row ∧ j = s.col then b else s.cell i j
  split <;> rfl

theorem Idles.updateCursor (h : c₀.bootInfo.HasRoom)
    (hon : s.OnScreen c₀.bootInfo.columns c₀.bootInfo.rows)
    {rounds : Nat}
    {r : TickingConsole × List Event} (hr : c₀.Idles m₀ s marked rounds r m) :
    c₀.Idles m₀ s marked (rounds + 1)
      (r.1.updateCursor.1, r.2 ++ r.1.updateCursor.2) m := by
  have hmod := Nat.mod_lt rounds (show 0 < strokeRounds by decide)
  have hstroke : strokeRounds = 200000000 := rfl
  have hnext : r.1.cursorTicks + 1 =
      UInt32.ofNat (rounds % strokeRounds + 1) := by
    rw [hr.ticks, UInt32.ofNat_add]
    rfl
  have htest : UInt32.ofNat (rounds % strokeRounds + 1) ≥ 200000000 ↔
      strokeRounds ≤ rounds % strokeRounds + 1 := by
    rw [ge_iff_le, UInt32.le_iff_toNat_le, UInt32.toNat_ofNat',
      Nat.mod_eq_of_lt (by omega)]
    rfl
  rw [TickingConsole.updateCursor, hnext]
  by_cases hfull : strokeRounds ≤ rounds % strokeRounds + 1
  · obtain ⟨hdiv, hrem⟩ := stroke_of_le hfull
    have hvisible : (!decide (rounds / strokeRounds % 2 = 0)) =
        decide ((rounds + 1) / strokeRounds % 2 = 0) := by
      rw [hdiv, ← decide_not]
      exact decide_eq_decide.2 (by omega)
    have hconsole : ({ r.1.console with
        cursorVisible := !r.1.console.cursorVisible } : FramebufferConsole) =
        c₀.onCell s (decide ((rounds + 1) / strokeRounds % 2 = 0)) := by
      rw [hr.console, ← hvisible]
      rfl
    have hmark : strokeMark marked (rounds + 1) =
        decide ((rounds + 1) / strokeRounds % 2 = 0) := by
      rw [strokeMark, if_neg]
      rw [hdiv]
      exact Nat.succ_ne_zero _
    rw [if_pos (htest.2 hfull)]
    refine ⟨?_, hconsole, ?_⟩
    · rw [hrem]
      rfl
    · have hdraw := displays_renderCursor h hr.displays
        (s := s.mark (c₀.cursorCell (strokeMark marked rounds))) (hon.mark _)
        (decide ((rounds + 1) / strokeRounds % 2 = 0))
      rw [mark_mark] at hdraw
      show c₀.Displays m₀ _ (run m (accesses (r.2 ++ .value _ ::
        ({ r.1.console with cursorVisible := !r.1.console.cursorVisible } :
          FramebufferConsole).renderCursor)))
      rw [hconsole, accesses_append, run_append, hmark]
      exact hdraw
  · obtain ⟨hdiv, hrem⟩ := stroke_of_lt hfull
    rw [if_neg fun hge => hfull (htest.1 hge)]
    refine ⟨?_, ?_, ?_⟩
    · exact congrArg UInt32.ofNat hrem.symm
    · rw [hdiv]
      exact hr.console
    · show c₀.Displays m₀ _ (run m (accesses (r.2 ++ [.value _])))
      rw [accesses_append, strokeMark, hdiv]
      show c₀.Displays m₀ _ (run m (accesses r.2 ++ []))
      rw [List.append_nil]
      exact hr.displays

theorem idles_idle (h : c₀.bootInfo.HasRoom)
    (hon : s.OnScreen c₀.bootInfo.columns c₀.bootInfo.rows)
    (hs : c₀.Displays m₀ (s.mark (c₀.cursorCell marked)).cell m)
    (rounds : Nat) :
    c₀.Idles m₀ s marked rounds
      (TickingConsole.idle ⟨c₀.onCell s true, 0⟩ rounds) m := by
  induction rounds with
  | zero => exact ⟨rfl, rfl, hs⟩
  | succ rounds ih => exact ih.updateCursor h hon

end FramebufferConsole

/-- Whether `>` is to be seen when `_kboot` has gone so many rounds: until the
first stroke, only if no region has been printed. A panic has no rounds. -/
def BootInfo.kbootMarked (info : BootInfo) (rounds : Nat) : Bool :=
  strokeMark (info.memoryMapCount == 0)
    (if info.memoryMapCount.toNat ≤ 32 then rounds else 0)

open FramebufferConsole in
/-- Whatever was on the screen and is in the `BootInfo`: `_kboot` shows the last
rows of its report, laid out in the columns of the screen, and for ever after
nothing changes but the cell of the cursor. Nothing outside of the framebuffer
is written. -/
theorem kboot_shows_report {info : BootInfo} (h : info.TextMode)
    (fontData : Vector UInt8 4096) (rounds : Nat) (m : UInt32 → UInt8) :
    (new info fontData).Displays m
      (markedCell info (reportText info)
        ((new info fontData).cursorCell (info.kbootMarked rounds)))
      (run m (accesses (kboot info fontData rounds).2)) := by
  have hplain : ∀ ch ∈ (kbootCalls info).1.flatMap WriteCall.text,
      ch ≠ 0x0D := by
    rw [text_kbootCalls]
    exact fun ch hch => ne_of_mem_reportText hch
  have hdraws := draws_session h fontData (kbootCalls info).1 m
  have hshows := showsText_performAll
    (showsText_empty (c := new info fontData) h.toHasRoom) hplain
  rw [leavesCursor_kbootCalls, List.nil_append, text_kbootCalls] at hshows
  have hreport := hshows.displays_iff.1 hdraws.displays
  rw [kboot, kbootCalls_snd, BootInfo.kbootMarked]
  by_cases hle : info.memoryMapCount.toNat ≤ 32
  · have hidle := idles_idle h.toHasRoom
      (TextScreen.ShowsText.onScreen hshows h.rows_pos)
      ((showsText_mark hshows _).displays_iff.2 hreport) rounds
    rw [decide_eq_true hle, if_pos rfl, if_pos hle, accesses_append,
      run_append, hdraws.console]
    exact (showsText_mark hshows _).displays_iff.1 hidle.displays
  · rw [decide_eq_false hle, if_neg Bool.false_ne_true, if_neg hle]
    exact hreport

open FramebufferConsole in
/-- With the cursor gone after the first stroke. -/
theorem kboot_shows_report_bigScreen :
    (new bigScreen (Vector.replicate 4096 0xFF)).Displays (fun _ => 0)
      (markedCell bigScreen (reportText bigScreen) none)
      (run (fun _ => 0) (accesses
        (kboot bigScreen (Vector.replicate 4096 0xFF) 200000001).2)) :=
  kboot_shows_report textMode_bigScreen (Vector.replicate 4096 0xFF) 200000001
    fun _ => 0

end TermOS.Boot
