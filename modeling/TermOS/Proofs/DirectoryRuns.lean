import TermOS.Proofs.Directory
import TermOS.Ref.Fat32Text

/-!
# A directory over a run of commands

`touch`, `mkdir` and `rm` on the disk are what they are on the sixteen entries
of the current directory, also where that directory is a sector of the FAT: a
`mkdir` that succeeds writes the directory last, as it was read before the word
of its cluster was marked. Only the `mkdir` that fails for want of a slot may
leave the mark in an entry. So what the commands keep of a directory, a run of
them keeps, but for that mark.

`fat32_ls` stops at the first entry that begins with a zero, and
`fat32_find_file` looks at all sixteen. They agree on a directory without
holes, and no command makes one. `mkdir` looks before it makes an entry, and
`touch` does not: but for the mark in an entry it is what can leave two entries
that answer to one name.
-/

namespace TermOS.Storage

open TermOS.Lib

/-- The commands that stay in the current directory. -/
def Op.InPlace : Op → Prop
  | .cd _ => False
  | _ => True

namespace Fs

variable {fs fs' : Fs} {g : Shape} {name : Str} {uninit : Sector} {op : Op}

/-- The entries of the current directory. -/
def entries (fs : Fs) : Dir :=
  dirEntry (fs.diskMgr.sectors 1 (fs.getSectorByCluster fs.currentDirCluster))

/-- A step in the current directory. -/
def StepInPlace : Fs → Op → Fs → Prop :=
  Trace.Along Step fun _ op _ => op.InPlace

theorem findFile_entries (h : fs.Ready) (name : Str) :
    fs.findFile name = (fs.entries.lookup name).map fs.entries := by
  simp only [findFile, read_ready h]
  rfl

theorem findFile_eq_none (h : fs.Ready) :
    fs.findFile name = none ↔ fs.entries.lookup name = none := by
  rw [findFile_entries h, Option.map_eq_none_iff]

/-! ## The commands on the entries -/

theorem entries_put_self (s : Sector) :
    (fs.put (fs.getSectorByCluster fs.currentDirCluster) s).entries =
      dirEntry s := by
  simp [entries, put, getSectorByCluster]

theorem entries_put_of_ne {lba : UInt32} (s : Sector)
    (h : lba ≠ fs.getSectorByCluster fs.currentDirCluster) :
    (fs.put lba s).entries = fs.entries := by
  have hne := Ne.symm h
  simp only [getSectorByCluster] at hne
  simp [entries, put, getSectorByCluster, hne]

theorem entries_touch (h : fs.Ready) :
    (fs.touch name uninit).entries = fs.entries.touch name := by
  simp only [touch, read_ready h, write_ready h, Option.getD_some]
  rw [Dir.touch, Dir.free, ← entries]
  cases firstSlot fun i => (fs.entries i).isFree with
  | none => rfl
  | some i =>
      simp only [Option.elim_some]
      rw [entries_put_self, dirEntry_setDirEntry]
      rfl

theorem entries_rm (h : fs.Ready) :
    (fs.rm name uninit).entries = fs.entries.rm name := by
  simp only [rm, read_ready h, write_ready h, Option.getD_some]
  rw [Dir.rm, Dir.matching, ← entries]
  cases firstSlot fun i => fatNameMatch name (fs.entries i).name with
  | none => rfl
  | some i =>
      simp only [Option.elim_some]
      rw [entries_put_self, dirEntry_setDirEntry]
      rfl

/-- A `mkdir` takes a cluster whose word is in the directory itself, and has no
slot for its entry: the mark stays. -/
def Scars (fs : Fs) (name : Str) : Prop :=
  fs.Takes name ∧ fs.freeSlot = none ∧
    fs.fatSector fs.findFreeCluster =
      fs.getSectorByCluster fs.currentDirCluster ∧
    fs.getSectorByCluster fs.findFreeCluster ≠
      fs.getSectorByCluster fs.currentDirCluster

/-- The directory with the mark. -/
def scarred (fs : Fs) : Sector :=
  setFatWord fs.currentSector (fatOffset fs.findFreeCluster) 0x0FFFFFFF

theorem entries_mkdir_of_scars (h : fs.Scars name) :
    (fs.mkdir name uninit).entries = dirEntry fs.scarred := by
  obtain ⟨htakes, hfull, hfat, hne⟩ := h
  rcases mkdir_outcomes fs name uninit with ⟨hnot, -⟩ |
    ⟨-, ⟨-, m, heq⟩ | ⟨i, hi, -⟩⟩
  · exact absurd htakes hnot
  · have hmark : (fs.updateFat uninit fs.findFreeCluster 0x0FFFFFFF).entries =
        dirEntry fs.scarred := by
      rw [updateFat_ready htakes.1, hfat, entries_put_self]
      rfl
    have hmade : (fs.made uninit).entries = dirEntry fs.scarred := by
      rw [made, ← hmark]
      refine entries_put_of_ne _ ?_
      rwa [(samePlace_updateFat uninit _ _).sector,
        (samePlace_updateFat uninit _ _).cluster]
    rw [heq]
    exact hmade
  · rw [hfull] at hi
    cases hi

/-- Otherwise the first two writes leave a full directory as it is, or make it
one that has just been made. -/
theorem entries_made (htakes : fs.Takes name) (hfull : fs.freeSlot = none)
    (hscars : ¬ fs.Scars name) :
    (fs.made uninit).entries = fs.entries ∨
      ∃ new parent, (fs.made uninit).entries =
        dirEntry (dotEntries new parent) := by
  have hplace : fs.SamePlace (fs.updateFat uninit fs.findFreeCluster 0x0FFFFFFF) :=
    samePlace_updateFat uninit _ _
  by_cases hsame : fs.getSectorByCluster fs.findFreeCluster =
      fs.getSectorByCluster fs.currentDirCluster
  · refine .inr ⟨fs.findFreeCluster, dotdotOf fs.currentDirCluster, ?_⟩
    rw [made, hsame, ← hplace.sector, ← hplace.cluster, entries_put_self]
  · have hfat : fs.fatSector fs.findFreeCluster ≠
        fs.getSectorByCluster fs.currentDirCluster :=
      fun hfat => hscars ⟨htakes, hfull, hfat, hsame⟩
    left
    rw [made, entries_put_of_ne _ (by rwa [hplace.sector, hplace.cluster]),
      updateFat_ready htakes.1]
    exact entries_put_of_ne _ hfat

theorem entries_mkdir (hscars : ¬ fs.Scars name) :
    fs.entries.Mkdir name (fs.mkdir name uninit).entries := by
  rcases mkdir_outcomes fs name uninit with ⟨-, m, heq⟩ |
    ⟨htakes, ⟨hnone, m, heq⟩ | ⟨i, hi, heq⟩⟩ <;> rw [heq]
  · exact .inl rfl
  · rcases entries_made htakes hnone hscars with hkept | hnew
    · exact .inl hkept
    · exact .inr (.inr hnew)
  · have hplace : fs.SamePlace (fs.made uninit) := samePlace_made uninit
    have hput : ∀ s, ((fs.made uninit).put (fs.getSectorByCluster
        fs.currentDirCluster) s).entries = dirEntry s := by
      intro s
      rw [← hplace.sector, ← hplace.cluster]
      exact entries_put_self s
    refine .inr (.inl ⟨(findFile_eq_none htakes.1).1 htakes.2.1, i,
      fs.findFreeCluster, hi, ?_⟩)
    rw [hput, dirEntry_setDirEntry]
    rfl

/-- The entry with the mark in it. -/
def scarredSlot (fs : Fs) : Fin 16 :=
  ⟨(fatOffset fs.findFreeCluster).val / 8,
    Nat.div_lt_of_lt_mul (fatOffset fs.findFreeCluster).isLt⟩

theorem dirEntry_scarred (fs : Fs) : dirEntry fs.scarred =
    Function.update fs.entries fs.scarredSlot
      (dirEntry fs.scarred fs.scarredSlot) := by
  funext j
  by_cases hj : j = fs.scarredSlot
  · rw [hj, Function.update_self]
  · rw [Function.update_of_ne hj]
    exact dirEntry_setFatWord_of_ne _ (fun h => hj (Fin.ext h.symm)) _

theorem entries_not_ready (h : ¬ fs.Ready) (hop : op.InPlace) :
    (fs.perform op).entries = fs.entries := by
  cases op with
  | cd path => exact hop.elim
  | mkdir name uninit =>
      rw [perform, mkdir_not_ready h]
      rfl
  | touch name uninit =>
      simp only [perform, touch, write_not_ready h]
      split <;> rfl
  | rm filename uninit =>
      simp only [perform, rm, write_not_ready h]
      split <;> rfl

theorem samePlace_stepInPlace (h : fs.StepInPlace op fs') :
    fs.SamePlace fs' := by
  obtain ⟨hstep, hop⟩ := h
  obtain rfl : fs' = fs.perform op := hstep
  cases op with
  | cd path => exact hop.elim
  | mkdir name uninit => exact samePlace_mkdir name uninit
  | touch name uninit => exact samePlace_touch name uninit
  | rm filename uninit => exact samePlace_rm filename uninit

/-! ## What is listed is what is found -/

/-- A mark begins with a byte that is not zero, and was made in a directory
without a free entry. -/
theorem noHoles_scarred (h : fs.Scars name) : Dir.NoHoles (dirEntry fs.scarred) := by
  intro i j _ hzero
  have hused : ¬ (dirEntry fs.currentSector i).isFree = true :=
    firstSlot_none h.2.1 i
  rw [scarred, firstByte_setFatWord] at hzero
  split at hzero
  · exact absurd hzero (by decide)
  · rw [DirEntry.isFree, hzero] at hused
    exact absurd rfl hused

theorem noHoles_stepInPlace (hholes : fs.entries.NoHoles)
    (h : fs.StepInPlace op fs') : fs'.entries.NoHoles := by
  obtain ⟨hstep, hop⟩ := h
  obtain rfl : fs' = fs.perform op := hstep
  by_cases hready : fs.Ready
  · cases op with
    | cd path => exact hop.elim
    | mkdir name uninit =>
        by_cases hscars : fs.Scars name
        · rw [perform, entries_mkdir_of_scars hscars]
          exact noHoles_scarred hscars
        · exact hholes.mkdir (entries_mkdir hscars)
    | touch name uninit =>
        rw [perform, entries_touch hready]
        exact hholes.touch
    | rm filename uninit =>
        rw [perform, entries_rm hready]
        exact hholes.rm
  · rwa [entries_not_ready hready hop]

end Fs

theorem mem_takeWhile_ofFn {α : Type*} {n : Nat} {f : Fin n → α}
    {p : α → Bool} {x : α} :
    x ∈ (List.ofFn f).takeWhile p ↔ ∃ i, f i = x ∧ ∀ j ≤ i, p (f j) = true := by
  induction n with
  | zero => simp
  | succ n ih =>
      rw [List.ofFn_succ, List.takeWhile_cons]
      cases hp : p (f 0) with
      | false =>
          simp only [Bool.false_eq_true, if_false, List.not_mem_nil, false_iff,
            not_exists]
          intro i hi
          have h0 := hi.2 0 (Fin.zero_le i)
          rw [hp] at h0
          cases h0
      | true =>
          simp only [if_true, List.mem_cons, ih, Fin.exists_fin_succ,
            Fin.forall_fin_succ, hp, Fin.succ_le_succ_iff, Fin.zero_le,
            Fin.le_zero_iff, Fin.succ_ne_zero, eq_comm (a := x), true_and,
            false_implies, implies_true, and_true]

namespace Fs

variable {fs fs' : Fs} {name : Str} {uninit : Sector} {ops : List Op}

/-- `fat32_ls` shows what is in use in front of the first zero. -/
theorem mem_shown {buffer : Sector} {e : DirEntry} :
    e ∈ shown buffer ↔ ∃ i, dirEntry buffer i = e ∧ e.isFree = false ∧
      ∀ j < i, firstByte (dirEntry buffer j).name ≠ 0 := by
  rw [shown, List.mem_filter, ← List.ofFn_eq_map, mem_takeWhile_ofFn]
  refine ⟨?_, ?_⟩
  · intro h
    obtain ⟨⟨i, rfl, hi⟩, hremoved⟩ := h
    have hne : ∀ j ≤ i, firstByte (dirEntry buffer j).name ≠ 0 :=
      fun j hj => of_decide_eq_true (hi j hj)
    refine ⟨i, rfl, ?_, fun j hj => hne j (Nat.le_of_lt hj)⟩
    have hzero := hne i (Nat.le_refl _)
    simp only [decide_eq_true_iff] at hremoved
    simp [DirEntry.isFree, hzero, hremoved]
  · intro h
    obtain ⟨i, rfl, hused, hi⟩ := h
    simp only [DirEntry.isFree, Bool.or_eq_false_iff, beq_eq_false_iff_ne] at hused
    refine ⟨⟨i, rfl, fun j hj => decide_eq_true ?_⟩, decide_eq_true hused.2⟩
    rcases Nat.lt_or_eq_of_le hj with hlt | heq
    · exact hi j hlt
    · rw [Fin.ext heq]
      exact hused.1

/-- In a directory without holes, `fat32_find_file` succeeds if and only if
`fat32_ls` shows an entry that matches. -/
theorem found_iff_shown (h : fs.Ready) (hholes : fs.entries.NoHoles) :
    (fs.findFile name).isSome = true ↔
      ∃ e ∈ shown (fs.lsBuffer uninit), fatNameMatch name e.name = true := by
  have hbuffer : dirEntry (fs.lsBuffer uninit) = fs.entries := by
    rw [lsBuffer, read_ready h]
    rfl
  rw [findFile_entries h, Option.isSome_map, Option.isSome_iff_ne_none, Ne,
    Dir.lookup_eq_none, not_forall]
  simp only [not_not, mem_shown, hbuffer]
  refine ⟨?_, ?_⟩
  · intro hfound
    obtain ⟨i, hused, hmatch⟩ := hfound
    refine ⟨fs.entries i, ⟨i, rfl, hused, fun j hj hzero => ?_⟩, hmatch⟩
    rw [hholes j i hj hzero] at hused
    cases hused
  · intro hshown
    obtain ⟨e, ⟨i, rfl, hused, -⟩, hmatch⟩ := hshown
    exact ⟨i, hused, hmatch⟩

end Fs

/-- Whatever is created and removed in a directory without holes, it has none,
and what `fat32_ls` shows is what `fat32_find_file` finds. -/
theorem found_iff_shown_of_run {fs fs' : Fs} {ops : List Op}
    (hready : fs.Ready) (hholes : fs.entries.NoHoles)
    (hrun : Trace Fs.StepInPlace fs ops fs') :
    fs'.entries.NoHoles ∧ ∀ name uninit, (fs'.findFile name).isSome = true ↔
      ∃ e ∈ Fs.shown (fs'.lsBuffer uninit), fatNameMatch name e.name = true := by
  have hall : fs'.Ready ∧ fs'.entries.NoHoles :=
    hrun.invariant (I := fun fs => fs.Ready ∧ fs.entries.NoHoles)
      (fun _ _ _ hs hstep =>
        ⟨hs.1.samePlace (Fs.samePlace_stepInPlace hstep),
          Fs.noHoles_stepInPlace hs.2 hstep⟩)
      ⟨hready, hholes⟩
  exact ⟨hall.2, fun _ _ => Fs.found_iff_shown hall.1 hall.2⟩

theorem ready_formatted : formatted.Ready := (by decide : (1 : UInt8) < 2)

theorem entries_formatted (i : Fin 16) : (formatted.entries i).isFree = true := by
  have h := formatted_dir formatted.currentDirCluster i
  rwa [← Fs.dirEntry_current sound_formatted.exists] at h

theorem found_iff_shown_of_run_formatted :
    (formatted.touch (lit "a") zeroSector).entries.NoHoles ∧
      ∀ name uninit,
        ((formatted.touch (lit "a") zeroSector).findFile name).isSome = true ↔
          ∃ e ∈ Fs.shown ((formatted.touch (lit "a") zeroSector).lsBuffer uninit),
            fatNameMatch name e.name = true :=
  found_iff_shown_of_run ready_formatted (fun _ j _ _ => entries_formatted j)
    (.cons ⟨(rfl : formatted.Step (.touch (lit "a") zeroSector) _), trivial⟩
      (.nil _))

/-! ## Two entries of one name -/

namespace Fs

variable {fs fs' : Fs} {op : Op}

/-- No two entries of the current directory answer to one name, and a name
that is removed is not found. -/
structure NamesOnce (fs : Fs) : Prop where
  once : fs.entries.AnswersOnce
  removed : ∀ name uninit, (fs.rm name uninit).findFile name = none

/-- A `touch` for which the directory has a slot is given a name that nothing
answers to, or one that, made an entry of, would answer to nothing. A `mkdir`
that leaves its mark in an entry makes it answer to no name of another. -/
def NamesFresh (fs : Fs) : Op → Prop
  | .touch name _ => fs.findFile name = none ∨ fs.entries.free = none ∨
      ¬ fatNameMatch name (fatName name) = true
  | .mkdir name _ => fs.Scars name → ∀ input j, j ≠ fs.scarredSlot →
      (dirEntry fs.scarred fs.scarredSlot).Answers input →
      ¬ (fs.entries j).Answers input
  | _ => True

theorem namesOnce_iff : fs.NamesOnce ↔ fs.entries.AnswersOnce := by
  refine ⟨?_, ?_⟩
  · exact NamesOnce.once
  · intro h
    refine ⟨h, fun name uninit => ?_⟩
    have hplace : fs.SamePlace (fs.rm name uninit) := samePlace_rm name uninit
    by_cases hready : fs.Ready
    · rw [findFile_eq_none (hready.samePlace hplace), entries_rm hready]
      exact h.lookup_rm
    · refine findFile_not_ready (fun hr => hready ?_) name
      rw [Ready, hplace.driveCount] at hr
      exact hr

theorem answersOnce_step_iff (h : fs.entries.AnswersOnce)
    (hstep : fs.StepInPlace op fs') :
    fs'.entries.AnswersOnce ↔ fs.NamesFresh op := by
  obtain ⟨hstep, hop⟩ := hstep
  obtain rfl : fs' = fs.perform op := hstep
  by_cases hready : fs.Ready
  · cases op with
    | cd path => exact hop.elim
    | mkdir name uninit =>
        by_cases hscars : fs.Scars name
        · rw [perform, entries_mkdir_of_scars hscars, dirEntry_scarred,
            h.update_iff]
          exact ⟨fun hall _ => hall, fun hall => hall hscars⟩
        · exact iff_of_true (h.mkdir (entries_mkdir hscars))
            fun hyes => absurd hyes hscars
    | touch name uninit =>
        rw [perform, entries_touch hready, Dir.answersOnce_touch_iff h,
          NamesFresh, findFile_eq_none hready, or_left_comm]
    | rm filename uninit =>
        rw [perform, entries_rm hready]
        exact iff_of_true h.rm trivial
  · rw [entries_not_ready hready hop]
    refine iff_of_true h ?_
    cases op with
    | touch name uninit => exact .inl (findFile_not_ready hready name)
    | cd path => exact hop.elim
    | mkdir name uninit => exact fun hscars => absurd hscars.1.1 hready
    | rm filename uninit => exact trivial

end Fs

/-- Over a run in a directory whose names are answered to once, they are in
every state if and only if every `touch` is given a fresh name, and no `mkdir`
leaves its mark where it makes one of another's. -/
theorem namesOnce_along_run_iff {fs fs' : Fs} {ops : List Op}
    (h : fs.entries.AnswersOnce) :
    Trace (Trace.Along Fs.StepInPlace fun _ _ t => t.NamesOnce) fs ops fs' ↔
      Trace (Trace.Along Fs.StepInPlace fun s op _ => s.NamesFresh op)
        fs ops fs' := by
  simp only [Fs.namesOnce_iff]
  exact Trace.along_kept_iff (J := fun _ => True) (fun _ _ _ _ _ => trivial)
    (fun _ _ _ _ hi hstep => Fs.answersOnce_step_iff hi hstep) trivial h

theorem answersOnce_formatted : formatted.entries.AnswersOnce :=
  fun _ i _ hi => absurd hi (DirEntry.not_answers_of_isFree (entries_formatted i))

theorem namesOnce_along_run_iff_formatted :
    Trace (Trace.Along Fs.StepInPlace fun _ _ t => t.NamesOnce) formatted
        [.touch (lit "a") zeroSector] (formatted.touch (lit "a") zeroSector) ↔
      Trace (Trace.Along Fs.StepInPlace fun s op _ => s.NamesFresh op) formatted
        [.touch (lit "a") zeroSector] (formatted.touch (lit "a") zeroSector) :=
  namesOnce_along_run_iff answersOnce_formatted

/-- After `touch a` and `touch a`, two entries answer to `a`. -/
theorem not_answersOnce_touch_touch :
    formatted.entries.AnswersOnce ∧
      ¬ ((formatted.touch (lit "a") zeroSector).touch (lit "a")
        zeroSector).entries.AnswersOnce := by
  refine ⟨answersOnce_formatted, ?_⟩
  have hready := ready_formatted.samePlace
    (@Fs.samePlace_touch formatted (lit "a") zeroSector)
  have hfree : formatted.entries.free = some 0 :=
    firstSlot_zero (entries_formatted 0)
  have hmatch : fatNameMatch (lit "a") (fatName (lit "a")) = true := by decide
  have honce : (formatted.entries.touch (lit "a")).AnswersOnce := by
    refine (Dir.answersOnce_touch_iff answersOnce_formatted).2 (.inr (.inl ?_))
    rw [Dir.lookup_eq_none]
    exact fun i => DirEntry.not_answers_of_isFree (entries_formatted i)
  rw [Fs.entries_touch hready, Fs.entries_touch ready_formatted,
    Dir.answersOnce_touch_iff honce, Dir.touch, hfree, Option.elim_some]
  intro hfresh
  rcases hfresh with hnone | hnone | hdead
  · have hslot := firstSlot_none hnone 1
    rw [Function.update_of_ne (by decide)] at hslot
    exact hslot (entries_formatted 1)
  · refine Dir.lookup_eq_none.1 hnone 0 ?_
    rw [Function.update_self]
    exact ⟨rfl, hmatch⟩
  · exact hdead hmatch

end TermOS.Storage
