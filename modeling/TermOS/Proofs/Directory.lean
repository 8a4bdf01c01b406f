import TermOS.Proofs.FatOps
import TermOS.Proofs.FatTree

/-!
# One directory

`touch`, `mkdir` and `rm` in one directory, as what they do to its sixteen
entries. Each replaces one entry at most. The single exception is a corrupt
volume on which the cluster of the directory itself is free in the FAT: there
a `mkdir` without a free slot makes an empty directory of it.

Two things are said of a directory here. `AnswersOnce`: no string has two
entries answer to it. `NoHoles`: behind the first slot that has never been
used there is nothing, so that what is listed is what is found.
-/

namespace TermOS.Storage

open TermOS.Lib

/-- The entry is in use and matches the string. -/
def DirEntry.Answers (e : DirEntry) (name : Str) : Prop :=
  e.isFree = false ∧ fatNameMatch name e.name = true

instance (e : DirEntry) (name : Str) : Decidable (e.Answers name) :=
  inferInstanceAs (Decidable (_ ∧ _))

theorem DirEntry.not_answers_of_isFree {e : DirEntry} {name : Str}
    (h : e.isFree = true) : ¬ e.Answers name := by
  intro hanswers
  exact absurd (h.symm.trans hanswers.1) (by decide)

abbrev Dir := Fin 16 → DirEntry

namespace Dir

variable {d : Dir} {i j : Fin 16} {e : DirEntry} {name : Str} {new : UInt32}

def lookup (d : Dir) (name : Str) : Option (Fin 16) :=
  firstSlot fun i => !(d i).isFree && fatNameMatch name (d i).name

def free (d : Dir) : Option (Fin 16) := firstSlot fun i => (d i).isFree

def matching (d : Dir) (name : Str) : Option (Fin 16) :=
  firstSlot fun i => fatNameMatch name (d i).name

def touch (d : Dir) (name : Str) : Dir :=
  d.free.elim d fun i => Function.update d i (newFileEntry (d i) name)

def rm (d : Dir) (filename : Str) : Dir :=
  (d.matching filename).elim d fun i => Function.update d i (removed (d i))

/-- What `mkdir` may make of a directory. -/
def Mkdir (d : Dir) (name : Str) (d' : Dir) : Prop :=
  d' = d ∨
    (d.lookup name = none ∧ ∃ i new, d.free = some i ∧
      d' = Function.update d i (newDirEntry (d i) name new)) ∨
    ∃ new parent, d' = dirEntry (dotEntries new parent)

/-- No two entries answer to the same string. -/
def AnswersOnce (d : Dir) : Prop :=
  ∀ name i j, (d i).Answers name → (d j).Answers name → i = j

/-- No entry in use comes behind one that begins with a zero. -/
def NoHoles (d : Dir) : Prop :=
  ∀ i j, i < j → firstByte (d i).name = 0 → (d j).isFree = true

theorem lookup_eq_none : d.lookup name = none ↔ ∀ i, ¬ (d i).Answers name := by
  simp [lookup, firstSlot, DirEntry.Answers, List.find?_eq_none]

/-! ## Replacing an entry -/

theorem AnswersOnce.update (h : d.AnswersOnce)
    (he : ∀ name j, j ≠ i → e.Answers name → ¬ (d j).Answers name) :
    AnswersOnce (Function.update d i e) := by
  intro name j k hj hk
  by_cases hji : j = i
  · by_cases hki : k = i
    · rw [hji, hki]
    · rw [hji, Function.update_self] at hj
      rw [Function.update_of_ne hki] at hk
      exact absurd hk (he name k hki hj)
  · rw [Function.update_of_ne hji] at hj
    by_cases hki : k = i
    · rw [hki, Function.update_self] at hk
      exact absurd hj (he name j hji hk)
    · rw [Function.update_of_ne hki] at hk
      exact h name j k hj hk

/-- Nothing less would do. -/
theorem AnswersOnce.update_iff (h : d.AnswersOnce) :
    AnswersOnce (Function.update d i e) ↔
      ∀ name j, j ≠ i → e.Answers name → ¬ (d j).Answers name := by
  refine ⟨fun hall name j hj he hanswers => ?_, h.update⟩
  refine hj (hall name j i ?_ ?_)
  · rwa [Function.update_of_ne hj]
  · rwa [Function.update_self]

theorem NoHoles.update (h : d.NoHoles) (he : firstByte e.name ≠ 0)
    (hi : e.isFree = true ∨ ∀ j, j < i → firstByte (d j).name ≠ 0) :
    NoHoles (Function.update d i e) := by
  intro j k hjk hzero
  have hji : j ≠ i := by
    intro heq
    rw [heq, Function.update_self] at hzero
    exact he hzero
  rw [Function.update_of_ne hji] at hzero
  by_cases hki : k = i
  · rw [hki, Function.update_self]
    rcases hi with hfree | hbefore
    · exact hfree
    · exact absurd hzero (hbefore j (hki ▸ hjk))
  · rw [Function.update_of_ne hki]
    exact h j k hjk hzero

/-- In front of the first free slot nothing begins with a zero. -/
theorem firstByte_ne_of_lt_free (hi : d.free = some i) (hlt : j < i) :
    firstByte (d j).name ≠ 0 := by
  intro hzero
  refine firstSlot_before hi hlt ?_
  rw [DirEntry.isFree, hzero]
  rfl

/-! ## The new entries -/

/-- What answers to a string that a new entry answers to answers to the name
the entry was made of. -/
theorem answers_of_new {f : DirEntry} (hname : e.name = fatName name)
    {input : Str} (he : e.Answers input) (hf : f.Answers input) :
    fatNameMatch name (fatName name) = true ∧ f.Answers name := by
  have hmatch := he.2
  rw [hname] at hmatch
  have hself := fatNameMatch_fatName hmatch
  exact ⟨hself, hf.1, (fatNameMatch_congr hself hmatch).trans hf.2⟩

/-- A new entry answers to its name as every other in use does. -/
theorem new_answers {f : DirEntry} (hname : e.name = fatName name)
    (hself : fatNameMatch name (fatName name) = true) (hf : f.Answers name) :
    e.Answers name := by
  have hfirst := firstByte_eq_of_match hself hf.2
  refine ⟨?_, ?_⟩
  · rw [DirEntry.isFree, hname, hfirst]
    exact hf.1
  · rw [hname]
    exact hself

/-- A name nothing answers to yet may be given to a free slot, and no other,
but for one that does not answer to its own string. -/
theorem answersOnce_new_iff (h : d.AnswersOnce) (hi : (d i).isFree = true)
    (hname : e.name = fatName name) : AnswersOnce (Function.update d i e) ↔
      d.lookup name = none ∨ ¬ fatNameMatch name (fatName name) = true := by
  refine ⟨?_, ?_⟩
  · intro hnew
    by_contra hboth
    rw [not_or, not_not, lookup_eq_none, not_forall] at hboth
    obtain ⟨⟨j, hj⟩, hself⟩ := hboth
    rw [not_not] at hj
    have hne : j ≠ i := by
      intro heq
      subst heq
      exact DirEntry.not_answers_of_isFree hi hj
    refine hne (hnew name j i ?_ ?_)
    · rwa [Function.update_of_ne hne]
    · rw [Function.update_self]
      exact new_answers hname hself hj
  · intro hfresh
    refine h.update fun input j _ he hj => ?_
    obtain ⟨hself, hanswers⟩ := answers_of_new hname he hj
    rcases hfresh with hnone | hdead
    · exact lookup_eq_none.1 hnone j hanswers
    · exact hdead hself

/-! ## The commands -/

theorem answersOnce_touch_iff (h : d.AnswersOnce) :
    (d.touch name).AnswersOnce ↔ d.free = none ∨ d.lookup name = none ∨
      ¬ fatNameMatch name (fatName name) = true := by
  rw [touch]
  cases hi : d.free with
  | none => simpa using h
  | some i =>
      simpa using answersOnce_new_iff (e := newFileEntry (d i) name) h
        (firstSlot_some hi) rfl

theorem AnswersOnce.rm (h : d.AnswersOnce) : (d.rm name).AnswersOnce := by
  rw [Dir.rm]
  cases d.matching name with
  | none => exact h
  | some i =>
      exact h.update fun _ _ _ hdead =>
        absurd hdead (DirEntry.not_answers_of_isFree (isFree_removed _))

theorem not_answers_dotEntries (new parent : UInt32) (i : Fin 16) :
    ¬ (dirEntry (dotEntries new parent) i).Answers name := by
  intro hanswers
  exact not_live_dotEntries new parent i (DirEntry.live_of_head hanswers.1
    (fatNameMatch_head hanswers.2).2)

theorem AnswersOnce.mkdir {d' : Dir} (h : d.AnswersOnce)
    (hmkdir : d.Mkdir name d') : d'.AnswersOnce := by
  rcases hmkdir with rfl | ⟨hnone, i, new, hi, rfl⟩ | ⟨new, parent, rfl⟩
  · exact h
  · exact (answersOnce_new_iff h (firstSlot_some hi) rfl).2 (.inl hnone)
  · exact fun _ _ _ hi => absurd hi (not_answers_dotEntries new parent _)

/-- Where no two entries answer to a string, none does after its removal. -/
theorem AnswersOnce.lookup_rm (h : d.AnswersOnce) :
    (d.rm name).lookup name = none := by
  rw [lookup_eq_none]
  intro j hj
  rw [Dir.rm] at hj
  cases hi : d.matching name with
  | none =>
      rw [hi] at hj
      exact firstSlot_none hi j hj.2
  | some i =>
      rw [hi] at hj
      simp only [Option.elim_some] at hj
      by_cases hji : j = i
      · rw [hji, Function.update_self] at hj
        exact DirEntry.not_answers_of_isFree (isFree_removed _) hj
      · rw [Function.update_of_ne hji] at hj
        -- What `rm` took matches as `j` does, and begins as `j` does.
        have hmatch : fatNameMatch name (d i).name = true := firstSlot_some hi
        have hused : (d i).isFree = false := by
          rw [DirEntry.isFree, firstByte_eq_of_match hmatch hj.2]
          exact hj.1
        exact hji (h name j i hj ⟨hused, hmatch⟩)

theorem NoHoles.touch (h : d.NoHoles) : (d.touch name).NoHoles := by
  rw [Dir.touch]
  cases hi : d.free with
  | none => exact h
  | some i =>
      exact h.update (fatName_head_ne name).1
        (.inr fun j hlt => firstByte_ne_of_lt_free hi hlt)

theorem NoHoles.rm (h : d.NoHoles) : (d.rm name).NoHoles := by
  rw [Dir.rm]
  cases d.matching name with
  | none => exact h
  | some i =>
      have hhead : firstByte (removed (d i)).name = 0xE5 := by
        simp [removed, firstByte]
      refine h.update ?_ (.inl (isFree_removed _))
      rw [hhead]
      decide

theorem noHoles_dotEntries (new parent : UInt32) :
    NoHoles (dirEntry (dotEntries new parent)) := by
  intro i j hlt hzero
  have hdot : ∀ k, k = 0 ∨ k = 1 →
      firstByte (dirEntry (dotEntries new parent) k).name = dot := by
    intro k hk
    rcases hk with rfl | rfl
    · rw [dotEntries, dirEntry_setDirEntry_of_ne _ (by decide),
        dirEntry_setDirEntry_self]
      rfl
    · rw [dirEntry_dotEntries_one]
      rfl
  have hne : ∀ k, i ≤ k → k ≠ 0 ∧ k ≠ 1 := by
    intro k hik
    by_contra hk
    have hi : i = 0 ∨ i = 1 := by omega
    rw [hdot i hi] at hzero
    exact absurd hzero (by decide)
  obtain ⟨h0, h1⟩ := hne j (Nat.le_of_lt hlt)
  rw [dotEntries, dirEntry_setDirEntry_of_ne _ h1,
    dirEntry_setDirEntry_of_ne _ h0]
  exact dirEntry_zeroSector j

theorem NoHoles.mkdir {d' : Dir} (h : d.NoHoles) (hmkdir : d.Mkdir name d') :
    d'.NoHoles := by
  rcases hmkdir with rfl | ⟨-, i, new, hi, rfl⟩ | ⟨new, parent, rfl⟩
  · exact h
  · exact h.update (fatName_head_ne name).1
      (.inr fun j hlt => firstByte_ne_of_lt_free hi hlt)
  · exact noHoles_dotEntries new parent

end Dir

end TermOS.Storage
