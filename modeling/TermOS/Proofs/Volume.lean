import Mathlib.Tactic.Tauto
import TermOS.Lib.SlotGraph
import TermOS.Proofs.Names
import TermOS.Proofs.Sectors

/-!
# A volume as a directory tree

What the driver keeps on the disk, without sectors: a FAT, which is a word for
each cluster, and sixteen entries for each cluster that is a directory. The
commands do two things to it. One entry of the current directory is replaced,
and a free cluster is made a directory that holds its two dot entries and
nothing else.

`WellFormed` says that the directories in reach of cluster 2 are a tree, each
with its `..` entry, and that the FAT calls nothing free that an entry names.
Its preservation is a cut for a removed or overwritten entry, and a graft for
`mkdir`. What makes the graft fresh is the FAT: a cluster that is free there
is in reach of nothing.
-/

namespace TermOS.Storage

open TermOS.Lib

/-- How large a volume is: its data clusters, numbered from 2, and the sectors
of its FAT. -/
structure Shape where
  clusters : Nat
  fatSectors : Nat

/-- The cluster exists. -/
def Shape.Exists (g : Shape) (c : UInt32) : Prop :=
  2 ≤ c.toNat ∧ c.toNat < g.clusters + 2

theorem Shape.Exists.two_le {g : Shape} {c : UInt32} (h : g.Exists c) :
    2 ≤ c := UInt32.le_iff_toNat_le.2 h.1

theorem Shape.Exists.ne_zero {g : Shape} {c : UInt32} (h : g.Exists c) :
    c ≠ 0 := by
  intro hzero
  rw [hzero] at h
  exact absurd h.1 (by decide)

namespace DirEntry

/-- The entry is in use and neither `.` nor `..`. -/
def Live (e : DirEntry) : Prop :=
  e.isFree = false ∧ e.name ≠ dotName ∧ e.name ≠ dotdotName

instance (e : DirEntry) : Decidable e.Live :=
  inferInstanceAs (Decidable (_ ∧ _ ∧ _))

/-- The entry is `..` with the given cluster. -/
def IsDotdot (e : DirEntry) (parent : UInt32) : Prop :=
  e.name = dotdotName ∧ e.isDirectory = true ∧ e.cluster = parent

theorem live_of_head {e : DirEntry} (hfree : e.isFree = false)
    (hdot : firstByte e.name ≠ dot) : e.Live := by
  refine ⟨hfree, ?_, ?_⟩
  · intro h
    exact hdot (by rw [h]; rfl)
  · intro h
    exact hdot (by rw [h]; rfl)

theorem not_live_of_isFree {e : DirEntry} (h : e.isFree = true) : ¬ e.Live := by
  intro hlive
  obtain ⟨hused, -⟩ := hlive
  exact absurd (h.symm.trans hused) (by decide)

theorem name_ne_of_isFree {e : DirEntry} (h : e.isFree = true) :
    e.name ≠ dotdotName := by
  intro hname
  rw [isFree, hname] at h
  exact absurd h (by decide)

theorem name_ne_of_head {e : DirEntry} (h : firstByte e.name ≠ dot) :
    e.name ≠ dotdotName := by
  intro hname
  exact h (by rw [hname]; rfl)

theorem isDirectory_of_attributes {e : DirEntry} (h : e.attributes = 0x10) :
    e.isDirectory = true := by
  rw [isDirectory, h]
  decide

theorem head_of_isDotdot {e : DirEntry} {p : UInt32} (h : e.IsDotdot p) :
    firstByte e.name = dot := by
  rw [h.1]
  rfl

end DirEntry

/-! ## The new directory -/

theorem dirEntry_zeroSector (i : Fin 16) :
    (dirEntry zeroSector i).isFree = true := by
  simp [dirEntry, zeroSector, record, DirEntry.ofBytes, DirEntry.isFree,
    firstByte]

theorem dirEntry_dotEntries_one (c p : UInt32) :
    dirEntry (dotEntries c p) 1 = dotEntry dotdotName p :=
  dirEntry_setDirEntry_self _ _ _

theorem isDotdot_dotEntries (c p : UInt32) :
    (dirEntry (dotEntries c p) 1).IsDotdot p := by
  rw [dirEntry_dotEntries_one]
  exact ⟨rfl, DirEntry.isDirectory_of_attributes rfl,
    DirEntry.cluster_withCluster _ _⟩

/-- Nothing in a new directory is live. -/
theorem not_live_dotEntries (c p : UInt32) (i : Fin 16) :
    ¬ (dirEntry (dotEntries c p) i).Live := by
  by_cases h1 : i = 1
  · rw [h1, dirEntry_dotEntries_one]
    exact fun h => h.2.2 rfl
  · rw [dotEntries, dirEntry_setDirEntry_of_ne _ h1]
    by_cases h0 : i = 0
    · rw [h0, dirEntry_setDirEntry_self]
      exact fun h => h.2.1 rfl
    · rw [dirEntry_setDirEntry_of_ne _ h0]
      exact DirEntry.not_live_of_isFree (dirEntry_zeroSector i)

/-! ## Volumes -/

@[ext]
structure Volume where
  fat : UInt32 → UInt32
  dir : UInt32 → Fin 16 → DirEntry

/-- The cluster that `..` names in a child of `x`. -/
def dotdotOf (x : UInt32) : UInt32 := if x = 2 then 0 else x

namespace Volume

variable {v : Volume} {g : Shape} {c x y new : UInt32} {i j : Fin 16}
variable {e : DirEntry}

/-- The tree's edges: the live entries that are directories. -/
def subdir (v : Volume) (c : UInt32) (i : Fin 16) : Option UInt32 :=
  if (v.dir c i).Live ∧ (v.dir c i).isDirectory = true
    then some (v.dir c i).cluster else none

theorem subdir_eq_some : v.subdir c i = some y ↔
    (v.dir c i).Live ∧ (v.dir c i).isDirectory = true ∧
      (v.dir c i).cluster = y := by
  rw [subdir]
  split
  · next h => simp [h]
  · next h =>
      simp only [false_iff, reduceCtorEq]
      tauto

theorem subdir_eq_none (h : ¬ (v.dir c i).Live) : v.subdir c i = none :=
  if_neg fun hlive => h hlive.1

/-- In reach of the root directory. -/
def InReach (v : Volume) (c : UInt32) : Prop := Reach v.subdir 2 c

/-- A directory tree whose clusters exist and are not free in the FAT. -/
structure WellFormed (v : Volume) (g : Shape) : Prop where
  tree : Arborescence v.subdir 2
  exist : ∀ x i y, v.InReach x → v.subdir x i = some y → g.Exists y
  dotdot : ∀ x i y, v.InReach x → v.subdir x i = some y →
    (v.dir y 1).IsDotdot (dotdotOf x)
  rootUsed : v.fat 2 ≠ 0
  used : ∀ x i, v.InReach x → (v.dir x i).Live → (v.dir x i).cluster ≠ 0 →
    v.fat (v.dir x i).cluster ≠ 0

/-- No two live entries name one cluster, and none names the root's; an entry
of cluster zero names none. -/
structure Sole (v : Volume) : Prop where
  root : ∀ x i, v.InReach x → (v.dir x i).Live → (v.dir x i).cluster ≠ 2
  inj : ∀ x i x' i', v.InReach x → v.InReach x' → (v.dir x i).Live →
    (v.dir x' i').Live → (v.dir x i).cluster ≠ 0 →
    (v.dir x i).cluster = (v.dir x' i').cluster → x = x' ∧ i = i'

def setDir (v : Volume) (c : UInt32) (entries : Fin 16 → DirEntry) : Volume :=
  { v with dir := Function.update v.dir c entries }

def setFat (v : Volume) (c value : UInt32) : Volume :=
  { v with fat := Function.update v.fat c value }

/-- The volume with one entry replaced. -/
def setSlot (v : Volume) (x : UInt32) (i : Fin 16) (e : DirEntry) : Volume :=
  v.setDir x (Function.update (v.dir x) i e)

/-- The volume with a free cluster made an empty directory. -/
def allocate (v : Volume) (new parent : UInt32) : Volume :=
  (v.setFat new 0x0FFFFFFF).setDir new (dirEntry (dotEntries new parent))

@[simp]
theorem setSlot_self : (v.setSlot x i e).dir x i = e := by
  simp [setSlot, setDir]

theorem setSlot_of_ne (h : ¬ (c = x ∧ j = i)) :
    (v.setSlot x i e).dir c j = v.dir c j := by
  by_cases hc : c = x
  · subst hc
    have hj : j ≠ i := fun hj => h ⟨rfl, hj⟩
    simp [setSlot, setDir, hj]
  · simp [setSlot, setDir, hc]

@[simp]
theorem setSlot_fat : (v.setSlot x i e).fat = v.fat := rfl

@[simp]
theorem allocate_self (p : UInt32) :
    (v.allocate new p).dir new = dirEntry (dotEntries new p) := by
  simp [allocate, setFat, setDir]

theorem allocate_of_ne {p : UInt32} (h : c ≠ new) :
    (v.allocate new p).dir c = v.dir c := by simp [allocate, setFat, setDir, h]

@[simp]
theorem allocate_fat_self (p : UInt32) :
    (v.allocate new p).fat new = 0x0FFFFFFF := by simp [allocate, setFat, setDir]

theorem allocate_fat_of_ne {p : UInt32} (h : c ≠ new) :
    (v.allocate new p).fat c = v.fat c := by simp [allocate, setFat, setDir, h]

theorem allocate_fat_ne_zero (p : UInt32) (h : v.fat c ≠ 0) :
    (v.allocate new p).fat c ≠ 0 := by
  by_cases hc : c = new
  · rw [hc, allocate_fat_self]
    decide
  · rwa [allocate_fat_of_ne hc]

/-- Nothing in reach is free in the FAT. -/
theorem WellFormed.not_inReach (h : v.WellFormed g) (hfree : v.fat new = 0) :
    ¬ v.InReach new := by
  intro hreach
  have hused : v.fat new ≠ 0 := by
    refine hreach.induct (P := fun c => v.fat c ≠ 0) h.rootUsed
      fun x i y hx _ edge => ?_
    have hy := h.exist x i y hx edge
    obtain ⟨hlive, -, rfl⟩ := subdir_eq_some.1 edge
    exact h.used x i hx hlive hy.ne_zero
  exact hused hfree

/-- No live entry in reach names a cluster that is free. -/
theorem WellFormed.cluster_ne_free (h : v.WellFormed g) (hexist : g.Exists new)
    (hfree : v.fat new = 0) (hc : v.InReach c) (hlive : (v.dir c i).Live) :
    (v.dir c i).cluster ≠ new := by
  intro heq
  subst heq
  exact h.used c i hc hlive hexist.ne_zero hfree

/-! ## Replacing an entry

A removed entry, or a new one that is not live or is a file without a cluster:
the edges can only become fewer. The one entry in reach that must stay is
`..`. -/

section Inert

variable (hslot : (v.dir x i).name ≠ dotdotName)
variable (he : ¬ e.Live ∨ (e.isDirectory = false ∧ e.cluster = 0))

include he in
theorem live_of_setSlot (hlive : ((v.setSlot x i e).dir c j).Live)
    (hc : ((v.setSlot x i e).dir c j).cluster ≠ 0) :
    (v.setSlot x i e).dir c j = v.dir c j := by
  refine setSlot_of_ne ?_
  intro hsame
  obtain ⟨rfl, rfl⟩ := hsame
  rw [setSlot_self] at hlive hc
  rcases he with hdead | ⟨-, hzero⟩
  · exact hdead hlive
  · exact hc hzero

include he in
theorem subdir_of_setSlot (h : (v.setSlot x i e).subdir c j = some y) :
    v.subdir c j = some y := by
  have hne : ¬ (c = x ∧ j = i) := by
    intro hsame
    obtain ⟨rfl, rfl⟩ := hsame
    obtain ⟨hlive, hdir, -⟩ := subdir_eq_some.1 h
    rw [setSlot_self] at hlive hdir
    rcases he with hdead | ⟨hfile, -⟩
    · exact hdead hlive
    · exact absurd (hfile.symm.trans hdir) (by decide)
  rw [subdir, setSlot_of_ne hne] at h
  exact h

include he in
theorem inReach_of_setSlot (h : (v.setSlot x i e).InReach c) : v.InReach c :=
  h.cut fun _ _ _ => subdir_of_setSlot he

include hslot he in
theorem WellFormed.setSlot (h : v.WellFormed g) :
    (v.setSlot x i e).WellFormed g where
  tree := h.tree.cut fun _ _ _ => subdir_of_setSlot he
  exist z j y hz edge :=
    h.exist z j y (inReach_of_setSlot he hz) (subdir_of_setSlot he edge)
  dotdot z j y hz edge := by
    have hdotdot := h.dotdot z j y (inReach_of_setSlot he hz)
      (subdir_of_setSlot he edge)
    rwa [setSlot_of_ne]
    intro hsame
    obtain ⟨rfl, rfl⟩ := hsame
    exact hslot hdotdot.1
  rootUsed := h.rootUsed
  used z j hz hlive hc := by
    have heq := live_of_setSlot he hlive hc
    rw [heq] at hlive hc ⊢
    exact h.used z j (inReach_of_setSlot he hz) hlive hc

include he in
theorem Sole.setSlot (h : v.Sole) : (v.setSlot x i e).Sole where
  root z j hz hlive hc := by
    have heq := live_of_setSlot he hlive (by rw [hc]; decide)
    rw [heq] at hlive hc
    exact h.root z j (inReach_of_setSlot he hz) hlive hc
  inj z j z' j' hz hz' hlive hlive' hc hcc := by
    have heq := live_of_setSlot he hlive hc
    have heq' := live_of_setSlot he hlive' (hcc ▸ hc)
    rw [heq] at hlive hc hcc
    rw [heq'] at hlive' hcc
    exact h.inj z j z' j' (inReach_of_setSlot he hz) (inReach_of_setSlot he hz')
      hlive hlive' hc hcc

end Inert

/-- An entry of a directory in reach is replaced: the directory stays in
reach. -/
theorem InReach.setSlot (h : v.InReach x) : (v.setSlot x i e).InReach x := by
  refine Reach.frame (fun z _ hz j => ?_) h
  rw [subdir, subdir, setSlot_of_ne fun hzj => hz hzj.1]

/-! ## A new directory

First the cluster is made a directory, in reach of nothing, and then an entry
of a directory in reach may be made to name it. -/

section New

variable {p : UInt32}

theorem subdir_allocate_self : (v.allocate new p).subdir new j = none := by
  refine subdir_eq_none ?_
  rw [allocate_self]
  exact not_live_dotEntries new p j

theorem subdir_allocate_of_ne (h : c ≠ new) :
    (v.allocate new p).subdir c j = v.subdir c j := by
  rw [subdir, subdir, allocate_of_ne h]

theorem subdir_of_allocate (h : (v.allocate new p).subdir c j = some y) :
    v.subdir c j = some y := by
  by_cases hc : c = new
  · subst hc
    cases subdir_allocate_self.symm.trans h
  · rwa [subdir_allocate_of_ne hc] at h

theorem inReach_of_allocate (h : (v.allocate new p).InReach c) : v.InReach c :=
  h.cut fun _ _ _ => subdir_of_allocate

theorem InReach.allocate (hwf : v.WellFormed g) (hfree : v.fat new = 0)
    (h : v.InReach c) : (v.allocate new p).InReach c := by
  refine Reach.frame (fun z hz _ j => subdir_allocate_of_ne ?_) h
  intro heq
  subst heq
  exact hwf.not_inReach hfree hz

theorem WellFormed.allocate (h : v.WellFormed g) (hfree : v.fat new = 0) :
    (v.allocate new p).WellFormed g := by
  have hne : ∀ {z}, v.InReach z → z ≠ new := by
    rintro z hz rfl
    exact h.not_inReach hfree hz
  constructor
  case tree => exact h.tree.cut fun _ _ _ => subdir_of_allocate
  case exist =>
    intro z j y hz edge
    exact h.exist z j y (inReach_of_allocate hz) (subdir_of_allocate edge)
  case dotdot =>
    intro z j y hz edge
    have hz' := inReach_of_allocate hz
    have edge' := subdir_of_allocate edge
    rw [allocate_of_ne (hne (hz'.step edge'))]
    exact h.dotdot z j y hz' edge'
  case rootUsed => exact allocate_fat_ne_zero p h.rootUsed
  case used =>
    intro z j hz hlive hc
    have hz' := inReach_of_allocate hz
    rw [allocate_of_ne (hne hz')] at hlive hc ⊢
    exact allocate_fat_ne_zero p (h.used z j hz' hlive hc)

theorem Sole.allocate (hwf : v.WellFormed g) (hfree : v.fat new = 0)
    (h : v.Sole) : (v.allocate new p).Sole := by
  have hdir : ∀ {z}, (v.allocate new p).InReach z →
      (v.allocate new p).dir z = v.dir z := by
    intro z hz
    refine allocate_of_ne ?_
    intro heq
    subst heq
    exact hwf.not_inReach hfree (inReach_of_allocate hz)
  constructor
  case root =>
    intro z j hz hlive
    rw [hdir hz] at hlive ⊢
    exact h.root z j (inReach_of_allocate hz) hlive
  case inj =>
    intro z j z' j' hz hz' hlive hlive'
    rw [hdir hz] at hlive ⊢
    rw [hdir hz'] at hlive' ⊢
    exact h.inj z j z' j' (inReach_of_allocate hz) (inReach_of_allocate hz')
      hlive hlive'

end New

section Link

variable (hwf : v.WellFormed g) (hfree : v.fat new = 0) (hx : v.InReach x)
variable (hslot : (v.dir x i).isFree = true)
variable (he : e.Live ∧ e.isDirectory = true ∧ e.cluster = new)

/-- `mkdir`, with its new entry in place. -/
def link (v : Volume) (x : UInt32) (i : Fin 16) (e : DirEntry)
    (new : UInt32) : Volume :=
  (v.allocate new (dotdotOf x)).setSlot x i e

include hwf hfree hx in
theorem ne_new_of_inReach : x ≠ new := by
  intro heq
  subst heq
  exact hwf.not_inReach hfree hx

include hwf hfree hx in
theorem link_dir_new : (v.link x i e new).dir new =
    dirEntry (dotEntries new (dotdotOf x)) := by
  have hne := ne_new_of_inReach hwf hfree hx
  funext j
  rw [link, setSlot_of_ne fun h => hne h.1.symm, allocate_self]

theorem link_dir_of_ne (hc : c ≠ new) (hne : ¬ (c = x ∧ j = i)) :
    (v.link x i e new).dir c j = v.dir c j := by
  rw [link, setSlot_of_ne hne, allocate_of_ne hc]

include hwf hfree hx in
theorem subdir_link_new : (v.link x i e new).subdir new j = none := by
  refine subdir_eq_none ?_
  rw [link_dir_new hwf hfree hx]
  exact not_live_dotEntries new _ j

theorem subdir_link (hc : c ≠ new) (h : (v.link x i e new).subdir c j = some y)
    (he : e.cluster = new) :
    v.subdir c j = some y ∨ (c = x ∧ j = i ∧ y = new) := by
  by_cases hne : c = x ∧ j = i
  · obtain ⟨rfl, rfl⟩ := hne
    obtain ⟨-, -, hcl⟩ := subdir_eq_some.1 h
    rw [link, setSlot_self, he] at hcl
    exact .inr ⟨rfl, rfl, hcl.symm⟩
  · rw [subdir, link_dir_of_ne hc hne] at h
    exact .inl h

include hwf hfree hx he in
theorem inReach_of_link (h : (v.link x i e new).InReach c) :
    v.InReach c ∨ c = new :=
  h.graft (fun _ => subdir_link_new hwf hfree hx)
    fun _ _ _ hc edge => subdir_link hc edge he.2.2

include hwf hfree hx hslot in
/-- Directories in reach stay in reach: the entry that is overwritten was
free. -/
theorem InReach.link (h : v.InReach c) : (v.link x i e new).InReach c := by
  refine h.grow fun z j w hz edge => ?_
  have hne : ¬ (z = x ∧ j = i) := by
    intro hsame
    obtain ⟨rfl, rfl⟩ := hsame
    exact DirEntry.not_live_of_isFree hslot (subdir_eq_some.1 edge).1
  rw [subdir, link_dir_of_ne (ne_new_of_inReach hwf hfree hz) hne]
  exact edge

include hwf hfree hx he in
/-- The live entries in reach are the old ones and the new one. -/
theorem live_of_link (hc : (v.link x i e new).InReach c)
    (hlive : ((v.link x i e new).dir c j).Live) :
    (v.InReach c ∧ (v.link x i e new).dir c j = v.dir c j) ∨
      (c = x ∧ j = i ∧ (v.link x i e new).dir c j = e) := by
  have hnew : c ≠ new := by
    intro heq
    subst heq
    rw [link_dir_new hwf hfree hx] at hlive
    exact not_live_dotEntries c _ j hlive
  have hc' := (inReach_of_link hwf hfree hx he hc).resolve_right hnew
  by_cases hne : c = x ∧ j = i
  · obtain ⟨rfl, rfl⟩ := hne
    exact .inr ⟨rfl, rfl, setSlot_self⟩
  · exact .inl ⟨hc', link_dir_of_ne hnew hne⟩

include hwf hfree hx hslot he in
theorem WellFormed.link (hexist : g.Exists new) :
    (v.link x i e new).WellFormed g := by
  have hedge : ∀ {z j y}, (v.link x i e new).InReach z →
      (v.link x i e new).subdir z j = some y →
      v.InReach z ∧ (v.subdir z j = some y ∨ (z = x ∧ j = i ∧ y = new)) := by
    intro z j y hz edge
    have hnew : z ≠ new := by
      intro heq
      subst heq
      cases (subdir_link_new hwf hfree hx).symm.trans edge
    exact ⟨(inReach_of_link hwf hfree hx he hz).resolve_right hnew,
      subdir_link hnew edge he.2.2⟩
  constructor
  case tree =>
    exact hwf.tree.graft (hwf.not_inReach hfree)
      (fun _ => subdir_link_new hwf hfree hx)
      fun _ _ _ hc edge => subdir_link hc edge he.2.2
  case exist =>
    intro z j y hz edge
    obtain ⟨hz', hold | ⟨-, -, rfl⟩⟩ := hedge hz edge
    · exact hwf.exist z j y hz' hold
    · exact hexist
  case dotdot =>
    intro z j y hz edge
    obtain ⟨hz', hold | ⟨rfl, -, rfl⟩⟩ := hedge hz edge
    · have hdotdot := hwf.dotdot z j y hz' hold
      rw [link_dir_of_ne (ne_new_of_inReach hwf hfree (hz'.step hold))]
      · exact hdotdot
      · intro hsame
        obtain ⟨rfl, rfl⟩ := hsame
        exact DirEntry.name_ne_of_isFree hslot hdotdot.1
    · rw [link_dir_new hwf hfree hx]
      exact isDotdot_dotEntries y _
  case rootUsed => exact allocate_fat_ne_zero (dotdotOf x) hwf.rootUsed
  case used =>
    intro z j hz hlive hc
    rcases live_of_link hwf hfree hx he hz hlive with ⟨hz', heq⟩ | ⟨-, -, heq⟩
    · rw [heq] at hlive hc ⊢
      exact allocate_fat_ne_zero (dotdotOf x) (hwf.used z j hz' hlive hc)
    · rw [heq, he.2.2, Volume.link, setSlot_fat, allocate_fat_self]
      decide

include hwf hfree hx he in
theorem Sole.link (h : v.Sole) (hexist : g.Exists new) :
    (v.link x i e new).Sole := by
  constructor
  case root =>
    intro z j hz hlive
    rcases live_of_link hwf hfree hx he hz hlive with ⟨hz', heq⟩ | ⟨-, -, heq⟩
    · rw [heq] at hlive ⊢
      exact h.root z j hz' hlive
    · rw [heq, he.2.2]
      intro heq
      subst heq
      exact hwf.rootUsed hfree
  case inj =>
    intro z j z' j' hz hz' hlive hlive' hc hcc
    rcases live_of_link hwf hfree hx he hz hlive with ⟨hr, heq⟩ | ⟨rfl, rfl, heq⟩
    · rcases live_of_link hwf hfree hx he hz' hlive' with
        ⟨hr', heq'⟩ | ⟨-, -, heq'⟩
      · rw [heq] at hlive hc hcc
        rw [heq'] at hlive' hcc
        exact h.inj z j z' j' hr hr' hlive hlive' hc hcc
      · rw [heq] at hlive hcc
        rw [heq', he.2.2] at hcc
        exact absurd hcc (hwf.cluster_ne_free hexist hfree hr hlive)
    · rcases live_of_link hwf hfree hx he hz' hlive' with
        ⟨hr', heq'⟩ | ⟨rfl, rfl, -⟩
      · rw [heq'] at hlive' hcc
        rw [heq, he.2.2] at hcc
        exact absurd hcc.symm (hwf.cluster_ne_free hexist hfree hr' hlive')
      · exact ⟨rfl, rfl⟩

end Link

end Volume

end TermOS.Storage
