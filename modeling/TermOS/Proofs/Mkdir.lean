import TermOS.Proofs.FatTree
import TermOS.Proofs.Lookup

/-!
# What one `mkdir` does to the disk

Three writes: the new cluster's word in the FAT, the first sector of the
cluster, and the sector of the current directory as it was read at the start,
with one entry replaced. On a volume whose areas do not overlap these are
three sectors, and the entry is found again under the name it was made for.

A `mkdir` that makes no entry gives up in front of the first write, or between
the second and the third if there is no free slot, or has written an entry that
reads as a removed one, for a name that begins with `0xE5`. The last two leave
on the disk what they have written.
-/

namespace TermOS.Storage

open TermOS.Lib

namespace Fs

variable {fs fs' : Fs} {g : Shape} {name : Str} {uninit : Sector}

theorem made_ready (h : fs.Ready) (uninit : Sector) : fs.made uninit =
    (fs.put (fs.fatSector fs.findFreeCluster) (setFatWord
      (fs.diskMgr.sectors 1 (fs.fatSector fs.findFreeCluster))
      (fatOffset fs.findFreeCluster) 0x0FFFFFFF)).put
        (fs.getSectorByCluster fs.findFreeCluster)
        (dotEntries fs.findFreeCluster (dotdotOf fs.currentDirCluster)) := by
  rw [made, updateFat_ready h]

/-- `mkdir` reports an error if and only if it takes no cluster or has no slot
for the new entry. -/
theorem cerr_mkdir_iff (fs : Fs) (name : Str) (uninit : Sector) :
    (fs.mkdir name uninit).cerr ≠ fs.cerr ↔
      ¬ fs.Takes name ∨ fs.freeSlot = none := by
  have hmade : ∀ lba s, fs.Takes name →
      ((fs.made uninit).put lba s).cerr = fs.cerr := by
    intro lba s htakes
    rw [made_ready htakes.1]
    rfl
  rcases mkdir_outcomes fs name uninit with ⟨hnot, m, heq⟩ |
    ⟨htakes, ⟨hnone, m, heq⟩ | ⟨i, hi, heq⟩⟩
  · rw [heq]
    exact iff_of_true (cerr_errln_ne fs m) (.inl hnot)
  · rw [heq]
    refine iff_of_true ?_ (.inr hnone)
    have hcerr : (fs.made uninit).cerr = fs.cerr := by
      rw [made_ready htakes.1]
      rfl
    rw [← hcerr]
    exact cerr_errln_ne _ m
  · rw [heq, hmade _ _ htakes, hi]
    exact iff_of_false (fun h => h rfl) fun h =>
      h.elim (fun hnot => hnot htakes) (fun hnone => nomatch hnone)

theorem cerr_mkdir_of_takes (h : fs.Takes name) (hslot : fs.freeSlot ≠ none)
    (uninit : Sector) : (fs.mkdir name uninit).cerr = fs.cerr := by
  by_contra hne
  exact ((cerr_mkdir_iff fs name uninit).1 hne).elim
    (fun hnot => hnot h) hslot

/-! ## A `mkdir` that succeeds -/

/-- The disk of `fs'` is that of `fs` but for the word of the cluster `c` in
the FAT, the first sector of `c`, and the entry `i` of the current directory,
which was free. -/
structure Created (fs fs' : Fs) (name : Str) (c : UInt32) (i : Fin 16) :
    Prop where
  driveCount : fs'.diskMgr.driveCount = fs.diskMgr.driveCount
  drives : ∀ drive ≠ 1, fs'.diskMgr.sectors drive = fs.diskMgr.sectors drive
  others : ∀ lba, lba ≠ fs.fatSector c → lba ≠ fs.getSectorByCluster c →
    lba ≠ fs.getSectorByCluster fs.currentDirCluster →
    fs'.diskMgr.sectors 1 lba = fs.diskMgr.sectors 1 lba
  fat : fs'.diskMgr.sectors 1 (fs.fatSector c) =
    setFatWord (fs.diskMgr.sectors 1 (fs.fatSector c)) (fatOffset c) 0x0FFFFFFF
  cluster : fs'.diskMgr.sectors 1 (fs.getSectorByCluster c) =
    dotEntries c (dotdotOf fs.currentDirCluster)
  entry : fs'.currentSector = setDirEntry fs.currentSector i
    (newDirEntry (dirEntry fs.currentSector i) name c)
  free : (dirEntry fs.currentSector i).isFree = true

/-- An entry that names the cluster `c`, in which there is a directory with
the parent `p`. -/
structure Leads (fs : Fs) (e : DirEntry) (c p : UInt32) : Prop where
  cluster : e.cluster = c
  directory : e.isDirectory = true
  dot : (dirEntry (fs.diskMgr.sectors 1 (fs.getSectorByCluster c)) 0).name =
      dotName ∧
    (dirEntry (fs.diskMgr.sectors 1 (fs.getSectorByCluster c)) 0).isDirectory =
      true ∧
    (dirEntry (fs.diskMgr.sectors 1 (fs.getSectorByCluster c)) 0).cluster = c
  dotdot :
    (dirEntry (fs.diskMgr.sectors 1 (fs.getSectorByCluster c)) 1).IsDotdot p

theorem mkdir_created (hg : Geometry fs g) (hc : g.Exists fs.currentDirCluster)
    (hused : (fs.volume g).fat fs.currentDirCluster ≠ 0)
    (hok : (fs.mkdir name uninit).cerr = fs.cerr) :
    fs.Takes name ∧
      ∃ i, Created fs (fs.mkdir name uninit) name fs.findFreeCluster i := by
  rcases mkdir_outcomes fs name uninit with ⟨hnot, -⟩ |
    ⟨htakes, ⟨hnone, -⟩ | ⟨i, hi, heq⟩⟩
  · exact absurd hok ((cerr_mkdir_iff fs name uninit).2 (.inl hnot))
  · exact absurd hok ((cerr_mkdir_iff fs name uninit).2 (.inr hnone))
  · refine ⟨htakes, i, ?_⟩
    obtain ⟨hexist, hin, hfree⟩ := findFreeCluster_spec hg htakes.2.2
    have hne : fs.findFreeCluster ≠ fs.currentDirCluster := by
      intro heq'
      rw [heq'] at hfree
      exact hused hfree
    have hfat := hg.fatSector_ne_sector hin hexist
    have hfat' := hg.fatSector_ne_sector hin hc
    have hsec : fs.getSectorByCluster fs.findFreeCluster ≠
        fs.getSectorByCluster fs.currentDirCluster :=
      fun h => hne (hg.sector_inj hexist hc h)
    have hplace : fs.SamePlace (fs.mkdir name uninit) :=
      samePlace_mkdir name uninit
    constructor
    case driveCount => exact hplace.driveCount
    case drives =>
      intro drive hdrive
      rw [heq, made_ready htakes.1]
      simp [put, hdrive]
    case others =>
      intro lba h₁ h₂ h₃
      rw [heq, made_ready htakes.1]
      simp [put, h₁, h₂, h₃]
    case fat =>
      rw [heq, made_ready htakes.1]
      simp [put, hfat, hfat']
    case cluster =>
      rw [heq, made_ready htakes.1]
      simp [put, hsec]
    case entry =>
      rw [currentSector, hplace.sector, hplace.cluster, heq]
      simp [put]
    case free =>
      have hp := firstSlot_some hi
      exact hp

/-- The entry that was made is the one that is found. -/
theorem Created.findFile {c : UInt32} {i : Fin 16}
    (h : Created fs fs' name c i) (hplace : fs.SamePlace fs')
    (hready : fs.Ready) (hnone : fs.findFile name = none)
    (hname : ∀ ch ∈ name, ch ≠ newline ∧ ch ≠ carriageReturn)
    (hhead : name.headD 0 ≠ 0xE5) :
    fs'.findFile name =
      some (newDirEntry (dirEntry fs.currentSector i) name c) := by
  have hself : (newDirEntry (dirEntry fs.currentSector i) name c).isFree =
      false := by
    rw [← Bool.not_eq_true, isFree_newDirEntry]
    exact hhead
  rw [findFile_slot (read_ready hready), Option.map_eq_none_iff] at hnone
  have hslot : findFileSlot fs'.currentSector name = some i := by
    rw [h.entry]
    refine firstSlot_unique ?_ fun j hj => ?_
    · rw [dirEntry_setDirEntry_self, hself, Bool.not_false, Bool.true_and]
      exact fatNameMatch_self hname
    · by_contra hne
      rw [dirEntry_setDirEntry_of_ne _ hne] at hj
      exact firstSlot_none hnone j hj
  rw [findFile_slot (read_ready (hready.samePlace hplace))]
  show (findFileSlot fs'.currentSector name).map _ = _
  rw [hslot, Option.map_some]
  show some (dirEntry fs'.currentSector i) = _
  rw [h.entry, dirEntry_setDirEntry_self]

/-- The cluster that was made a directory is one. -/
theorem Created.leads {c : UInt32} {i : Fin 16} (h : Created fs fs' name c i)
    (hplace : fs.SamePlace fs') :
    fs'.Leads (newDirEntry (dirEntry fs.currentSector i) name c) c
      (dotdotOf fs.currentDirCluster) := by
  have hsector := h.cluster
  rw [← hplace.sector] at hsector
  constructor
  case cluster => exact newDirEntry_cluster _ _ _
  case directory => exact newDirEntry_isDirectory _ _ _
  case dot =>
    rw [hsector, dotEntries, dirEntry_setDirEntry_of_ne _ (by decide),
      dirEntry_setDirEntry_self]
    exact ⟨rfl, DirEntry.isDirectory_of_attributes rfl,
      DirEntry.cluster_withCluster _ _⟩
  case dotdot =>
    rw [hsector]
    exact isDotdot_dotEntries c _

end Fs

/-- A `mkdir` that reports no error, with the cluster it has found: on the
disk nothing has changed but the word of the cluster, its first sector and a
free entry, and under its name the driver finds an entry that leads to a new
directory in that cluster. -/
theorem mkdir_creates {fs : Fs} {g : Shape} {name : Str}
    (hg : Geometry fs g) (hc : g.Exists fs.currentDirCluster)
    (hused : (fs.volume g).fat fs.currentDirCluster ≠ 0) (hname : Ascii name)
    (hbreak : ∀ ch ∈ name, ch ≠ newline ∧ ch ≠ carriageReturn)
    (uninit : Sector) (hok : (fs.mkdir name uninit).cerr = fs.cerr) :
    (∃ i, fs.Created (fs.mkdir name uninit) name fs.findFreeCluster i) ∧
      ∃ e, (fs.mkdir name uninit).findFile name = some e ∧
        (fs.mkdir name uninit).Leads e fs.findFreeCluster
          (if fs.currentDirCluster = 2 then 0 else fs.currentDirCluster) := by
  obtain ⟨htakes, i, hcreated⟩ := Fs.mkdir_created hg hc hused hok
  have hplace : fs.SamePlace (fs.mkdir name uninit) :=
    Fs.samePlace_mkdir name uninit
  exact ⟨⟨i, hcreated⟩, _, hcreated.findFile hplace htakes.1 htakes.2.1 hbreak
    hname.head_ne, hcreated.leads hplace⟩

theorem freeSlot_formatted : formatted.freeSlot ≠ none := fun hnone =>
  firstSlot_none hnone 0 (dirEntry_zeroSector 0)

theorem mkdir_creates_formatted :
    ∃ e, (formatted.mkdir (lit "Docs.d") zeroSector).findFile (lit "Docs.d") =
        some e ∧
      (formatted.mkdir (lit "Docs.d") zeroSector).Leads e
        formatted.findFreeCluster 0 := by
  have hname : (lit "Docs.d").all (fun c => decide (1 ≤ c ∧ c ≤ 127 ∧
      c ≠ newline ∧ c ≠ carriageReturn)) = true := by decide
  simp only [List.all_eq_true, decide_eq_true_eq] at hname
  have hok := Fs.cerr_mkdir_of_takes (takes_formatted (lit "Docs.d"))
    freeSlot_formatted zeroSector
  exact (mkdir_creates geometry_formatted sound_formatted.exists
    (sound_formatted.tree.used_of_inReach sound_formatted.current)
    (fun c hc => ⟨(hname c hc).1, (hname c hc).2.1⟩)
    (fun c hc => (hname c hc).2.2) zeroSector hok).2

/-! ## A `mkdir` that fails -/

/-- Two writes, the first of something new, leave everything as it was if and
only if the second undoes the first. -/
theorem update_two_iff {α β : Type*} [DecidableEq α] {f : α → β} {a b : α}
    {x y : β} (hx : x ≠ f a) :
    (∀ c, Function.update (Function.update f a x) b y c = f c) ↔
      a = b ∧ f b = y := by
  refine ⟨fun h => ⟨?_, ?_⟩, ?_⟩
  · by_contra hne
    have ha := h a
    rw [Function.update_of_ne hne, Function.update_self] at ha
    exact hx ha
  · have hb := h b
    rw [Function.update_self] at hb
    exact hb.symm
  · rintro ⟨rfl, rfl⟩ c
    rw [Function.update_idem, Function.update_eq_self]

/-- Three do if the others undo the first, and the second is undone or was
there already. -/
theorem update_three_iff {α β : Type*} [DecidableEq α] {f : α → β}
    {a b d : α} {x y z : β} (hx : x ≠ f a) :
    (∀ c, Function.update (Function.update (Function.update f a x) b y) d z c =
        f c) ↔ (a = b ∨ a = d) ∧ (b = d ∨ f b = y) ∧ z = f d := by
  refine ⟨fun h => ⟨?_, ?_, ?_⟩, ?_⟩
  · by_contra hne
    rw [not_or] at hne
    have ha := h a
    rw [Function.update_of_ne hne.2, Function.update_of_ne hne.1,
      Function.update_self] at ha
    exact hx ha
  · by_contra hne
    rw [not_or] at hne
    have hb := h b
    rw [Function.update_of_ne hne.1, Function.update_self] at hb
    exact hne.2 hb.symm
  · have hd := h d
    rwa [Function.update_self] at hd
  · rintro ⟨ha, hb, rfl⟩ c
    by_cases hcd : c = d
    · rw [hcd, Function.update_self]
    · rw [Function.update_of_ne hcd]
      by_cases hcb : c = b
      · rw [hcb, Function.update_self]
        exact (hb.resolve_left fun h => hcd (hcb.trans h)).symm
      · have hca : c ≠ a := fun h =>
          ha.elim (fun h' => hcb (h.trans h')) fun h' => hcd (h.trans h')
        rw [Function.update_of_ne hcb, Function.update_of_ne hca]

namespace Fs

variable {fs fs' : Fs} {name : Str} {uninit : Sector}

/-- There is an entry for the name in a slot that was free. -/
def Adds (fs fs' : Fs) (name : Str) : Prop :=
  ∃ i, (dirEntry fs.currentSector i).isFree = true ∧
    (dirEntry fs'.currentSector i).isFree = false ∧
    (dirEntry fs'.currentSector i).name = fatName name

/-- `mkdir` adds an entry if it takes a cluster, finds a slot and is not given a
name that marks an entry as removed. -/
theorem adds_mkdir_iff (fs : Fs) (name : Str) (uninit : Sector) :
    fs.Adds (fs.mkdir name uninit) name ↔
      fs.Takes name ∧ fs.freeSlot ≠ none ∧ name.headD 0 ≠ 0xE5 := by
  have hplace : fs.SamePlace (fs.mkdir name uninit) := samePlace_mkdir name uninit
  rcases mkdir_outcomes fs name uninit with ⟨hnot, m, heq⟩ |
    ⟨htakes, ⟨hnone, m, heq⟩ | ⟨i, hi, heq⟩⟩
  · refine iff_of_false ?_ fun h => hnot h.1
    rintro ⟨i, hfree, hused, -⟩
    rw [heq] at hused
    exact absurd (hfree.symm.trans hused) (by decide)
  · refine iff_of_false ?_ fun h => h.2.1 hnone
    rintro ⟨i, hfree, -⟩
    exact firstSlot_none hnone i hfree
  · have hsector : (fs.mkdir name uninit).currentSector =
        setDirEntry fs.currentSector i
          (newDirEntry (dirEntry fs.currentSector i) name fs.findFreeCluster) := by
      rw [currentSector, hplace.sector, hplace.cluster, heq]
      simp [put]
    have hslot : fs.freeSlot ≠ none := by
      rw [hi]
      exact Option.some_ne_none i
    rw [Adds, hsector]
    have hfree := firstSlot_some hi
    refine ⟨?_, fun h => ⟨i, hfree, ?_, ?_⟩⟩
    · rintro ⟨j, hfree, hused, -⟩
      refine ⟨htakes, hslot, fun hhead => ?_⟩
      by_cases hji : j = i
      · rw [hji, dirEntry_setDirEntry_self,
          (isFree_newDirEntry _ name _).2 hhead] at hused
        cases hused
      · rw [dirEntry_setDirEntry_of_ne _ hji] at hused
        exact absurd (hfree.symm.trans hused) (by decide)
    · rw [dirEntry_setDirEntry_self, ← Bool.not_eq_true, isFree_newDirEntry]
      exact h.2.2
    · rw [dirEntry_setDirEntry_self]
      rfl

/-- Sectors coincide, and all that `mkdir` writes is there already. Where FAT
and data are apart this does not happen. -/
structure Overlaid (fs : Fs) (name : Str) : Prop where
  full : fs.freeSlot = none →
    fs.fatSector fs.findFreeCluster = fs.getSectorByCluster fs.findFreeCluster ∧
      fs.diskMgr.sectors 1 (fs.getSectorByCluster fs.findFreeCluster) =
        dotEntries fs.findFreeCluster (dotdotOf fs.currentDirCluster)
  entry : ∀ i, fs.freeSlot = some i →
    (fs.fatSector fs.findFreeCluster =
        fs.getSectorByCluster fs.findFreeCluster ∨
      fs.fatSector fs.findFreeCluster =
        fs.getSectorByCluster fs.currentDirCluster) ∧
    (fs.getSectorByCluster fs.findFreeCluster =
        fs.getSectorByCluster fs.currentDirCluster ∨
      fs.diskMgr.sectors 1 (fs.getSectorByCluster fs.findFreeCluster) =
        dotEntries fs.findFreeCluster (dotdotOf fs.currentDirCluster)) ∧
    setDirEntry fs.currentSector i (newDirEntry (dirEntry fs.currentSector i)
      name fs.findFreeCluster) = fs.currentSector

theorem not_overlaid {g : Shape} (hg : Geometry fs g)
    (hc : g.Exists fs.currentDirCluster) (hzero : fs.findFreeCluster ≠ 0) :
    ¬ fs.Overlaid name := by
  obtain ⟨hexist, hin, -⟩ := findFreeCluster_spec hg hzero
  have hnew := hg.fatSector_ne_sector hin hexist
  have hcurrent := hg.fatSector_ne_sector hin hc
  intro h
  cases hslot : fs.freeSlot with
  | none => exact hnew (h.full hslot).1
  | some i => exact (h.entry i hslot).1.elim hnew hcurrent

/-- The word of the cluster is not what `mkdir` stores there. -/
theorem setFatWord_ne (hzero : fs.findFreeCluster ≠ 0) :
    setFatWord (fs.diskMgr.sectors 1 (fs.fatSector fs.findFreeCluster))
      (fatOffset fs.findFreeCluster) 0x0FFFFFFF ≠
        fs.diskMgr.sectors 1 (fs.fatSector fs.findFreeCluster) := by
  obtain ⟨-, -, -, hfree⟩ := findFreeCluster_free hzero
  intro h
  rw [← h, fatWord_setFatWord_self] at hfree
  exact absurd hfree (by decide)

theorem diskMgr_eq_iff (hcount : fs'.diskMgr.driveCount = fs.diskMgr.driveCount)
    (hdrives : ∀ drive ≠ 1, fs'.diskMgr.sectors drive = fs.diskMgr.sectors drive) :
    fs'.diskMgr = fs.diskMgr ↔
      ∀ lba, fs'.diskMgr.sectors 1 lba = fs.diskMgr.sectors 1 lba := by
  refine ⟨fun h lba => by rw [h], fun h => ?_⟩
  have hsectors : fs'.diskMgr.sectors = fs.diskMgr.sectors := by
    funext drive
    by_cases hdrive : drive = 1
    · rw [hdrive]
      exact funext h
    · exact hdrives drive hdrive
  calc fs'.diskMgr
      = ⟨fs'.diskMgr.driveCount, fs'.diskMgr.sectors⟩ := rfl
    _ = fs.diskMgr := by rw [hcount, hsectors]

/-- The writes of a `mkdir` that takes a cluster leave the disk as it was only
where they coincide. -/
theorem diskMgr_mkdir_iff (htakes : fs.Takes name) (uninit : Sector) :
    (fs.mkdir name uninit).diskMgr = fs.diskMgr ↔ fs.Overlaid name := by
  have hword := setFatWord_ne htakes.2.2
  have hplace : fs.SamePlace (fs.mkdir name uninit) := samePlace_mkdir name uninit
  rcases mkdir_outcomes fs name uninit with ⟨hnot, -⟩ |
    ⟨-, ⟨hnone, m, heq⟩ | ⟨i, hi, heq⟩⟩
  · exact absurd htakes hnot
  · have hsectors : (fs.mkdir name uninit).diskMgr.sectors =
        (fs.made uninit).diskMgr.sectors := by
      rw [heq]
      rfl
    rw [diskMgr_eq_iff hplace.driveCount fun drive hdrive => by
      rw [hsectors, made_ready htakes.1]
      simp [put, hdrive], hsectors, made_ready htakes.1]
    simp only [put, Function.update_self, update_two_iff hword]
    refine ⟨fun h => ⟨fun _ => h, fun i hi => ?_⟩, fun h => h.full hnone⟩
    rw [hnone] at hi
    cases hi
  · rw [diskMgr_eq_iff hplace.driveCount fun drive hdrive => by
      rw [heq, made_ready htakes.1]
      simp [put, hdrive], heq, made_ready htakes.1]
    simp only [put, Function.update_self, update_three_iff hword]
    refine ⟨fun h => ⟨fun hnone => ?_, fun j hj => ?_⟩, fun h => h.entry i hi⟩
    · rw [hi] at hnone
      cases hnone
    · obtain rfl := Option.some.inj (hi.symm.trans hj)
      exact h

end Fs

/-- A `mkdir` that adds no entry has changed nothing on the disk, if and only if
it does not come to take a cluster without a slot for its entry, or for a name
that marks it as removed. -/
theorem mkdir_atomic_iff (fs : Fs) (name : Str) (uninit : Sector) :
    (¬ fs.Adds (fs.mkdir name uninit) name →
        (fs.mkdir name uninit).diskMgr = fs.diskMgr) ↔
      (fs.Ready → fs.findFile name = none → fs.findFreeCluster ≠ 0 →
        ((∃ i, (dirEntry fs.currentSector i).isFree = true) ∧
          name.headD 0 ≠ 0xE5) ∨ fs.Overlaid name) := by
  have hslot : (∃ i, (dirEntry fs.currentSector i).isFree = true) ↔
      fs.freeSlot ≠ none := by
    rw [Ne, Fs.freeSlot, firstSlot, List.find?_eq_none]
    simp
  rw [Fs.adds_mkdir_iff, hslot]
  by_cases htakes : fs.Takes name
  · rw [Fs.diskMgr_mkdir_iff htakes]
    refine ⟨fun h _ _ _ => ?_, fun h hnot => ?_⟩
    · by_cases hadds : fs.freeSlot ≠ none ∧ name.headD 0 ≠ 0xE5
      · exact .inl hadds
      · exact .inr (h fun hall => hadds hall.2)
    · exact (h htakes.1 htakes.2.1 htakes.2.2).resolve_left
        fun hadds => hnot ⟨htakes, hadds⟩
  · refine iff_of_true (fun _ => ?_)
      fun hready hnew hzero => absurd ⟨hready, hnew, hzero⟩ htakes
    rcases Fs.mkdir_outcomes fs name uninit with ⟨-, m, heq⟩ | ⟨hgoes, -⟩
    · rw [heq]
      rfl
    · exact absurd hgoes htakes

/-! ## A root without a free slot -/

/-- Sixteen empty files, `A` to `P`. -/
def fullDirectory : Sector :=
  Vector.ofFn fun k =>
    if k.val % 32 = 0 then 0x41 + UInt8.ofNat (k.val / 32)
    else if k.val % 32 < 11 then space
    else if k.val % 32 = 11 then 0x20
    else 0

theorem dirEntry_fullDirectory (i : Fin 16) :
    firstByte (dirEntry fullDirectory i).name = 0x41 + UInt8.ofNat i.val ∧
      (dirEntry fullDirectory i).attributes = 0x20 ∧
      (dirEntry fullDirectory i).clusterHigh = 0 ∧
      (dirEntry fullDirectory i).clusterLow = 0 := by
  have hi := i.isLt
  have hmod : ∀ k < 32, (i.val * 32 + k) % 32 = k := by omega
  have hdiv : i.val * 32 / 32 = i.val := by omega
  simp [dirEntry, DirEntry.ofBytes, firstByte, record, fullDirectory, hmod,
    hdiv, le16]

theorem firstByte_fullDirectory (i : Fin 16) :
    0x41 ≤ (firstByte (dirEntry fullDirectory i).name).toNat ∧
      (firstByte (dirEntry fullDirectory i).name).toNat ≤ 0x50 := by
  have hi := i.isLt
  rw [(dirEntry_fullDirectory i).1, UInt8.toNat_add, UInt8.toNat_ofNat']
  simp only [UInt8.reduceToNat]
  omega

/-- The formatted volume with its root full. -/
def fullRoot : Fs := formatted.put 132 fullDirectory

theorem isFree_fullDirectory (i : Fin 16) :
    (dirEntry fullDirectory i).isFree = false := by
  have hrange := firstByte_fullDirectory i
  rw [DirEntry.isFree, Bool.or_eq_false_iff]
  refine ⟨beq_eq_false_iff_ne.2 fun h => ?_, beq_eq_false_iff_ne.2 fun h => ?_⟩
  · rw [h] at hrange
    exact absurd hrange.1 (by decide)
  · rw [h] at hrange
    exact absurd hrange.2 (by decide)

theorem volume_fullRoot : fullRoot.volume ⟨12798, 100⟩ =
    (formatted.volume ⟨12798, 100⟩).setDir 2 (dirEntry fullDirectory) := by
  have hroot : formatted.getSectorByCluster 2 = 132 := by decide
  have hput := geometry_formatted.volume_put_sector sound_formatted.exists
    fullDirectory
  rwa [show formatted.currentDirCluster = 2 from rfl, hroot] at hput

theorem fullRoot_fat (c : UInt32) : (fullRoot.volume ⟨12798, 100⟩).fat c =
    if c = 2 then 0x0FFFFFFF else 0 := by
  rw [volume_fullRoot]
  exact formatted_fat c

/-- A volume on which there are empty files and nothing else. -/
theorem Volume.wellFormed_of_files {v : Volume} {g : Shape}
    (hroot : v.fat 2 ≠ 0) (hfile : ∀ x i, (v.dir x i).Live →
      (v.dir x i).isDirectory = false ∧ (v.dir x i).cluster = 0) :
    v.WellFormed g := by
  have hleaf : ∀ x i y, v.subdir x i ≠ some y := by
    intro x i y hedge
    obtain ⟨hlive, hdir, -⟩ := subdir_eq_some.1 hedge
    rw [(hfile x i hlive).1] at hdir
    cases hdir
  constructor
  case tree =>
    exact ⟨fun x i _ => hleaf x i 2,
      fun x i x' i' y _ _ hedge => absurd hedge (hleaf x i y)⟩
  case exist => exact fun x i y _ hedge => absurd hedge (hleaf x i y)
  case dotdot => exact fun x i y _ hedge => absurd hedge (hleaf x i y)
  case rootUsed => exact hroot
  case used => exact fun x i _ hlive hc => absurd (hfile x i hlive).2 hc

theorem sound_fullRoot : fullRoot.Sound ⟨12798, 100⟩ := by
  refine ⟨geometry_formatted.samePlace Fs.samePlace_put, ?_, .root⟩
  refine Volume.wellFormed_of_files ?_ fun x i hlive => ?_
  · rw [fullRoot_fat]
    decide
  · rw [volume_fullRoot] at hlive ⊢
    by_cases hx : x = 2
    · rw [hx, Volume.setDir] at hlive ⊢
      simp only [Function.update_self] at hlive ⊢
      obtain ⟨-, hattributes, hhigh, hlow⟩ := dirEntry_fullDirectory i
      refine ⟨?_, DirEntry.cluster_eq_zero hhigh hlow⟩
      rw [DirEntry.isDirectory, hattributes]
      decide
    · rw [Volume.setDir] at hlive
      simp only [Function.update_of_ne hx] at hlive
      exact absurd hlive (DirEntry.not_live_of_isFree (formatted_dir x i))

/-- No file of that directory is called `q`. -/
theorem not_match_fullDirectory (i : Fin 16) :
    fatNameMatch (lit "q") (dirEntry fullDirectory i).name = false := by
  rw [← Bool.not_eq_true]
  intro hmatch
  have hrange := firstByte_fullDirectory i
  rcases firstByte_of_match hmatch with hfirst | hfirst
  · rw [hfirst] at hrange
    exact absurd hrange (by decide)
  · rw [hfirst] at hrange
    exact absurd hrange (by decide)

theorem takes_fullRoot : fullRoot.Takes (lit "q") := by
  have hready : fullRoot.Ready := (by decide : (1 : UInt8) < 2)
  refine ⟨hready, ?_, ?_⟩
  · rw [Fs.findFile_eq hready sound_fullRoot.exists, volume_fullRoot]
    refine Option.map_eq_none_iff.2 (List.find?_eq_none.2 fun i _ => ?_)
    show ¬ (!(dirEntry fullDirectory i).isFree &&
      fatNameMatch (lit "q") (dirEntry fullDirectory i).name) = true
    rw [not_match_fullDirectory, Bool.and_false]
    exact Bool.false_ne_true
  · refine Fs.findFreeCluster_ne_zero hready sound_fullRoot.geometry (c := 3)
      (by decide) (by decide) ?_
    rw [fullRoot_fat]
    decide

/-- `mkdir` in a full directory adds no entry and leaves its first two
writes. -/
theorem not_atomic_fullRoot :
    fullRoot.Sound ⟨12798, 100⟩ ∧
      ¬ fullRoot.Adds (fullRoot.mkdir (lit "q") zeroSector) (lit "q") ∧
      (fullRoot.mkdir (lit "q") zeroSector).diskMgr ≠ fullRoot.diskMgr := by
  have htakes := takes_fullRoot
  have hsector : fullRoot.currentSector = fullDirectory := by
    have hroot : fullRoot.getSectorByCluster 2 = 132 := by decide
    show fullRoot.diskMgr.sectors 1 (fullRoot.getSectorByCluster 2) = _
    rw [hroot]
    simp [fullRoot, Fs.put]
  have hfull : fullRoot.freeSlot = none := by
    rw [Fs.freeSlot, hsector]
    refine List.find?_eq_none.2 fun i _ => ?_
    rw [isFree_fullDirectory]
    exact Bool.false_ne_true
  refine ⟨sound_fullRoot, fun hadds => ?_, fun hsame => ?_⟩
  · exact ((Fs.adds_mkdir_iff _ _ _).1 hadds).2.1 hfull
  · exact Fs.not_overlaid sound_fullRoot.geometry sound_fullRoot.exists
      htakes.2.2 ((Fs.diskMgr_mkdir_iff htakes zeroSector).1 hsame)

end TermOS.Storage
