import TermOS.Proofs.DiskVolume

/-!
# The commands on the volume

`mkdir`, `touch` and `rm` once more, on a volume instead of on sectors: which
entry they pick, and what they put there. The equations say that the driver's
functions do just that to the volume on the disk, and nothing at all when
drive 1 is missing. For `mkdir` there is one thing to see. It reads the
current directory before it allocates and writes it back after, so the cluster
it allocates had better not be the current directory, and since that one is
not free in the FAT, it is not.
-/

namespace TermOS.Storage

open TermOS.Lib

namespace Volume

/-- `fat32_find_file` in the directory `c`. -/
def lookupSlot (v : Volume) (c : UInt32) (name : Str) : Option (Fin 16) :=
  firstSlot fun i => !(v.dir c i).isFree && fatNameMatch name (v.dir c i).name

def lookup (v : Volume) (c : UInt32) (name : Str) : Option DirEntry :=
  (v.lookupSlot c name).map (v.dir c)

def freeSlot (v : Volume) (c : UInt32) : Option (Fin 16) :=
  firstSlot fun i => (v.dir c i).isFree

/-- The entry `rm` takes, which may be a removed one. -/
def matchSlot (v : Volume) (c : UInt32) (name : Str) : Option (Fin 16) :=
  firstSlot fun i => fatNameMatch name (v.dir c i).name

def touch (v : Volume) (c : UInt32) (name : Str) : Volume :=
  match v.freeSlot c with
  | none => v
  | some i => v.setSlot c i (newFileEntry (v.dir c i) name)

def rm (v : Volume) (c : UInt32) (filename : Str) : Volume :=
  match v.matchSlot c filename with
  | none => v
  | some i => v.setSlot c i (removed (v.dir c i))

/-- `mkdir`, given the cluster it found, or zero. -/
def mkdir (v : Volume) (c : UInt32) (name : Str) (new : UInt32) : Volume :=
  if (v.lookupSlot c name).isSome ∨ new = 0 then v
  else
    match v.freeSlot c with
    | none => v.allocate new (dotdotOf c)
    | some i => v.link c i (newDirEntry (v.dir c i) name new) new

/-- A command, in the directory `c` and with `new` as the cluster to take. -/
def perform (v : Volume) (c new : UInt32) : Op → Volume
  | .cd _ => v
  | .mkdir name _ => v.mkdir c name new
  | .touch name _ => v.touch c name
  | .rm filename _ => v.rm c filename

end Volume

namespace Fs

variable {fs : Fs} {g : Shape} {lba : UInt32} {s : Sector}

theorem cerr_errln_ne (fs : Fs) (m : Str) : (fs.errln m).cerr ≠ fs.cerr := by
  intro h
  have hlen := congrArg List.length h
  simp only [errln, List.length_append, List.length_singleton] at hlen
  omega

theorem read_ready (h : fs.Ready) :
    fs.diskMgr.readSector 1 lba = some (fs.diskMgr.sectors 1 lba) :=
  if_neg (UInt8.not_le.2 h)

theorem read_not_ready (h : ¬ fs.Ready) : fs.diskMgr.readSector 1 lba = none :=
  if_pos (UInt8.not_lt.1 h)

theorem write_ready (h : fs.Ready) : fs.write lba s = (true, fs.put lba s) := by
  rw [write, DiskManager.writeSector, if_neg (UInt8.not_le.2 h)]
  rfl

theorem write_not_ready (h : ¬ fs.Ready) : fs.write lba s = (false, fs) := by
  rw [write, DiskManager.writeSector, if_pos (UInt8.not_lt.1 h)]

theorem Ready.samePlace {fs' : Fs} (h : fs.Ready) (hs : fs.SamePlace fs') :
    fs'.Ready := by
  rw [Ready, hs.driveCount]
  exact h

/-- The current directory, as the volume has it. -/
theorem dirEntry_current (hc : g.Exists fs.currentDirCluster) :
    dirEntry (fs.diskMgr.sectors 1 (fs.getSectorByCluster fs.currentDirCluster)) =
      (fs.volume g).dir fs.currentDirCluster := (if_pos hc).symm

theorem findFile_eq (h : fs.Ready) (hc : g.Exists fs.currentDirCluster)
    (name : Str) :
    fs.findFile name = (fs.volume g).lookup fs.currentDirCluster name := by
  simp only [findFile, read_ready h, dirEntry_current hc]
  rfl

theorem findFile_not_ready (h : ¬ fs.Ready) (name : Str) :
    fs.findFile name = none := by
  simp only [findFile, read_not_ready h]

theorem getParentCluster_eq (h : fs.Ready) (hc : g.Exists fs.currentDirCluster) :
    fs.getParentCluster = if fs.currentDirCluster = 2 then 0
      else if firstByte ((fs.volume g).dir fs.currentDirCluster 1).name ≠ dot
        then 0
      else ((fs.volume g).dir fs.currentDirCluster 1).cluster := by
  simp only [getParentCluster, read_ready h, dirEntry_current hc]

/-! ## `touch` and `rm` -/

/-- A directory sector with one entry replaced. -/
theorem volume_put_slot (hg : Geometry fs g)
    (hc : g.Exists fs.currentDirCluster) (i : Fin 16) (e : DirEntry) :
    (fs.put (fs.getSectorByCluster fs.currentDirCluster)
      (setDirEntry (fs.diskMgr.sectors 1
        (fs.getSectorByCluster fs.currentDirCluster)) i e)).volume g =
      (fs.volume g).setSlot fs.currentDirCluster i e := by
  rw [hg.volume_put_sector hc, dirEntry_setDirEntry, dirEntry_current hc,
    Volume.setSlot]

theorem samePlace_touch (name : Str) (uninit : Sector) :
    fs.SamePlace (fs.touch name uninit) := by
  by_cases h : fs.Ready
  · simp only [touch, write_ready h]
    split
    · exact .refl fs
    · exact samePlace_put
  · simp only [touch, write_not_ready h]
    split <;> exact .refl fs

theorem volume_touch (hg : Geometry fs g) (hc : g.Exists fs.currentDirCluster)
    (name : Str) (uninit : Sector) :
    (fs.Ready → (fs.touch name uninit).volume g =
      (fs.volume g).touch fs.currentDirCluster name) ∧
    (¬ fs.Ready → (fs.touch name uninit).volume g = fs.volume g) := by
  refine ⟨?_, ?_⟩
  · intro h
    simp only [touch, read_ready h, write_ready h, Option.getD_some,
      dirEntry_current hc, Volume.touch, Volume.freeSlot]
    cases firstSlot fun i =>
        ((fs.volume g).dir fs.currentDirCluster i).isFree with
    | none => rfl
    | some i => exact volume_put_slot hg hc _ _
  · intro h
    simp only [touch, write_not_ready h]
    split <;> rfl

theorem samePlace_rm (filename : Str) (uninit : Sector) :
    fs.SamePlace (fs.rm filename uninit) := by
  by_cases h : fs.Ready
  · simp only [rm, write_ready h]
    split
    · exact samePlace_errln _
    · exact samePlace_put
  · simp only [rm, write_not_ready h]
    split
    · exact samePlace_errln _
    · exact .refl fs

theorem volume_rm (hg : Geometry fs g) (hc : g.Exists fs.currentDirCluster)
    (filename : Str) (uninit : Sector) :
    (fs.Ready → (fs.rm filename uninit).volume g =
      (fs.volume g).rm fs.currentDirCluster filename) ∧
    (¬ fs.Ready → (fs.rm filename uninit).volume g = fs.volume g) := by
  refine ⟨?_, ?_⟩
  · intro h
    simp only [rm, read_ready h, write_ready h, Option.getD_some,
      dirEntry_current hc, Volume.rm, Volume.matchSlot]
    cases firstSlot fun i =>
        fatNameMatch filename ((fs.volume g).dir fs.currentDirCluster i).name with
    | none => rfl
    | some i => exact volume_put_slot hg hc _ _
  · intro h
    simp only [rm, write_not_ready h]
    split <;> rfl

/-! ## `mkdir` -/

/-- Where the search finds the word of a cluster. -/
theorem fatSector_ofNat {i : Nat} (hi : i < 100) (j : Fin 128) :
    (UInt32.ofNat (i * 128 + j.val)).toNat = i * 128 + j.val ∧
      fs.fatSector (UInt32.ofNat (i * 128 + j.val)) =
        fs.fatStartSector + UInt32.ofNat i ∧
      fatOffset (UInt32.ofNat (i * 128 + j.val)) = j := by
  have hj := j.isLt
  have hnat : (UInt32.ofNat (i * 128 + j.val)).toNat = i * 128 + j.val := by
    rw [UInt32.toNat_ofNat']
    omega
  have hsector : UInt32.ofNat (i * 128 + j.val) / 128 = UInt32.ofNat i := by
    apply UInt32.toNat_inj.1
    have hdiv : (UInt32.ofNat (i * 128 + j.val) / 128).toNat =
        (UInt32.ofNat (i * 128 + j.val)).toNat / 128 := UInt32.toNat_div _ 128
    rw [hdiv, hnat, UInt32.toNat_ofNat']
    omega
  refine ⟨hnat, by rw [fatSector, hsector], ?_⟩
  apply Fin.ext
  simp only [fatOffset, hnat]
  omega

theorem fatWord_eq_fat (hg : Geometry fs g) {i : Nat} (hi : i < 100)
    (j : Fin 128) :
    fatWord (fs.diskMgr.sectors 1 (fs.fatStartSector + UInt32.ofNat i)) j =
      (fs.volume g).fat (UInt32.ofNat (i * 128 + j.val)) := by
  obtain ⟨hnat, hsector, hoffset⟩ := @fatSector_ofNat fs i hi j
  have hin : g.InFat (UInt32.ofNat (i * 128 + j.val)) := by
    have hj := j.isLt
    have hsectors := hg.fatSectors
    rw [Shape.InFat, hnat]
    omega
  simp only [volume, if_pos hin, hsector, hoffset]

/-- A cluster that the search returns is free. -/
theorem findFreeFrom_free {is : List Nat} (his : ∀ i ∈ is, i < 100)
    (h : fs.findFreeFrom is ≠ 0) :
    fs.Ready ∧ 2 ≤ (fs.findFreeFrom is).toNat ∧
      (fs.findFreeFrom is).toNat < 12800 ∧
      fatWord (fs.diskMgr.sectors 1 (fs.fatSector (fs.findFreeFrom is)))
        (fatOffset (fs.findFreeFrom is)) = 0 := by
  induction is with
  | nil => exact absurd rfl h
  | cons i is ih =>
      rw [findFreeFrom] at h ⊢
      split at h
      · exact absurd rfl h
      · next fatTable hread =>
          have hready : fs.Ready := by
            by_contra hn
            rw [read_not_ready hn] at hread
            cases hread
          obtain rfl := Option.some.inj ((read_ready hready).symm.trans hread)
          split at h
          · next j hfind =>
              have hj := j.isLt
              have hi := his i List.mem_cons_self
              obtain ⟨hnat, hsector, hoffset⟩ := @fatSector_ofNat fs i hi j
              have hp := List.find?_some hfind
              rw [Bool.and_eq_true, beq_iff_eq, decide_eq_true_iff] at hp
              rw [hnat, hsector, hoffset]
              exact ⟨hready, hp.2, by omega, hp.1⟩
          · exact ih (fun k hk => his k (List.mem_cons_of_mem _ hk)) h

theorem findFreeCluster_free (h : fs.findFreeCluster ≠ 0) :
    fs.Ready ∧ 2 ≤ fs.findFreeCluster.toNat ∧
      fs.findFreeCluster.toNat < 12800 ∧
      fatWord (fs.diskMgr.sectors 1 (fs.fatSector fs.findFreeCluster))
        (fatOffset fs.findFreeCluster) = 0 :=
  findFreeFrom_free (fun _ hi => List.mem_range.1 hi) h

theorem findFreeCluster_spec (hg : Geometry fs g)
    (h : fs.findFreeCluster ≠ 0) :
    g.Exists fs.findFreeCluster ∧ g.InFat fs.findFreeCluster ∧
      (fs.volume g).fat fs.findFreeCluster = 0 := by
  obtain ⟨-, hle, hlt, hfree⟩ := findFreeCluster_free h
  have hclusters := hg.clusters
  have hsectors := hg.fatSectors
  have hin : g.InFat fs.findFreeCluster := Nat.lt_of_lt_of_le hlt (by omega)
  refine ⟨⟨hle, Nat.lt_of_lt_of_le hlt hclusters⟩, hin, ?_⟩
  simp only [volume, if_pos hin]
  exact hfree

/-- The search misses no free cluster in its range. -/
theorem findFreeFrom_ne_zero (hready : fs.Ready) (hg : Geometry fs g)
    {is : List Nat} (his : ∀ i ∈ is, i < 100) {i : Nat} (hi : i ∈ is)
    {j : Fin 128} (hle : 2 ≤ i * 128 + j.val)
    (hfree : (fs.volume g).fat (UInt32.ofNat (i * 128 + j.val)) = 0) :
    fs.findFreeFrom is ≠ 0 := by
  induction is with
  | nil => cases hi
  | cons k is ih =>
      rw [findFreeFrom, read_ready hready]
      simp only
      split
      · next l hfind =>
          -- What is found is not cluster 0.
          have hp := List.find?_some hfind
          have hk := his k List.mem_cons_self
          have hl := l.isLt
          rw [Bool.and_eq_true, decide_eq_true_iff] at hp
          intro hzero
          have hnat := congrArg UInt32.toNat hzero
          rw [UInt32.toNat_ofNat'] at hnat
          have hzero' : (0 : UInt32).toNat = 0 := rfl
          omega
      · next hnone =>
          rcases List.mem_cons.1 hi with rfl | hrest
          · have hp := List.find?_eq_none.1 hnone j (List.mem_finRange j)
            rw [fatWord_eq_fat hg (his i List.mem_cons_self), hfree] at hp
            simp only [beq_self_eq_true, Bool.true_and, decide_eq_true_eq] at hp
            exact absurd hle hp
          · exact ih (fun m hm => his m (List.mem_cons_of_mem _ hm)) hrest

theorem findFreeCluster_ne_zero (hready : fs.Ready) (hg : Geometry fs g)
    {c : UInt32} (hle : 2 ≤ c.toNat) (hlt : c.toNat < 12800)
    (hfree : (fs.volume g).fat c = 0) : fs.findFreeCluster ≠ 0 := by
  have hsplit : c.toNat / 128 * 128 + c.toNat % 128 = c.toNat :=
    Nat.div_add_mod' c.toNat 128
  refine findFreeFrom_ne_zero hready hg (fun i hi => List.mem_range.1 hi)
    (List.mem_range.2 (by omega : c.toNat / 128 < 100)) (j := fatOffset c) ?_ ?_
  · simp only [fatOffset, hsplit]
    exact hle
  · simp only [fatOffset, hsplit, UInt32.ofNat_toNat]
    exact hfree

theorem updateFat_ready (h : fs.Ready) (uninit : Sector) (c value : UInt32) :
    fs.updateFat uninit c value = fs.put (fs.fatSector c)
      (setFatWord (fs.diskMgr.sectors 1 (fs.fatSector c)) (fatOffset c)
        value) := by
  simp only [updateFat, read_ready h, write_ready h, Option.getD_some, fatSector]

theorem samePlace_updateFat (uninit : Sector) (c value : UInt32) :
    fs.SamePlace (fs.updateFat uninit c value) := by
  by_cases h : fs.Ready
  · rw [updateFat_ready h]
    exact samePlace_put
  · simp only [updateFat, write_not_ready h]
    exact .refl fs

theorem mkdir_not_ready (h : ¬ fs.Ready) (name : Str) (uninit : Sector) :
    fs.mkdir name uninit = fs.errln (lit "Error reading parent directory!") := by
  simp only [mkdir, findFile_not_ready h, read_not_ready h]

/-- `mkdir` when drive 1 is there, with its new cluster in place as a directory
in `made`. -/
theorem mkdir_eq (h : fs.Ready) (name : Str) (uninit : Sector) :
    fs.mkdir name uninit =
      let parentSector := fs.getSectorByCluster fs.currentDirCluster
      let buffer := fs.diskMgr.sectors 1 parentSector
      let new := fs.findFreeCluster
      let made := (fs.updateFat uninit new 0x0FFFFFFF).put
        (fs.getSectorByCluster new)
        (dotEntries new (dotdotOf fs.currentDirCluster))
      if (fs.findFile name).isSome then
        fs.errln (lit "Error: Directory or file already exists!")
      else if new = 0 then fs.errln (lit "No free clusters!")
      else
        (firstSlot fun i => (dirEntry buffer i).isFree).elim
          (made.errln (lit "No free entry in parent directory!"))
          fun i => made.put parentSector (setDirEntry buffer i
            (newDirEntry (dirEntry buffer i) name new)) := by
  simp only [mkdir, read_ready h]
  cases fs.findFile name with
  | some e => rfl
  | none =>
      simp only [Option.isSome_none, Bool.false_eq_true, if_false]
      by_cases hzero : fs.findFreeCluster = 0
      · rw [if_pos hzero, if_pos hzero]
      · rw [if_neg hzero, if_neg hzero]
        have hplace : fs.SamePlace
            (fs.updateFat uninit fs.findFreeCluster 0x0FFFFFFF) :=
          samePlace_updateFat uninit _ _
        generalize fs.updateFat uninit fs.findFreeCluster 0x0FFFFFFF = fs₁ at *
        have hparent : (if fs₁.currentDirCluster = 2 then 0
            else fs₁.currentDirCluster) = dotdotOf fs.currentDirCluster := by
          rw [hplace.cluster]
          rfl
        rw [hparent, hplace.sector, write_ready (h.samePlace hplace)]
        simp only [write_ready
          ((h.samePlace hplace).samePlace samePlace_put)]
        cases firstSlot fun i => (dirEntry (fs.diskMgr.sectors 1
          (fs.getSectorByCluster fs.currentDirCluster)) i).isFree <;> rfl

/-- The sector of the current directory. -/
def currentSector (fs : Fs) : Sector :=
  fs.diskMgr.sectors 1 (fs.getSectorByCluster fs.currentDirCluster)

/-- The slot `mkdir` and `touch` take. -/
def freeSlot (fs : Fs) : Option (Fin 16) :=
  firstSlot fun i => (dirEntry fs.currentSector i).isFree

/-- What lets `mkdir` get as far as to take a cluster. -/
def Takes (fs : Fs) (name : Str) : Prop :=
  fs.Ready ∧ fs.findFile name = none ∧ fs.findFreeCluster ≠ 0

/-- The new cluster is taken and is a directory, but nothing names it yet. -/
def made (fs : Fs) (uninit : Sector) : Fs :=
  (fs.updateFat uninit fs.findFreeCluster 0x0FFFFFFF).put
    (fs.getSectorByCluster fs.findFreeCluster)
    (dotEntries fs.findFreeCluster (dotdotOf fs.currentDirCluster))

/-- The ways `mkdir` ends: at once, with an error; with an error behind its
first two writes; or with all three. -/
theorem mkdir_outcomes (fs : Fs) (name : Str) (uninit : Sector) :
    (¬ fs.Takes name ∧ ∃ m, fs.mkdir name uninit = fs.errln m) ∨
      (fs.Takes name ∧
        ((fs.freeSlot = none ∧
            ∃ m, fs.mkdir name uninit = (fs.made uninit).errln m) ∨
          ∃ i, fs.freeSlot = some i ∧ fs.mkdir name uninit =
            (fs.made uninit).put (fs.getSectorByCluster fs.currentDirCluster)
              (setDirEntry fs.currentSector i (newDirEntry
                (dirEntry fs.currentSector i) name fs.findFreeCluster)))) := by
  by_cases h : fs.Ready
  · rw [mkdir_eq h]
    simp only
    by_cases hfound : (fs.findFile name).isSome = true
    · rw [if_pos hfound]
      refine .inl ⟨fun htakes => ?_, _, rfl⟩
      rw [htakes.2.1] at hfound
      cases hfound
    · rw [if_neg hfound]
      by_cases hzero : fs.findFreeCluster = 0
      · rw [if_pos hzero]
        exact .inl ⟨fun htakes => htakes.2.2 hzero, _, rfl⟩
      · rw [if_neg hzero]
        refine .inr ⟨⟨h, Option.not_isSome_iff_eq_none.1 hfound, hzero⟩, ?_⟩
        rw [freeSlot, currentSector]
        cases firstSlot fun i => (dirEntry (fs.diskMgr.sectors 1
          (fs.getSectorByCluster fs.currentDirCluster)) i).isFree with
        | none => exact .inl ⟨rfl, _, rfl⟩
        | some i => exact .inr ⟨i, rfl, rfl⟩
  · exact .inl ⟨fun htakes => h htakes.1, _, mkdir_not_ready h name uninit⟩

theorem samePlace_made (uninit : Sector) : fs.SamePlace (fs.made uninit) :=
  (samePlace_updateFat uninit _ _).trans samePlace_put

theorem samePlace_mkdir (name : Str) (uninit : Sector) :
    fs.SamePlace (fs.mkdir name uninit) := by
  rcases mkdir_outcomes fs name uninit with ⟨-, m, heq⟩ |
    ⟨-, ⟨-, m, heq⟩ | ⟨i, -, heq⟩⟩ <;> rw [heq]
  · exact samePlace_errln m
  · exact (samePlace_made uninit).trans (samePlace_errln m)
  · exact (samePlace_made uninit).trans samePlace_put

/-- The two writes that make a cluster a directory. -/
theorem volume_allocate (h : fs.Ready) (hg : Geometry fs g) {new : UInt32}
    (hexist : g.Exists new) (hin : g.InFat new) (uninit : Sector)
    (parent : UInt32) :
    ((fs.updateFat uninit new 0x0FFFFFFF).put (fs.getSectorByCluster new)
      (dotEntries new parent)).volume g = (fs.volume g).allocate new parent := by
  have hg' : Geometry (fs.updateFat uninit new 0x0FFFFFFF) g :=
    hg.samePlace (samePlace_updateFat uninit new _)
  have hput := hg'.volume_put_sector hexist (dotEntries new parent)
  rw [updateFat_ready h] at hput ⊢
  rw [hg.volume_put_fatSector hin] at hput
  exact hput

/-- What is left of `mkdir` when drive 1 is there. -/
theorem mkdir_ready (h : fs.Ready) (hg : Geometry fs g)
    (hc : g.Exists fs.currentDirCluster)
    (hused : (fs.volume g).fat fs.currentDirCluster ≠ 0) (name : Str)
    (uninit : Sector) :
    fs.SamePlace (fs.mkdir name uninit) ∧
      (fs.mkdir name uninit).volume g =
        (fs.volume g).mkdir fs.currentDirCluster name fs.findFreeCluster := by
  refine ⟨samePlace_mkdir name uninit, ?_⟩
  have hfound : fs.findFile name = none ↔
      ¬ ((fs.volume g).lookupSlot fs.currentDirCluster name).isSome = true := by
    rw [findFile_eq h hc, Volume.lookup, Option.map_eq_none_iff,
      Option.not_isSome_iff_eq_none]
  rw [Volume.mkdir]
  rcases mkdir_outcomes fs name uninit with ⟨hnot, m, heq⟩ | ⟨htakes, hrest⟩
  · have hstop : ((fs.volume g).lookupSlot fs.currentDirCluster
        name).isSome = true ∨ fs.findFreeCluster = 0 := by
      by_contra hgo
      rw [not_or] at hgo
      exact hnot ⟨h, hfound.2 hgo.1, hgo.2⟩
    rw [heq, if_pos hstop]
    rfl
  · obtain ⟨-, hnone, hzero⟩ := htakes
    rw [if_neg (not_or.2 ⟨hfound.1 hnone, hzero⟩)]
    obtain ⟨hexist, hin, hfree⟩ := findFreeCluster_spec hg hzero
    have hne : fs.currentDirCluster ≠ fs.findFreeCluster :=
      fun heq => hused (heq ▸ hfree)
    have hplace : fs.SamePlace (fs.made uninit) := samePlace_made uninit
    have hmade : (fs.made uninit).volume g =
        (fs.volume g).allocate fs.findFreeCluster
          (dotdotOf fs.currentDirCluster) :=
      volume_allocate h hg hexist hin uninit _
    have hcurrent : dirEntry fs.currentSector =
        (fs.volume g).dir fs.currentDirCluster := dirEntry_current hc
    have hslot : (fs.volume g).freeSlot fs.currentDirCluster = fs.freeSlot := by
      rw [freeSlot, hcurrent]
      rfl
    rw [hslot]
    rcases hrest with ⟨hfull, m, heq⟩ | ⟨i, hi, heq⟩
    · rw [heq, hfull]
      exact hmade
    · have hput := (hg.samePlace hplace).volume_put_sector hc
        (setDirEntry fs.currentSector i (newDirEntry
          (dirEntry fs.currentSector i) name fs.findFreeCluster))
      rw [hplace.sector, hmade, dirEntry_setDirEntry, hcurrent] at hput
      rw [heq, hi, hcurrent]
      simp only [Volume.link, Volume.setSlot, Volume.allocate_of_ne hne]
      exact hput

end Fs

end TermOS.Storage
