import TermOS.Proofs.Volume

/-!
# The volume on the disk

`Fs.volume` reads a volume off the sectors of drive 1. It is faithful as long
as no two clusters share a directory sector, no two share a word of the FAT,
and no directory lies in the FAT. That is arithmetic on LBAs, done here once.
What comes out are two equations, one for a write of a directory sector and
one for a write to the FAT, and with them the sectors disappear from the
proofs.
-/

namespace TermOS.Storage

open TermOS.Lib

/-- Where the FAT and the data of a volume of the given shape lie. -/
structure Geometry (fs : Fs) (g : Shape) : Prop where
  perCluster : 0 < fs.sectorsPerClusterGlobal.toNat
  dataFits : fs.dataStartSector.toNat +
    g.clusters * fs.sectorsPerClusterGlobal.toNat ≤ 2 ^ 32
  fatFits : fs.fatStartSector.toNat + g.fatSectors ≤ 2 ^ 32
  disjoint : fs.fatStartSector.toNat + g.fatSectors ≤ fs.dataStartSector.toNat ∨
    fs.dataStartSector.toNat +
      g.clusters * fs.sectorsPerClusterGlobal.toNat ≤ fs.fatStartSector.toNat
  fatSectors : 100 ≤ g.fatSectors
  clusters : 12800 ≤ g.clusters + 2

/-- The word of the FAT exists. -/
def Shape.InFat (g : Shape) (c : UInt32) : Prop := c.toNat < 128 * g.fatSectors

instance (g : Shape) (c : UInt32) : Decidable (g.InFat c) :=
  inferInstanceAs (Decidable (_ < _))

instance (g : Shape) (c : UInt32) : Decidable (g.Exists c) :=
  inferInstanceAs (Decidable (_ ∧ _))

namespace Fs

/-- The sector of the FAT with the word of a cluster. -/
def fatSector (fs : Fs) (c : UInt32) : UInt32 := fs.fatStartSector + c / 128

/-- The volume on drive 1. Words outside the FAT are zero, and clusters that
do not exist are empty. -/
def volume (fs : Fs) (g : Shape) : Volume where
  fat c := if g.InFat c
    then fatWord (fs.diskMgr.sectors 1 (fs.fatSector c)) (fatOffset c) else 0
  dir c := if g.Exists c
    then dirEntry (fs.diskMgr.sectors 1 (fs.getSectorByCluster c))
    else dirEntry zeroSector

/-- Drive 1 is there. -/
def Ready (fs : Fs) : Prop := 1 < fs.diskMgr.driveCount

/-- The state after a write that succeeded. -/
def put (fs : Fs) (lba : UInt32) (s : Sector) : Fs :=
  { fs with
    diskMgr := { fs.diskMgr with
      sectors := Function.update fs.diskMgr.sectors 1
        (Function.update (fs.diskMgr.sectors 1) lba s) } }

/-- Two states that differ in the sectors and in what was printed at most. -/
structure SamePlace (fs fs' : Fs) : Prop where
  driveCount : fs'.diskMgr.driveCount = fs.diskMgr.driveCount
  fatStart : fs'.fatStartSector = fs.fatStartSector
  dataStart : fs'.dataStartSector = fs.dataStartSector
  perCluster : fs'.sectorsPerClusterGlobal = fs.sectorsPerClusterGlobal
  cluster : fs'.currentDirCluster = fs.currentDirCluster
  path : fs'.currentPath = fs.currentPath

variable {fs fs' : Fs} {g : Shape} {c d lba : UInt32} {s : Sector}

theorem SamePlace.refl (fs : Fs) : fs.SamePlace fs := ⟨rfl, rfl, rfl, rfl, rfl, rfl⟩

theorem samePlace_put : fs.SamePlace (fs.put lba s) :=
  ⟨rfl, rfl, rfl, rfl, rfl, rfl⟩

theorem samePlace_errln (m : Str) : fs.SamePlace (fs.errln m) :=
  ⟨rfl, rfl, rfl, rfl, rfl, rfl⟩

theorem SamePlace.trans {fs'' : Fs} (h : fs.SamePlace fs')
    (h' : fs'.SamePlace fs'') : fs.SamePlace fs'' :=
  ⟨h'.1.trans h.1, h'.2.trans h.2, h'.3.trans h.3, h'.4.trans h.4,
    h'.5.trans h.5, h'.6.trans h.6⟩

theorem SamePlace.sector (h : fs.SamePlace fs') :
    fs'.getSectorByCluster = fs.getSectorByCluster := by
  funext c
  rw [getSectorByCluster, h.dataStart, h.perCluster]
  rfl

/-- The sector of a cluster where nothing wraps. -/
theorem toNat_getSectorByCluster (hle : 2 ≤ c.toNat)
    (hlt : fs.dataStartSector.toNat +
      (c.toNat - 2) * fs.sectorsPerClusterGlobal.toNat < 2 ^ 32) :
    (fs.getSectorByCluster c).toNat = fs.dataStartSector.toNat +
      (c.toNat - 2) * fs.sectorsPerClusterGlobal.toNat := by
  have hsub : (c - 2).toNat = c.toNat - 2 :=
    UInt32.toNat_sub_of_le c 2 (UInt32.le_iff_toNat_le.2 hle)
  rw [getSectorByCluster, UInt32.toNat_add, UInt32.toNat_mul, hsub,
    UInt8.toNat_toUInt32]
  rw [Nat.mod_eq_of_lt (a := (c.toNat - 2) * _) (by omega),
    Nat.mod_eq_of_lt (by omega)]

end Fs

theorem Geometry.samePlace {fs fs' : Fs} {g : Shape} (h : Geometry fs g)
    (hs : fs.SamePlace fs') : Geometry fs' g := by
  obtain ⟨-, hfat, hdata, hper, -, -⟩ := hs
  constructor
  case perCluster => exact hper ▸ h.perCluster
  case dataFits => rw [hdata, hper]; exact h.dataFits
  case fatFits => rw [hfat]; exact h.fatFits
  case disjoint => rw [hfat, hdata, hper]; exact h.disjoint
  case fatSectors => exact h.fatSectors
  case clusters => exact h.clusters

/-! ## Sectors do not alias -/

namespace Geometry

variable {fs : Fs} {g : Shape} {c d : UInt32} {s : Sector}

theorem toNat_sector (hg : Geometry fs g) (hc : g.Exists c) :
    (fs.getSectorByCluster c).toNat = fs.dataStartSector.toNat +
      (c.toNat - 2) * fs.sectorsPerClusterGlobal.toNat ∧
    (c.toNat - 2) * fs.sectorsPerClusterGlobal.toNat <
      g.clusters * fs.sectorsPerClusterGlobal.toNat := by
  obtain ⟨hle, hlt⟩ := hc
  have hprod : (c.toNat - 2) * fs.sectorsPerClusterGlobal.toNat <
      g.clusters * fs.sectorsPerClusterGlobal.toNat :=
    Nat.mul_lt_mul_of_pos_right (by omega) hg.perCluster
  have hfits := hg.dataFits
  exact ⟨Fs.toNat_getSectorByCluster hle (by omega), hprod⟩

theorem sector_inj (hg : Geometry fs g) (hc : g.Exists c) (hd : g.Exists d)
    (h : fs.getSectorByCluster c = fs.getSectorByCluster d) : c = d := by
  have hnat := congrArg UInt32.toNat h
  rw [(hg.toNat_sector hc).1, (hg.toNat_sector hd).1] at hnat
  have hmul := Nat.eq_of_mul_eq_mul_right hg.perCluster (Nat.add_left_cancel hnat)
  have hc2 := hc.1
  have hd2 := hd.1
  exact UInt32.toNat_inj.1 (by omega)

theorem toNat_fatSector (hg : Geometry fs g) (hc : g.InFat c) :
    (fs.fatSector c).toNat = fs.fatStartSector.toNat + c.toNat / 128 := by
  have hfits := hg.fatFits
  have hlt : c.toNat < 128 * g.fatSectors := hc
  have hdiv : (c / 128).toNat = c.toNat / 128 := UInt32.toNat_div c 128
  rw [Fs.fatSector, UInt32.toNat_add, hdiv]
  omega

theorem fatSector_ne_sector (hg : Geometry fs g) (hc : g.InFat c)
    (hd : g.Exists d) : fs.fatSector c ≠ fs.getSectorByCluster d := by
  intro h
  have hnat := congrArg UInt32.toNat h
  obtain ⟨hsec, hlt⟩ := hg.toNat_sector hd
  rw [hg.toNat_fatSector hc, hsec] at hnat
  have hc' : c.toNat < 128 * g.fatSectors := hc
  rcases hg.disjoint with hdis | hdis <;> omega

theorem fatWord_inj (hg : Geometry fs g) (hc : g.InFat c) (hd : g.InFat d)
    (h : fs.fatSector c = fs.fatSector d) (ho : fatOffset c = fatOffset d) :
    c = d := by
  have hnat := congrArg UInt32.toNat h
  have hoff := congrArg Fin.val ho
  rw [hg.toNat_fatSector hc, hg.toNat_fatSector hd] at hnat
  simp only [fatOffset] at hoff
  exact UInt32.toNat_inj.1 (by omega)

/-! ## Writes -/

theorem volume_put_sector (hg : Geometry fs g) (hc : g.Exists c) (s : Sector) :
    (fs.put (fs.getSectorByCluster c) s).volume g =
      (fs.volume g).setDir c (dirEntry s) := by
  apply Volume.ext
  · funext d
    by_cases hd : g.InFat d
    · have hne := hg.fatSector_ne_sector hd hc
      simp only [Fs.fatSector] at hne
      simp [Fs.volume, Fs.put, Fs.fatSector, Volume.setDir, hne]
    · simp [Fs.volume, Volume.setDir, hd]
  · funext d
    by_cases hdc : d = c
    · subst hdc
      simp [Fs.volume, Fs.put, Fs.getSectorByCluster, Volume.setDir, hc]
    · by_cases hd : g.Exists d
      · have hne : fs.getSectorByCluster d ≠ fs.getSectorByCluster c :=
          fun h => hdc (hg.sector_inj hd hc h)
        simp only [Fs.getSectorByCluster] at hne
        simp [Fs.volume, Fs.put, Fs.getSectorByCluster, Volume.setDir, hd, hdc,
          hne]
      · simp [Fs.volume, Volume.setDir, hd, hdc]

theorem volume_put_fatSector (hg : Geometry fs g) (hc : g.InFat c)
    (value : UInt32) :
    (fs.put (fs.fatSector c) (setFatWord (fs.diskMgr.sectors 1 (fs.fatSector c))
      (fatOffset c) value)).volume g = (fs.volume g).setFat c value := by
  apply Volume.ext
  · funext d
    by_cases hdc : d = c
    · subst hdc
      simp [Fs.volume, Fs.put, Fs.fatSector, Volume.setFat, hc]
    · by_cases hd : g.InFat d
      · by_cases hsec : fs.fatSector d = fs.fatSector c
        · -- Another word of the same sector.
          have hoff : fatOffset d ≠ fatOffset c :=
            fun h => hdc (hg.fatWord_inj hd hc hsec h)
          have hword := fatWord_setFatWord_of_ne
            (fs.diskMgr.sectors 1 (fs.fatSector c)) hoff value
          simp only [Fs.fatSector] at hsec hword
          simp [Fs.volume, Fs.put, Fs.fatSector, Volume.setFat, hd, hdc, hsec,
            hword]
        · simp only [Fs.fatSector] at hsec
          simp [Fs.volume, Fs.put, Fs.fatSector, Volume.setFat, hd, hdc, hsec]
      · simp [Fs.volume, Volume.setFat, hd, hdc]
  · funext d
    by_cases hd : g.Exists d
    · have hne := hg.fatSector_ne_sector hc hd
      simp only [Fs.getSectorByCluster] at hne
      simp [Fs.volume, Fs.put, Fs.getSectorByCluster, Volume.setFat, hd,
        Ne.symm hne]
    · simp [Fs.volume, Volume.setFat, hd]

end Geometry

end TermOS.Storage
