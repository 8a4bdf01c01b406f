import Mathlib.Order.Interval.Finset.Nat
import TermOS.Proofs.FreeCluster

/-!
# Where the clusters lie

`fat32_init` and `get_sector_by_cluster` compute in 32 bits what a boot sector
says in fields of 8, 16 and 32. On a volume whose areas fit below 2^32 the
results are those of natural numbers, so each cluster has a run of sectors of
its own behind the FATs. The word of a cluster in the FAT is found by a division
by 128 and numbered by a multiplication by 128, and the two agree.
-/

namespace TermOS.Storage

open TermOS.Console (Ostream)
open TermOS.Lib (le16 le32)

namespace Bpb

/-- The sectors in front of the FATs, and of all FATs together. -/
def reserved (bpb : Bpb) : Nat := bpb.reservedSectors.toNat

def fats (bpb : Bpb) : Nat := bpb.fatCount.toNat * bpb.fatSize32.toNat

/-- The fields agree with a volume of `n` clusters on `total` sectors. -/
structure FitsOn (bpb : Bpb) (n total : Nat) : Prop where
  perCluster : 1 ≤ bpb.sectorsPerCluster.toNat
  fits : bpb.reserved + bpb.fats + n * bpb.sectorsPerCluster.toNat ≤ total
  total : total < 2 ^ 32
  fatLarge : n + 2 ≤ 128 * bpb.fatSize32.toNat

/-- The sectors of a cluster, as natural numbers. -/
def run (bpb : Bpb) (c : Nat) : Finset Nat :=
  Finset.Ico
    (bpb.reserved + bpb.fats + (c - 2) * bpb.sectorsPerCluster.toNat)
    (bpb.reserved + bpb.fats + (c - 1) * bpb.sectorsPerCluster.toNat)

/-- `root_dir_sector`. -/
def rootDirSector (bpb : Bpb) : UInt32 :=
  bpb.reservedSectors.toUInt32 + bpb.fatCount.toUInt32 * bpb.fatSize32 +
    (bpb.rootCluster - 2) * bpb.sectorsPerCluster.toUInt32

variable {bpb : Bpb} {n total c d : Nat}

/-- A cluster that is smaller ends where the other begins, or before. -/
theorem disjoint_run_of_lt (hc : 2 ≤ c) (hcd : c < d) :
    Disjoint (bpb.run c) (bpb.run d) := by
  have hle : (c - 1) * bpb.sectorsPerCluster.toNat ≤
      (d - 2) * bpb.sectorsPerCluster.toNat :=
    Nat.mul_le_mul_right _ (by omega)
  rw [run, run, Finset.disjoint_left]
  intro x hx hx'
  rw [Finset.mem_Ico] at hx hx'
  omega

theorem disjoint_run (hc : 2 ≤ c) (hd : 2 ≤ d) (hne : c ≠ d) :
    Disjoint (bpb.run c) (bpb.run d) := by
  rcases Nat.lt_or_gt_of_ne hne with hlt | hgt
  · exact disjoint_run_of_lt hc hlt
  · exact (disjoint_run_of_lt hd hgt).symm

/-- The runs lie in the data area. -/
theorem run_subset (hc : 2 ≤ c) (hn : c < n + 2) :
    bpb.run c ⊆ Finset.Ico (bpb.reserved + bpb.fats)
      (bpb.reserved + bpb.fats + n * bpb.sectorsPerCluster.toNat) := by
  have hle : (c - 1) * bpb.sectorsPerCluster.toNat ≤
      n * bpb.sectorsPerCluster.toNat :=
    Nat.mul_le_mul_right _ (by omega)
  intro x hx
  rw [run, Finset.mem_Ico] at hx
  rw [Finset.mem_Ico]
  omega

end Bpb

namespace Fs

variable {fs : Fs} {bpb : Bpb} {n total : Nat} {c value : UInt32}

/-- The statics that `fat32_init` takes from a boot sector. -/
structure Mounted (fs : Fs) (bpb : Bpb) : Prop where
  fatStart : fs.fatStartSector = bpb.reservedSectors.toUInt32
  dataStart : fs.dataStartSector =
    bpb.reservedSectors.toUInt32 + bpb.fatCount.toUInt32 * bpb.fatSize32
  perCluster : fs.sectorsPerClusterGlobal = bpb.sectorsPerCluster
  ready : fs.Ready

theorem mounted_init {buffer : Sector} (cout : Ostream)
    (hread : fs.diskMgr.readSector 1 0 = some buffer)
    (hsigned : Signed buffer) :
    (fs.init cout 1).1.Mounted (.ofSector buffer) := by
  have hready : fs.Ready := by
    by_contra hnot
    rw [read_not_ready hnot] at hread
    cases hread
  rw [init_signed hread hsigned]
  exact ⟨rfl, rfl, rfl, hready⟩

theorem report_init {buffer : Sector} (cout : Ostream)
    (hread : fs.diskMgr.readSector 1 0 = some buffer)
    (hsigned : Signed buffer) :
    (fs.init cout 1).2 = initReport cout 1 (.ofSector buffer)
      (Bpb.ofSector buffer).rootDirSector := by
  simp only [init, hread, if_pos hsigned, Bpb.rootDirSector]

/-! ## No computation wraps -/

theorem Mounted.toNat_fatStart (h : fs.Mounted bpb) :
    fs.fatStartSector.toNat = bpb.reserved := by
  rw [h.fatStart, UInt16.toNat_toUInt32, Bpb.reserved]

theorem Mounted.toNat_dataStart (h : fs.Mounted bpb)
    (hbpb : bpb.FitsOn n total) :
    fs.dataStartSector.toNat = bpb.reserved + bpb.fats := by
  have hfits := hbpb.fits
  have htotal := hbpb.total
  rw [Bpb.reserved, Bpb.fats] at hfits
  rw [h.dataStart, UInt32.toNat_add, UInt32.toNat_mul, UInt16.toNat_toUInt32,
    UInt8.toNat_toUInt32, Bpb.reserved, Bpb.fats,
    Nat.mod_eq_of_lt (a := bpb.fatCount.toNat * _) (by omega),
    Nat.mod_eq_of_lt (by omega)]

/-- The sectors that the driver takes for those of a cluster. -/
def clusterRun (fs : Fs) (c : UInt32) : Finset Nat :=
  Finset.Ico (fs.getSectorByCluster c).toNat
    ((fs.getSectorByCluster c).toNat + fs.sectorsPerClusterGlobal.toNat)

/-- A cluster lies where the natural numbers say, in the data area, and shares
no sector with another. -/
structure Placed (fs : Fs) (bpb : Bpb) (n : Nat) (c : UInt32) : Prop where
  sector : (fs.getSectorByCluster c).toNat = bpb.reserved + bpb.fats +
    (c.toNat - 2) * bpb.sectorsPerCluster.toNat
  root : c = bpb.rootCluster → bpb.rootDirSector.toNat = bpb.reserved +
    bpb.fats + (c.toNat - 2) * bpb.sectorsPerCluster.toNat
  inData : fs.clusterRun c ⊆ Finset.Ico (bpb.reserved + bpb.fats)
    (bpb.reserved + bpb.fats + n * bpb.sectorsPerCluster.toNat)
  apart : ∀ d : UInt32, 2 ≤ d.toNat → d.toNat < n + 2 → d ≠ c →
    Disjoint (fs.clusterRun c) (fs.clusterRun d)

theorem Mounted.toNat_sector (h : fs.Mounted bpb) (hbpb : bpb.FitsOn n total)
    (hle : 2 ≤ c.toNat) (hlt : c.toNat < n + 2) :
    (fs.getSectorByCluster c).toNat = bpb.reserved + bpb.fats +
      (c.toNat - 2) * bpb.sectorsPerCluster.toNat := by
  have hprod : (c.toNat - 2) * bpb.sectorsPerCluster.toNat <
      n * bpb.sectorsPerCluster.toNat :=
    Nat.mul_lt_mul_of_pos_right (by omega) hbpb.perCluster
  have hfits := hbpb.fits
  have htotal := hbpb.total
  have hsector := @toNat_getSectorByCluster fs c hle
  rw [h.toNat_dataStart hbpb, h.perCluster] at hsector
  exact hsector (by omega)

theorem Mounted.clusterRun_eq (h : fs.Mounted bpb) (hbpb : bpb.FitsOn n total)
    (hle : 2 ≤ c.toNat) (hlt : c.toNat < n + 2) :
    fs.clusterRun c = bpb.run c.toNat := by
  have hnext : (c.toNat - 1) * bpb.sectorsPerCluster.toNat =
      (c.toNat - 2) * bpb.sectorsPerCluster.toNat +
        bpb.sectorsPerCluster.toNat := by
    rw [← Nat.succ_mul]
    congr 1
    omega
  rw [clusterRun, h.toNat_sector hbpb hle hlt, h.perCluster, Bpb.run, hnext,
    Nat.add_assoc (_ + _)]

theorem Mounted.placed (h : fs.Mounted bpb) (hbpb : bpb.FitsOn n total)
    (hle : 2 ≤ c.toNat) (hlt : c.toNat < n + 2) : fs.Placed bpb n c := by
  have hrun := h.clusterRun_eq hbpb hle hlt
  refine ⟨h.toNat_sector hbpb hle hlt, ?_, ?_, ?_⟩
  · intro hroot
    have hsector := h.toNat_sector hbpb hle hlt
    rw [getSectorByCluster, h.dataStart, h.perCluster, hroot] at hsector
    rw [Bpb.rootDirSector, hsector, hroot]
  · rw [hrun]
    exact Bpb.run_subset hle hlt
  · intro d hd hdlt hne
    rw [hrun, h.clusterRun_eq hbpb hd hdlt]
    exact Bpb.disjoint_run hle hd fun heq => hne (UInt32.toNat_inj.1 heq.symm)

/-! ## The word of a cluster -/

theorem sector_put_self (lba : UInt32) (s : Sector) :
    (fs.put lba s).diskMgr.sectors 1 lba = s := by
  simp [put]

/-- Of `size` sectors from the start of the FAT exactly the word that the search
numbers as `c` has changed, and no sector but its own. -/
structure SetsWord (fs fs' : Fs) (size : Nat) (c value : UInt32) : Prop where
  inside : c.toNat / 128 < size ∧ (fs.fatSector c).toNat =
    fs.fatStartSector.toNat + c.toNat / 128
  words : ∀ i < size, ∀ j : Fin 128,
    fatWord (fs'.diskMgr.sectors 1 (fs.fatStartSector + UInt32.ofNat i)) j =
      if i * 128 + j.val = c.toNat then value
      else fatWord (fs.diskMgr.sectors 1 (fs.fatStartSector + UInt32.ofNat i)) j
  others : ∀ drive lba, ¬ (drive = 1 ∧ lba = fs.fatSector c) →
    fs'.diskMgr.sectors drive lba = fs.diskMgr.sectors drive lba
  place : fs.SamePlace fs'

/-- The division and the multiplication are inverse. -/
theorem index_eq_iff {i k : Nat} {j : Fin 128} :
    i * 128 + j.val = k ↔ i = k / 128 ∧ j.val = k % 128 := by
  have hj := j.isLt
  omega

theorem toNat_div_words (c : UInt32) : (c / 128).toNat = c.toNat / 128 :=
  UInt32.toNat_div c 128

/-- A sector of the FAT that is not the one of a cluster. -/
theorem fatSector_ne {i : Nat} (hi : i < 2 ^ 32) (hne : i ≠ c.toNat / 128) :
    fs.fatStartSector + UInt32.ofNat i ≠ fs.fatSector c := by
  intro heq
  rw [fatSector, UInt32.add_right_inj] at heq
  have hnat := congrArg UInt32.toNat heq
  rw [UInt32.toNat_ofNat', toNat_div_words, Nat.mod_eq_of_lt hi] at hnat
  exact hne hnat

theorem fatSector_eq (fs : Fs) (c : UInt32) :
    fs.fatSector c = fs.fatStartSector + UInt32.ofNat (c.toNat / 128) := by
  rw [fatSector, UInt32.add_right_inj]
  apply UInt32.toNat_inj.1
  have hc := c.toNat_lt
  rw [UInt32.toNat_ofNat', toNat_div_words, Nat.mod_eq_of_lt (by omega)]

theorem Mounted.setsWord_updateFat (h : fs.Mounted bpb)
    (hbpb : bpb.FitsOn n total) (hlt : c.toNat < n + 2) (uninit : Sector) :
    fs.SetsWord (fs.updateFat uninit c value) bpb.fatSize32.toNat c value := by
  have hlarge := hbpb.fatLarge
  have hsize := bpb.fatSize32.toNat_lt
  have hres := bpb.reservedSectors.toNat_lt
  have hc := c.toNat_lt
  refine ⟨⟨by omega, ?_⟩, ?_, ?_, samePlace_updateFat uninit c value⟩
  · rw [fatSector, UInt32.toNat_add, toNat_div_words, h.toNat_fatStart,
      Bpb.reserved]
    exact Nat.mod_eq_of_lt (by omega)
  · intro i hi j
    rw [updateFat_ready h.ready]
    by_cases hsector : i = c.toNat / 128
    · rw [hsector, ← fatSector_eq, sector_put_self]
      by_cases hword : j.val = c.toNat % 128
      · rw [if_pos (index_eq_iff.2 ⟨rfl, hword⟩)]
        obtain rfl : j = fatOffset c := Fin.ext hword
        exact fatWord_setFatWord_self _ _ _
      · rw [if_neg fun heq => hword (index_eq_iff.1 heq).2]
        exact fatWord_setFatWord_of_ne _
          (fun heq => hword (congrArg Fin.val heq)) _
    · rw [if_neg fun heq => hsector (index_eq_iff.1 heq).1,
        sectors_put_of_ne _ fun heq =>
          fatSector_ne (by omega) hsector heq.2]
  · intro drive lba hne
    rw [updateFat_ready h.ready]
    exact sectors_put_of_ne _ hne

end Fs

/-! ## From the boot sector on -/

/-- Behind a boot sector with fields that agree with a volume of `n` clusters,
the statics of the driver are the natural numbers they stand for, every cluster
is placed, and an update of the FAT sets the one word with the number of the
cluster. -/
theorem layout_init {fs : Fs} {buffer : Sector} (cout : Ostream)
    (hread : fs.diskMgr.readSector 1 0 = some buffer) (hsigned : Signed buffer)
    {n total : Nat} (hbpb : (Bpb.ofSector buffer).FitsOn n total) :
    (fs.init cout 1).1.fatStartSector.toNat = (Bpb.ofSector buffer).reserved ∧
    (fs.init cout 1).1.dataStartSector.toNat =
      (Bpb.ofSector buffer).reserved + (Bpb.ofSector buffer).fats ∧
    (fs.init cout 1).2 = Fs.initReport cout 1 (Bpb.ofSector buffer)
      (Bpb.ofSector buffer).rootDirSector ∧
    ∀ c : UInt32, 2 ≤ c.toNat → c.toNat < n + 2 →
      (fs.init cout 1).1.Placed (Bpb.ofSector buffer) n c ∧
      ∀ uninit value, (fs.init cout 1).1.SetsWord
        ((fs.init cout 1).1.updateFat uninit c value)
        (Bpb.ofSector buffer).fatSize32.toNat c value := by
  have hmounted := Fs.mounted_init cout hread hsigned
  refine ⟨hmounted.toNat_fatStart, hmounted.toNat_dataStart hbpb,
    Fs.report_init cout hread hsigned, ?_⟩
  intro c hle hlt
  refine ⟨hmounted.placed hbpb hle hlt, ?_⟩
  intro uninit value
  exact hmounted.setsWord_updateFat hbpb hlt uninit

theorem fitsOn_bootSector (r : UInt8) :
    (Bpb.ofSector (bootSector r)).FitsOn 12798 13030 := by
  refine ⟨?_, ?_, ?_, ?_⟩ <;>
    simp [Bpb.ofSector, Bpb.reserved, Bpb.fats, bootSector, le16, le32]

theorem layout_init_unmounted :
    Signed (bootSector 2) ∧
      (Bpb.ofSector (bootSector 2)).FitsOn 12798 13030 ∧
      ((unmounted 2).init ⟨.dec, []⟩ 1).1.Placed (Bpb.ofSector (bootSector 2))
        12798 2 :=
  ⟨signed_bootSector 2, fitsOn_bootSector 2,
    ((layout_init ⟨.dec, []⟩ rfl (signed_bootSector 2)
      (fitsOn_bootSector 2)).2.2.2 2 (by simp) (by simp)).1⟩

end TermOS.Storage
