import TermOS.Proofs.Drive
import TermOS.Proofs.RootCluster

/-!
# The search for a free cluster

`fat32_find_free_cluster` looks through the first hundred sectors from the
start of the FAT for a word that is zero, whatever the size of the FAT and the
number of clusters, and it asks for all 32 bits where an entry has 28. What the
scan comes to is said once for a whole scan, from any sector on; from it
follows on which volumes it is a search for the least free cluster.
-/

namespace TermOS.Storage

open TermOS.Console (Ostream)
open TermOS.Lib (le16 le32)

namespace Fs

/-! ## One sector of the FAT -/

section FreeWord

variable {fatTable : Sector} {i : Nat}

theorem freeWord_some {j : Fin 128} (h : freeWord fatTable i = some j) :
    fatWord fatTable j = 0 ∧ 2 ≤ i * 128 + j.val ∧
      ∀ k : Fin 128, k.val < j.val → 2 ≤ i * 128 + k.val →
        fatWord fatTable k ≠ 0 := by
  obtain ⟨hp, l, hl, hget, hbefore⟩ := List.find?_eq_some_iff_getElem.1 h
  rw [Bool.and_eq_true, beq_iff_eq, decide_eq_true_iff] at hp
  rw [List.getElem_finRange] at hget
  have hlj : l = j.val := congrArg Fin.val hget
  refine ⟨hp.1, hp.2, fun k hk hle hzero => ?_⟩
  have hnot := hbefore k.val (by omega)
  rw [List.getElem_finRange] at hnot
  have hcast : Fin.cast List.length_finRange
      ⟨k.val, by rw [List.length_finRange]; exact k.isLt⟩ = k := rfl
  rw [hcast, hzero] at hnot
  simp [hle] at hnot

theorem freeWord_none (h : freeWord fatTable i = none) (k : Fin 128)
    (hle : 2 ≤ i * 128 + k.val) : fatWord fatTable k ≠ 0 := by
  intro hzero
  have hnot := List.find?_eq_none.1 h k (List.mem_finRange k)
  rw [hzero] at hnot
  simp [hle] at hnot

end FreeWord

variable {fs : Fs} {n size : Nat}

/-! ## The scan -/

/-- The word of a cluster in the first copy of the FAT. -/
def entry (fs : Fs) (c : Nat) : UInt32 :=
  fatWord (fs.diskMgr.sectors 1 (fs.fatStartSector + UInt32.ofNat (c / 128)))
    ⟨c % 128, Nat.mod_lt _ (Nat.succ_pos 127)⟩

/-- A sector of the FAT is read. -/
def fatRead (fs : Fs) (i : Nat) : Access :=
  ⟨1, fs.fatStartSector + UInt32.ofNat i, false⟩

theorem entry_eq (i : Nat) (j : Fin 128) : fs.entry (i * 128 + j.val) =
    fatWord (fs.diskMgr.sectors 1 (fs.fatStartSector + UInt32.ofNat i)) j := by
  have hj := j.isLt
  have hdiv : (i * 128 + j.val) / 128 = i := by omega
  have hmod : (⟨(i * 128 + j.val) % 128, Nat.mod_lt _ (Nat.succ_pos 127)⟩ :
      Fin 128) = j := by
    apply Fin.ext
    show (i * 128 + j.val) % 128 = j.val
    omega
  rw [entry, hdiv, hmod]

theorem entry_first {fatTable : Sector} (h : fs.diskMgr.sectors 1
    (fs.fatStartSector + UInt32.ofNat 0) = fatTable) (j : Fin 128) :
    fs.entry j.val = fatWord fatTable j := by
  have hentry := fs.entry_eq 0 j
  rw [Nat.zero_mul, Nat.zero_add, h] at hentry
  exact hentry

/-- A word with an index in a sector that is not zero. -/
theorem entry_ne {i d : Nat} (hlo : i * 128 ≤ d) (hhi : d < (i + 1) * 128)
    (h : fatWord (fs.diskMgr.sectors 1 (fs.fatStartSector + UInt32.ofNat i))
      ⟨d - i * 128, by omega⟩ ≠ 0) : fs.entry d ≠ 0 := by
  have hd : i * 128 + (d - i * 128) = d := by omega
  rw [← hd, fs.entry_eq i ⟨d - i * 128, by omega⟩]
  exact h

/-- What the scan from sector `k` on returns and which sectors it reads: the
first zero word from there on that is not one of the first two of the FAT, and
the sectors up to its own, or zero and all sectors. -/
def ScansTo (fs : Fs) (k : Nat) (r : UInt32) (as : List Access) : Prop :=
  (∃ c, 2 ≤ c ∧ k * 128 ≤ c ∧ c < 12800 ∧ r = UInt32.ofNat c ∧
    fs.entry c = 0 ∧ (∀ d, 2 ≤ d → k * 128 ≤ d → d < c → fs.entry d ≠ 0) ∧
    as = (List.range' k (c / 128 + 1 - k)).map fs.fatRead) ∨
  (r = 0 ∧ (∀ d, 2 ≤ d → k * 128 ≤ d → d < 12800 → fs.entry d ≠ 0) ∧
    as = (List.range' k (100 - k)).map fs.fatRead)

theorem range'_pred {k l : Nat} (h : k < l) :
    List.range' k (l - k) = k :: List.range' (k + 1) (l - (k + 1)) := by
  have hsub : l - k = l - (k + 1) + 1 := by omega
  rw [hsub, List.range'_succ]

theorem scansTo_range' (hready : fs.Ready) (m k : Nat) (h : k + m = 100) :
    fs.ScansTo k (fs.findFreeFrom (List.range' k m))
      (fs.findFreeAccesses (List.range' k m)) := by
  induction m generalizing k with
  | zero =>
      obtain rfl : k = 100 := by omega
      exact .inr ⟨rfl, fun d _ hlo hhi => by omega, rfl⟩
  | succ m ih =>
      have hread := @read_ready fs (fs.fatStartSector + UInt32.ofNat k) hready
      have hacc : fs.diskMgr.access 1 (fs.fatStartSector + UInt32.ofNat k)
          false = [fs.fatRead k] := access_ready hready
      rw [List.range'_succ, findFreeFrom, findFreeAccesses, hread, hacc]
      simp only
      cases hfind : freeWord (fs.diskMgr.sectors 1
          (fs.fatStartSector + UInt32.ofNat k)) k with
      | some j =>
          obtain ⟨hzero, hle, hbefore⟩ := freeWord_some hfind
          have hj := j.isLt
          have hdiv : (k * 128 + j.val) / 128 + 1 - k = 1 := by omega
          refine .inl ⟨k * 128 + j.val, hle, by omega, by omega, rfl, ?_, ?_, ?_⟩
          · rw [entry_eq, hzero]
          · intro d hd hlo hhi
            exact entry_ne hlo (by omega) (hbefore ⟨d - k * 128, by omega⟩
              (show d - k * 128 < j.val by omega)
              (show 2 ≤ k * 128 + (d - k * 128) by omega))
          · rw [hdiv]
            rfl
      | none =>
          have hhere : ∀ d, 2 ≤ d → k * 128 ≤ d → d < (k + 1) * 128 →
              fs.entry d ≠ 0 := by
            intro d hd hlo hhi
            exact entry_ne hlo hhi (freeWord_none hfind ⟨d - k * 128, by omega⟩
              (show 2 ≤ k * 128 + (d - k * 128) by omega))
          rcases ih (k + 1) (by omega) with
            ⟨c, hc, hlo, hhi, hr, hzero, hbefore, has⟩ | ⟨hr, hbefore, has⟩
          · refine .inl ⟨c, hc, by omega, hhi, hr, hzero, ?_, ?_⟩
            · intro d hd hkd hdc
              by_cases hnear : d < (k + 1) * 128
              · exact hhere d hd hkd hnear
              · exact hbefore d hd (by omega) hdc
            · have hcons := range'_pred (k := k) (l := c / 128 + 1) (by omega)
              rw [has, hcons]
              rfl
          · refine .inr ⟨hr, ?_, ?_⟩
            · intro d hd hkd hdl
              by_cases hnear : d < (k + 1) * 128
              · exact hhere d hd hkd hnear
              · exact hbefore d hd (by omega) hdl
            · have hcons := range'_pred (k := k) (l := 100) (by omega)
              rw [has, hcons]
              rfl

theorem findFreeCluster_scansTo (hready : fs.Ready) :
    fs.ScansTo 0 fs.findFreeCluster (fs.findFreeAccesses (List.range 100)) := by
  rw [findFreeCluster, List.range_eq_range']
  exact scansTo_range' hready 100 0 rfl

theorem toNat_ofNat_lt {c : Nat} (h : c < 12800) : (UInt32.ofNat c).toNat = c := by
  rw [UInt32.toNat_ofNat']
  omega

/-! ## When it is a search for the least free cluster -/

/-- One of the `n` clusters, with an entry whose 28 bits are zero. -/
def IsFree (fs : Fs) (n c : Nat) : Prop :=
  2 ≤ c ∧ c < n + 2 ∧ fs.entry c &&& 0x0FFFFFFF = 0

/-- The search finds the least free cluster if there is one, says that there
is none if there is none, and reads nothing but the first copy of the FAT, of
`size` sectors. -/
structure FindsLeast (fs : Fs) (n size : Nat) : Prop where
  least : fs.findFreeCluster ≠ 0 → fs.IsFree n fs.findFreeCluster.toNat ∧
    ∀ c, fs.IsFree n c → fs.findFreeCluster.toNat ≤ c
  none_iff : fs.findFreeCluster = 0 ↔ ∀ c, ¬ fs.IsFree n c
  inside : ∀ a ∈ fs.findFreeAccesses (List.range 100),
    a.drive = 1 ∧ a.isWrite = false ∧
      fs.fatStartSector.toNat ≤ a.lba.toNat ∧
      a.lba.toNat < fs.fatStartSector.toNat + size

/-- The least free cluster is one of the first 12800, and its word is zero in
all its bits; or none is free, the FAT has a hundred sectors, and there is no
zero word behind its last entry. -/
def Coverable (fs : Fs) (n size : Nat) : Prop :=
  (∃ m, fs.IsFree n m ∧ (∀ c, fs.IsFree n c → m ≤ c) ∧ m < 12800 ∧
    fs.entry m = 0) ∨
  ((∀ c, ¬ fs.IsFree n c) ∧ 100 ≤ size ∧
    ∀ c, n + 2 ≤ c → c < 12800 → fs.entry c ≠ 0)

theorem isFree_of_entry {c : Nat} (hle : 2 ≤ c) (hlt : c < n + 2)
    (hzero : fs.entry c = 0) : fs.IsFree n c :=
  ⟨hle, hlt, by rw [hzero]; rfl⟩

theorem lba_fatRead (hstart : fs.fatStartSector.toNat < 65536) {i : Nat}
    (hi : i < 100) :
    (fs.fatRead i).lba.toNat = fs.fatStartSector.toNat + i := by
  rw [fatRead, UInt32.toNat_add, UInt32.toNat_ofNat']
  omega

theorem inside_range' (hstart : fs.fatStartSector.toNat < 65536) {l : Nat}
    (hl : l ≤ 100) (hsize : l ≤ size) {a : Access}
    (ha : a ∈ (List.range' 0 l).map fs.fatRead) :
    a.drive = 1 ∧ a.isWrite = false ∧
      fs.fatStartSector.toNat ≤ a.lba.toNat ∧
      a.lba.toNat < fs.fatStartSector.toNat + size := by
  obtain ⟨i, hi, rfl⟩ := List.mem_map.1 ha
  rw [← List.range_eq_range', List.mem_range] at hi
  have hlba := lba_fatRead hstart (i := i) (by omega)
  exact ⟨rfl, rfl, by omega, by omega⟩

theorem toNat_findFreeCluster {c : Nat} (hc : 2 ≤ c) (hlt : c < 12800)
    (hr : fs.findFreeCluster = UInt32.ofNat c) :
    fs.findFreeCluster.toNat = c ∧ fs.findFreeCluster ≠ 0 := by
  have hnat : fs.findFreeCluster.toNat = c := by rw [hr, toNat_ofNat_lt hlt]
  refine ⟨hnat, fun heq => ?_⟩
  rw [heq, show (0 : UInt32).toNat = 0 from rfl] at hnat
  omega

theorem coverable_of_findsLeast (hready : fs.Ready)
    (hstart : fs.fatStartSector.toNat < 65536)
    (h : fs.FindsLeast n size) : fs.Coverable n size := by
  rcases findFreeCluster_scansTo hready with
    ⟨c, hc, -, hlt, hr, hzero, -, -⟩ | ⟨hr, hbefore, has⟩
  · obtain ⟨hnat, hne⟩ := toNat_findFreeCluster hc hlt hr
    obtain ⟨hfree, hleast⟩ := h.least hne
    rw [hnat] at hfree hleast
    exact .inl ⟨c, hfree, hleast, hlt, hzero⟩
  · have hlast := h.inside (fs.fatRead 99)
      (by rw [has]; exact List.mem_map_of_mem (by simp))
    have hlba := lba_fatRead hstart (i := 99) (by omega)
    exact .inr ⟨h.none_iff.1 hr, by omega, fun c hc hlt =>
      hbefore c (by omega) (by omega) hlt⟩

theorem findsLeast_of_coverable (hready : fs.Ready)
    (hstart : fs.fatStartSector.toNat < 65536) (hwords : n + 2 ≤ 128 * size)
    (h : fs.Coverable n size) : fs.FindsLeast n size := by
  rcases findFreeCluster_scansTo hready with
    ⟨c, hc, -, hlt, hr, hzero, hbefore, has⟩ | ⟨hr, hbefore, has⟩
  · obtain ⟨hnat, hne⟩ := toNat_findFreeCluster hc hlt hr
    -- What is found is a cluster of the volume, and the least that is free.
    have hleast : fs.IsFree n c ∧ ∀ d, fs.IsFree n d → c ≤ d := by
      rcases h with ⟨m, hfree, hleast, -, hword⟩ | ⟨hnone, -, hslack⟩
      · have hcm : c ≤ m := by
          by_contra hlt'
          exact hbefore m hfree.1 (Nat.zero_le _) (by omega) hword
        have hfree' := isFree_of_entry hc
          (by have := hfree.2.1; omega : c < n + 2) hzero
        exact ⟨hfree', fun d hd => Nat.le_trans hcm (hleast d hd)⟩
      · by_cases hin : c < n + 2
        · exact absurd (isFree_of_entry hc hin hzero) (hnone c)
        · exact absurd hzero (hslack c (by omega) hlt)
    have hin := hleast.1.2.1
    refine ⟨fun _ => by rw [hnat]; exact hleast,
      ⟨fun heq => absurd heq hne, fun hnone => absurd hleast.1 (hnone c)⟩, ?_⟩
    intro a ha
    rw [has] at ha
    exact inside_range' hstart (by omega) (by omega) ha
  · rcases h with ⟨m, hfree, -, hlt, hword⟩ | ⟨hnone, hsize, -⟩
    · exact absurd hword (hbefore m hfree.1 (Nat.zero_le _) hlt)
    · refine ⟨fun hne => absurd hr hne, ⟨fun _ => hnone, fun _ => hr⟩, ?_⟩
      intro a ha
      rw [has] at ha
      exact inside_range' hstart (by omega) hsize ha

end Fs

/-- The boot sector agrees with a volume of `n` clusters: there is a copy of
the FAT, it has a word for each cluster, and its sectors have numbers. -/
structure Bpb.Consistent (bpb : Bpb) (n : Nat) : Prop where
  copies : 0 < bpb.fatCount.toNat
  words : n + 2 ≤ 128 * bpb.fatSize32.toNat
  sectors : bpb.reservedSectors.toNat +
    bpb.fatCount.toNat * bpb.fatSize32.toNat ≤ 4294967296

/-- On every volume that `fat32_init` accepts, whatever the size of its FAT
and the number of its clusters: the search returns the least free cluster, or
zero if there is none, and stays within the first copy of the FAT, if and only
if the least free cluster is one of the first 12800 and its word is zero in all
its bits, or none is free, the FAT has a hundred sectors, and what follows its
last entry in them is not zero. -/
theorem free_cluster_least {fs : Fs} {boot : Sector} {n : Nat} (cout : Ostream)
    (hread : fs.diskMgr.readSector 1 0 = some boot) (hsigned : Signed boot)
    (hbpb : (Bpb.ofSector boot).Consistent n) :
    (fs.init cout 1).1.FindsLeast n (Bpb.ofSector boot).fatSize32.toNat ↔
      (fs.init cout 1).1.Coverable n (Bpb.ofSector boot).fatSize32.toNat := by
  have hready : (fs.init cout 1).1.Ready := by
    rw [Fs.init_signed hread hsigned]
    by_contra hn
    rw [show fs.diskMgr.readSector 1 0 = none from Fs.read_not_ready hn] at hread
    cases hread
  have hstart : (fs.init cout 1).1.fatStartSector.toNat < 65536 := by
    rw [Fs.init_signed hread hsigned]
    show (Bpb.ofSector boot).reservedSectors.toUInt32.toNat < 65536
    rw [UInt16.toNat_toUInt32]
    exact UInt16.toNat_lt _
  exact ⟨Fs.coverable_of_findsLeast hready hstart,
    Fs.findsLeast_of_coverable hready hstart hbpb.words⟩

/-! ## A full volume of three clusters -/

/-- A volume with this first sector of the FAT. -/
def withFat (fatTable : Sector) : Fs :=
  { unmounted 2 with
    diskMgr := ⟨2, fun _ lba =>
      if lba = 0 then bootSector 2 else if lba = 32 then fatTable
      else zeroSector⟩ }

theorem bpb_bootSector (r : UInt8) :
    (Bpb.ofSector (bootSector r)).fatSize32 = 100 ∧
      (Bpb.ofSector (bootSector r)).fatCount = 2 ∧
      (Bpb.ofSector (bootSector r)).reservedSectors = 32 := by
  simp [Bpb.ofSector, bootSector, le32, le16]

theorem consistent_bootSector (r : UInt8) {n : Nat} (h : n + 2 ≤ 12800) :
    (Bpb.ofSector (bootSector r)).Consistent n := by
  obtain ⟨hsize, hcount, hreserved⟩ := bpb_bootSector r
  refine ⟨by rw [hcount]; decide, by rw [hsize]; exact h, ?_⟩
  rw [hsize, hcount, hreserved]
  decide

theorem read_withFat (fatTable : Sector) :
    (withFat fatTable).diskMgr.readSector 1 0 = some (bootSector 2) := rfl

theorem sectors_withFat (fatTable : Sector) (lba : UInt32) :
    (withFat fatTable).diskMgr.sectors 1 lba =
      if lba = 0 then bootSector 2 else if lba = 32 then fatTable
      else zeroSector := rfl

/-- What the search finds on the volume after `fat32_init`. -/
theorem init_withFat (fatTable : Sector) :
    ∃ fs, ((withFat fatTable).init ⟨.dec, []⟩ 1).1 = fs ∧ fs.Ready ∧
      ∀ j : Fin 128, fs.entry j.val = fatWord fatTable j := by
  have hinit := @Fs.init_signed (withFat fatTable) ⟨.dec, []⟩ 1 (bootSector 2)
    (read_withFat fatTable) (signed_bootSector 2)
  refine ⟨_, hinit, (by decide : (1 : UInt8) < 2), fun j => Fs.entry_first ?_ j⟩
  simp only [(bpb_bootSector 2).2.2, sectors_withFat]
  rw [if_neg (by decide), if_pos (by decide)]

/-- Of a FAT with nothing but zeroes cluster 2 is returned. -/
theorem free_cluster_least_empty :
    ((withFat zeroSector).init ⟨.dec, []⟩ 1).1.FindsLeast 3 100 := by
  have hiff := free_cluster_least (n := 3) ⟨.dec, []⟩
    (read_withFat zeroSector) (signed_bootSector 2)
    (consistent_bootSector 2 (by decide))
  obtain ⟨fs, hfs, -, hentry⟩ := init_withFat zeroSector
  rw [(bpb_bootSector 2).1, hfs] at hiff
  rw [hfs]
  have hword : fs.entry 2 = 0 :=
    (hentry (fatOffset 2)).trans (fatWord_zeroSector _)
  exact hiff.2 (.inl ⟨2, Fs.isFree_of_entry (by decide) (by decide) hword,
    fun c hc => hc.1, by decide, hword⟩)

/-- The FAT of a volume of three clusters that are all in use. -/
def fullTable : Sector :=
  setFatWord (setFatWord (setFatWord zeroSector (fatOffset 2) 0x0FFFFFFF)
    (fatOffset 3) 0x0FFFFFFF) (fatOffset 4) 0x0FFFFFFF

theorem fatWord_fullTable :
    fatWord fullTable (fatOffset 2) = 0x0FFFFFFF ∧
      fatWord fullTable (fatOffset 3) = 0x0FFFFFFF ∧
      fatWord fullTable (fatOffset 4) = 0x0FFFFFFF ∧
      fatWord fullTable (fatOffset 5) = 0 := by
  have h32 : fatOffset 2 ≠ fatOffset 3 := by decide
  have h42 : fatOffset 2 ≠ fatOffset 4 := by decide
  have h43 : fatOffset 3 ≠ fatOffset 4 := by decide
  have h52 : fatOffset 5 ≠ fatOffset 2 := by decide
  have h53 : fatOffset 5 ≠ fatOffset 3 := by decide
  have h54 : fatOffset 5 ≠ fatOffset 4 := by decide
  refine ⟨?_, ?_, fatWord_setFatWord_self _ _ _, ?_⟩
  · rw [fullTable, fatWord_setFatWord_of_ne _ h42,
      fatWord_setFatWord_of_ne _ h32, fatWord_setFatWord_self]
  · rw [fullTable, fatWord_setFatWord_of_ne _ h43, fatWord_setFatWord_self]
  · rw [fullTable, fatWord_setFatWord_of_ne _ h54,
      fatWord_setFatWord_of_ne _ h53, fatWord_setFatWord_of_ne _ h52,
      fatWord_zeroSector]

/-- None of the three clusters is free. -/
theorem not_isFree_full {fs : Fs}
    (hentry : ∀ j : Fin 128, fs.entry j.val = fatWord fullTable j) (c : Nat) :
    ¬ fs.IsFree 3 c := by
  rintro ⟨hle, hlt, hfree⟩
  obtain ⟨h2, h3, h4, -⟩ := fatWord_fullTable
  have hword : fs.entry c = 0x0FFFFFFF := by
    rcases (show c = 2 ∨ c = 3 ∨ c = 4 by omega) with rfl | rfl | rfl
    · exact (hentry (fatOffset 2)).trans h2
    · exact (hentry (fatOffset 3)).trans h3
    · exact (hentry (fatOffset 4)).trans h4
  rw [hword] at hfree
  exact absurd hfree (by decide)

/-- On a full volume of three clusters, 2 to 4, the search returns cluster
5. -/
theorem free_cluster_beyond :
    (Bpb.ofSector (bootSector 2)).Consistent 3 ∧
      ((withFat fullTable).init ⟨.dec, []⟩ 1).1.findFreeCluster = 5 ∧
      ¬ ((withFat fullTable).init ⟨.dec, []⟩ 1).1.FindsLeast 3 100 := by
  obtain ⟨fs, hfs, hready, hentry⟩ := init_withFat fullTable
  rw [hfs]
  have hfive : fs.entry 5 = 0 :=
    (hentry (fatOffset 5)).trans fatWord_fullTable.2.2.2
  have hcluster : fs.findFreeCluster = 5 := by
    rcases Fs.findFreeCluster_scansTo hready with
      ⟨c, hc, -, -, hr, hzero, hbefore, -⟩ | ⟨-, hbefore, -⟩
    · have hle : c ≤ 5 := by
        by_contra hlt
        exact hbefore 5 (by decide) (by decide) (by omega) hfive
      have hge : 5 ≤ c := by
        by_contra hlt
        exact not_isFree_full hentry c
          (Fs.isFree_of_entry hc (by omega) hzero)
      rw [hr, show c = 5 by omega]
      rfl
    · exact absurd hfive (hbefore 5 (by decide) (by decide) (by decide))
  refine ⟨consistent_bootSector 2 (by decide), hcluster, fun h => ?_⟩
  have hzero := h.none_iff.2 (not_isFree_full hentry)
  rw [hcluster] at hzero
  exact absurd hzero (by decide)

end TermOS.Storage
