import TermOS.Proofs.FatTree

/-!
# The copies of the FAT

A volume carries its FAT several times, one copy behind the other in front of
the data. `fat32_update_fat` writes to the first and to no other, and nothing
keeps a directory of a damaged volume from lying in one of them. A command that
writes to no copy leaves them as they are. On a volume in order everything but
the FAT is written to the data, so the copies differ as soon as `mkdir` takes a
cluster, and only then: it was free in all of them, and is now in use in one.
-/

namespace TermOS.Storage

open TermOS.Lib

namespace Fs

variable {fs fs' fs'' : Fs} {g : Shape} {n size : Nat} {op : Op}

/-- The `j`-th sector of the `k`-th copy of the FAT. -/
def copySector (fs : Fs) (size k j : Nat) : UInt32 :=
  fs.fatStartSector + UInt32.ofNat (k * size + j)

/-- All of the `n` copies say the same. -/
def CopiesAgree (fs : Fs) (n size : Nat) : Prop :=
  ∀ k < n, ∀ j < size, fs.diskMgr.sectors 1 (fs.copySector size k j) =
    fs.diskMgr.sectors 1 (fs.copySector size 0 j)

/-- The copies of the FAT lie in front of the data, as `fat32_init` has it. -/
def CopiesFit (fs : Fs) (n size : Nat) : Prop :=
  fs.fatStartSector.toNat + n * size ≤ fs.dataStartSector.toNat

/-- A `mkdir` that takes a cluster. -/
def Allocates (fs : Fs) : Op → Prop
  | .mkdir name _ => fs.Takes name
  | _ => False

/-- The sector belongs to no copy. -/
def OffCopies (fs : Fs) (n size : Nat) (lba : UInt32) : Prop :=
  ∀ k < n, ∀ j < size, fs.copySector size k j ≠ lba

/-- What is written goes to no copy, or is there already. -/
def Harmless (fs : Fs) (n size : Nat) (lba : UInt32) (s : Sector) : Prop :=
  fs.OffCopies n size lba ∨ fs.diskMgr.sectors 1 lba = s

/-- The command does not change a copy: neither the current directory, if an
entry of it is replaced, nor what a `mkdir` takes is in one. -/
def SparesCopies (fs : Fs) (n size : Nat) : Op → Prop
  | .cd _ => True
  | .touch name _ => fs.Ready → ∀ i, fs.freeSlot = some i →
      fs.Harmless n size (fs.getSectorByCluster fs.currentDirCluster)
        (setDirEntry fs.currentSector i
          (newFileEntry (dirEntry fs.currentSector i) name))
  | .rm filename _ => fs.Ready → ∀ i, (firstSlot fun i =>
        fatNameMatch filename (dirEntry fs.currentSector i).name) = some i →
      fs.Harmless n size (fs.getSectorByCluster fs.currentDirCluster)
        (setDirEntry fs.currentSector i (removed (dirEntry fs.currentSector i)))
  | .mkdir name _ => fs.Takes name →
      fs.OffCopies n size (fs.fatSector fs.findFreeCluster) ∧
      fs.Harmless n size (fs.getSectorByCluster fs.findFreeCluster)
        (dotEntries fs.findFreeCluster (dotdotOf fs.currentDirCluster)) ∧
      ∀ i, fs.freeSlot = some i →
        fs.Harmless n size (fs.getSectorByCluster fs.currentDirCluster)
          (setDirEntry fs.currentSector i (newDirEntry
            (dirEntry fs.currentSector i) name fs.findFreeCluster))

/-! ## Commands that spare the copies -/

/-- The copies hold in `fs'` what they hold in `fs`. -/
def KeepsCopies (fs fs' : Fs) (n size : Nat) : Prop :=
  ∀ k < n, ∀ j < size, fs'.diskMgr.sectors 1 (fs.copySector size k j) =
    fs.diskMgr.sectors 1 (fs.copySector size k j)

theorem KeepsCopies.refl (fs : Fs) (n size : Nat) : fs.KeepsCopies fs n size :=
  fun _ _ _ _ => rfl

theorem KeepsCopies.put {lba : UInt32} {s : Sector}
    (h : fs.KeepsCopies fs' n size) (hput : fs.Harmless n size lba s) :
    fs.KeepsCopies (fs'.put lba s) n size := by
  intro k hk j hj
  by_cases hlba : fs.copySector size k j = lba
  · have hsame : fs.diskMgr.sectors 1 lba = s :=
      hput.resolve_left fun hoff => hoff k hk j hj hlba
    simp only [Fs.put, Function.update_self, hlba, hsame]
  · simp only [Fs.put, Function.update_self, Function.update_of_ne hlba]
    exact h k hk j hj

theorem CopiesAgree.of_keeps (h : fs.CopiesAgree n size)
    (hkeeps : fs.KeepsCopies fs' n size)
    (hstart : fs'.fatStartSector = fs.fatStartSector) :
    fs'.CopiesAgree n size := by
  have hcopy : fs'.copySector = fs.copySector := by
    funext size k j
    rw [copySector, hstart, copySector]
  intro k hk j hj
  rw [hcopy, hkeeps k hk j hj, hkeeps 0 (Nat.zero_lt_of_lt hk) j hj]
  exact h k hk j hj

theorem keepsCopies_touch {name : Str} {uninit : Sector}
    (h : fs.SparesCopies n size (.touch name uninit)) :
    fs.KeepsCopies (fs.touch name uninit) n size := by
  by_cases hready : fs.Ready
  · simp only [touch, read_ready hready, write_ready hready, Option.getD_some]
    split
    · exact .refl fs n size
    · next i hi => exact (KeepsCopies.refl fs n size).put (h hready i hi)
  · simp only [touch, write_not_ready hready]
    split <;> exact .refl fs n size

theorem keepsCopies_rm {filename : Str} {uninit : Sector}
    (h : fs.SparesCopies n size (.rm filename uninit)) :
    fs.KeepsCopies (fs.rm filename uninit) n size := by
  by_cases hready : fs.Ready
  · simp only [rm, read_ready hready, write_ready hready, Option.getD_some]
    split
    · exact .refl fs n size
    · next i hi => exact (KeepsCopies.refl fs n size).put (h hready i hi)
  · simp only [rm, write_not_ready hready]
    split <;> exact .refl fs n size

theorem keepsCopies_mkdir {name : Str} {uninit : Sector}
    (h : fs.SparesCopies n size (.mkdir name uninit)) :
    fs.KeepsCopies (fs.mkdir name uninit) n size := by
  rcases mkdir_outcomes fs name uninit with ⟨-, m, heq⟩ | ⟨htakes, hrest⟩
  · rw [heq]
    exact .refl fs n size
  · obtain ⟨hfat, hnew, hentry⟩ := h htakes
    have hmade : fs.KeepsCopies (fs.made uninit) n size := by
      rw [made, updateFat_ready htakes.1]
      exact ((KeepsCopies.refl fs n size).put (.inl hfat)).put hnew
    rcases hrest with ⟨-, m, heq⟩ | ⟨i, hi, heq⟩ <;> rw [heq]
    · exact hmade
    · exact hmade.put (hentry i hi)

theorem CopiesAgree.step (h : fs.CopiesAgree n size) (hstep : fs.Step op fs')
    (hspares : fs.SparesCopies n size op) : fs'.CopiesAgree n size := by
  obtain rfl : fs' = fs.perform op := hstep
  cases op with
  | cd path =>
      obtain ⟨c, currentPath, cerr, heq⟩ := cd_stays fs path
      rw [perform, heq]
      exact h
  | touch name uninit =>
      have hplace : fs.SamePlace (fs.touch name uninit) :=
        samePlace_touch name uninit
      rw [perform]
      exact h.of_keeps (keepsCopies_touch hspares) hplace.fatStart
  | rm filename uninit =>
      have hplace : fs.SamePlace (fs.rm filename uninit) :=
        samePlace_rm filename uninit
      rw [perform]
      exact h.of_keeps (keepsCopies_rm hspares) hplace.fatStart
  | mkdir name uninit =>
      have hplace : fs.SamePlace (fs.mkdir name uninit) :=
        samePlace_mkdir name uninit
      rw [perform]
      exact h.of_keeps (keepsCopies_mkdir hspares) hplace.fatStart

/-! ## In front of the data -/

/-- Nothing has changed in front of the data. -/
structure SameFront (fs fs' : Fs) : Prop where
  fatStart : fs'.fatStartSector = fs.fatStartSector
  dataStart : fs'.dataStartSector = fs.dataStartSector
  sectors : ∀ lba : UInt32, lba.toNat < fs.dataStartSector.toNat →
    fs'.diskMgr.sectors 1 lba = fs.diskMgr.sectors 1 lba

theorem SameFront.refl (fs : Fs) : fs.SameFront fs := ⟨rfl, rfl, fun _ _ => rfl⟩

theorem SameFront.trans (h : fs.SameFront fs') (h' : fs'.SameFront fs'') :
    fs.SameFront fs'' where
  fatStart := h'.fatStart.trans h.fatStart
  dataStart := h'.dataStart.trans h.dataStart
  sectors lba hlba :=
    (h'.sectors lba (h.dataStart ▸ hlba)).trans (h.sectors lba hlba)

theorem SameFront.symm (h : fs.SameFront fs') : fs'.SameFront fs where
  fatStart := h.fatStart.symm
  dataStart := h.dataStart.symm
  sectors lba hlba := (h.sectors lba (h.dataStart ▸ hlba)).symm

theorem sameFront_errln (m : Str) : fs.SameFront (fs.errln m) :=
  ⟨rfl, rfl, fun _ _ => rfl⟩

theorem sameFront_put {lba : UInt32} (s : Sector)
    (h : fs.dataStartSector.toNat ≤ lba.toNat) : fs.SameFront (fs.put lba s) where
  fatStart := rfl
  dataStart := rfl
  sectors lba' hlba' := by
    have hne : lba' ≠ lba := by
      intro heq
      subst heq
      omega
    simp [put, hne]

theorem sameFront_cd (path : Str) : fs.SameFront (fs.cd path) := by
  obtain ⟨c, currentPath, cerr, heq⟩ := cd_stays fs path
  rw [heq]
  exact ⟨rfl, rfl, fun _ _ => rfl⟩

theorem CopiesFit.toNat_copySector (h : fs.CopiesFit n size) {k j : Nat}
    (hk : k < n) (hj : j < size) :
    (fs.copySector size k j).toNat = fs.fatStartSector.toNat + (k * size + j) ∧
      (fs.copySector size k j).toNat < fs.dataStartSector.toNat := by
  have hlt : k * size + j < n * size := by
    have hle : (k + 1) * size ≤ n * size := Nat.mul_le_mul_right size hk
    rw [Nat.succ_mul] at hle
    omega
  have hdata := fs.dataStartSector.toNat_lt
  rw [CopiesFit] at h
  have hnat : (fs.copySector size k j).toNat =
      fs.fatStartSector.toNat + (k * size + j) := by
    rw [copySector, UInt32.toNat_add, UInt32.toNat_ofNat',
      Nat.mod_eq_of_lt (a := k * size + j) (by omega),
      Nat.mod_eq_of_lt (by omega)]
  exact ⟨hnat, by omega⟩

theorem CopiesFit.congr (h : fs.CopiesFit n size)
    (hfat : fs'.fatStartSector = fs.fatStartSector)
    (hdata : fs'.dataStartSector = fs.dataStartSector) :
    fs'.CopiesFit n size := by
  rw [CopiesFit, hfat, hdata]
  exact h

/-- The copies are a matter of what is in front of the data. -/
theorem CopiesAgree.sameFront (h : fs.CopiesAgree n size)
    (hfit : fs.CopiesFit n size) (hs : fs.SameFront fs') :
    fs'.CopiesAgree n size := by
  intro k hk j hj
  have hcopy : ∀ k, fs'.copySector size k j = fs.copySector size k j := by
    intro k
    rw [copySector, hs.fatStart, copySector]
  rw [hcopy, hcopy, hs.sectors _ (hfit.toNat_copySector hk hj).2,
    hs.sectors _ (hfit.toNat_copySector (Nat.zero_lt_of_lt hk) hj).2]
  exact h k hk j hj

/-! ## The commands -/

theorem Sound.dataStart_le (h : fs.Sound g) {c : UInt32} (hc : g.Exists c) :
    fs.dataStartSector.toNat ≤ (fs.getSectorByCluster c).toNat := by
  rw [(h.geometry.toNat_sector hc).1]
  omega

theorem Sound.sameFront_touch (h : fs.Sound g) (name : Str) (uninit : Sector) :
    fs.SameFront (fs.touch name uninit) := by
  have hcurrent := h.dataStart_le h.exists
  by_cases hready : fs.Ready
  · simp only [Fs.touch, write_ready hready]
    split
    · exact .refl fs
    · exact sameFront_put _ hcurrent
  · simp only [Fs.touch, write_not_ready hready]
    split <;> exact .refl fs

theorem Sound.sameFront_rm (h : fs.Sound g) (name : Str) (uninit : Sector) :
    fs.SameFront (fs.rm name uninit) := by
  have hcurrent := h.dataStart_le h.exists
  by_cases hready : fs.Ready
  · simp only [Fs.rm, write_ready hready]
    split
    · exact sameFront_errln _
    · exact sameFront_put _ hcurrent
  · simp only [Fs.rm, write_not_ready hready]
    split
    · exact sameFront_errln _
    · exact .refl fs

/-- A `mkdir` that takes no cluster does nothing, and one that takes a cluster
has done its part in front of the data when it has written to the FAT. -/
theorem Sound.sameFront_mkdir (h : fs.Sound g) (name : Str) (uninit : Sector) :
    (¬ fs.Allocates (.mkdir name uninit) →
      fs.SameFront (fs.mkdir name uninit)) ∧
    (fs.Allocates (.mkdir name uninit) →
      (fs.updateFat uninit fs.findFreeCluster 0x0FFFFFFF).SameFront
        (fs.mkdir name uninit)) := by
  rcases mkdir_outcomes fs name uninit with ⟨hnot, m, heq⟩ | ⟨htakes, hrest⟩
  · rw [heq]
    exact ⟨fun _ => sameFront_errln m, fun halloc => absurd halloc hnot⟩
  · refine ⟨fun hnot => absurd htakes hnot, fun _ => ?_⟩
    have hplace : fs.SamePlace
        (fs.updateFat uninit fs.findFreeCluster 0x0FFFFFFF) :=
      samePlace_updateFat uninit _ _
    have hnew := h.dataStart_le (newCluster_spec h.geometry htakes.2.2).1
    have hcurrent := h.dataStart_le h.exists
    rw [← hplace.dataStart] at hnew hcurrent
    rw [made] at hrest
    generalize fs.updateFat uninit fs.findFreeCluster 0x0FFFFFFF = fs₁ at *
    have hmade := sameFront_put (dotEntries fs.findFreeCluster
      (dotdotOf fs.currentDirCluster)) hnew
    rcases hrest with ⟨-, m, heq⟩ | ⟨i, -, heq⟩ <;> rw [heq]
    · exact hmade.trans (sameFront_errln m)
    · exact hmade.trans (sameFront_put _ hcurrent)

/-- The word of a cluster that is taken is in the first copy alone. -/
theorem Sound.not_copiesAgree_updateFat (h : fs.Sound g) (hready : fs.Ready)
    (hn : 2 ≤ n) (hfit : fs.CopiesFit n g.fatSectors)
    (hagree : fs.CopiesAgree n g.fatSectors) (hzero : fs.findFreeCluster ≠ 0)
    (uninit : Sector) :
    ¬ (fs.updateFat uninit fs.findFreeCluster 0x0FFFFFFF).CopiesAgree n
      g.fatSectors := by
  obtain ⟨-, hin, hfree⟩ := findFreeCluster_spec h.geometry hzero
  rw [updateFat_ready hready]
  generalize fs.findFreeCluster = new at *
  have hfirst := h.geometry.toNat_fatSector hin
  have hj : new.toNat / 128 < g.fatSectors := by
    have hlt : new.toNat < 128 * g.fatSectors := hin
    omega
  have hzeroth := hfit.toNat_copySector (by omega : 0 < n) hj
  have hother := hfit.toNat_copySector (by omega : 1 < n) hj
  have hsector : fs.copySector g.fatSectors 0 (new.toNat / 128) =
      fs.fatSector new := by
    apply UInt32.toNat_inj.1
    rw [hzeroth.1, hfirst]
    omega
  have hne : fs.copySector g.fatSectors 1 (new.toNat / 128) ≠
      fs.fatSector new := by
    intro heq
    have hnat := congrArg UInt32.toNat heq
    rw [hother.1, hfirst] at hnat
    omega
  intro hafter
  have hsame := hafter 1 (by omega) _ hj
  have hbefore := hagree 1 (by omega) _ hj
  have hcopy : ∀ s k, (fs.put (fs.fatSector new) s).copySector g.fatSectors k
      (new.toNat / 128) = fs.copySector g.fatSectors k (new.toNat / 128) :=
    fun _ _ => rfl
  rw [hsector] at hbefore
  rw [hcopy, hcopy, hsector] at hsame
  simp only [put, Function.update_self, Function.update_of_ne hne, hbefore]
    at hsame
  -- The old sector has a zero where the new one has the mark.
  have hword := congrArg (fatWord · (fatOffset new)) hsame
  simp only [fatWord_setFatWord_self] at hword
  simp only [volume, if_pos hin, hword] at hfree
  exact absurd hfree (by decide)

theorem copiesAgree_step_iff (h : fs.Sound g) (hn : 2 ≤ n)
    (hfit : fs.CopiesFit n g.fatSectors)
    (hagree : fs.CopiesAgree n g.fatSectors) (hstep : fs.Step op fs') :
    fs'.CopiesAgree n g.fatSectors ↔ ¬ fs.Allocates op := by
  obtain rfl : fs' = fs.perform op := hstep
  cases op with
  | cd path =>
      exact iff_of_true (hagree.sameFront hfit (sameFront_cd path)) id
  | touch name uninit =>
      exact iff_of_true
        (hagree.sameFront hfit (h.sameFront_touch name uninit)) id
  | rm filename uninit =>
      exact iff_of_true
        (hagree.sameFront hfit (h.sameFront_rm filename uninit)) id
  | mkdir name uninit =>
      obtain ⟨hkeep, hfat⟩ := h.sameFront_mkdir name uninit
      refine ⟨?_, ?_⟩
      · intro hafter halloc
        have hplace : fs.SamePlace (fs.mkdir name uninit) :=
          samePlace_mkdir name uninit
        exact h.not_copiesAgree_updateFat halloc.1 hn hfit hagree halloc.2.2
          uninit (hafter.sameFront (hfit.congr hplace.fatStart hplace.dataStart)
            (hfat halloc).symm)
      · exact fun hnot => hagree.sameFront hfit (hkeep hnot)

/-- On a volume in order the data is off the copies, and the word of a cluster
that is taken is in the first of them. -/
theorem Sound.sparesCopies_iff (h : fs.Sound g) (hn : 0 < n)
    (hfit : fs.CopiesFit n g.fatSectors) :
    fs.SparesCopies n g.fatSectors op ↔ ¬ fs.Allocates op := by
  have hdata : ∀ {c}, g.Exists c →
      fs.OffCopies n g.fatSectors (fs.getSectorByCluster c) := by
    intro c hc k hk j hj heq
    have hle := h.dataStart_le hc
    rw [← heq] at hle
    exact absurd (hfit.toNat_copySector hk hj).2 (Nat.not_lt.2 hle)
  cases op with
  | cd path => exact iff_of_true trivial id
  | touch name uninit =>
      exact iff_of_true (fun _ _ _ => .inl (hdata h.exists)) id
  | rm filename uninit =>
      exact iff_of_true (fun _ _ _ => .inl (hdata h.exists)) id
  | mkdir name uninit =>
      refine ⟨fun hspares htakes => ?_, fun hnot htakes => absurd htakes hnot⟩
      obtain ⟨-, hin, -⟩ := findFreeCluster_spec h.geometry htakes.2.2
      have hj : fs.findFreeCluster.toNat / 128 < g.fatSectors := by
        have hlt : fs.findFreeCluster.toNat < 128 * g.fatSectors := hin
        omega
      refine (hspares htakes).1 0 hn _ hj (UInt32.toNat_inj.1 ?_)
      rw [(hfit.toNat_copySector hn hj).1, h.geometry.toNat_fatSector hin]
      omega

theorem copiesFit_step (hfit : fs.CopiesFit n size) (hstep : fs.Step op fs') :
    fs'.CopiesFit n size := by
  obtain rfl : fs' = fs.perform op := hstep
  cases op with
  | cd path =>
      have hfront := fs.sameFront_cd path
      exact hfit.congr hfront.fatStart hfront.dataStart
  | mkdir name uninit =>
      have hplace : fs.SamePlace (fs.mkdir name uninit) :=
        samePlace_mkdir name uninit
      exact hfit.congr hplace.fatStart hplace.dataStart
  | touch name uninit =>
      have hplace : fs.SamePlace (fs.touch name uninit) :=
        samePlace_touch name uninit
      exact hfit.congr hplace.fatStart hplace.dataStart
  | rm filename uninit =>
      have hplace : fs.SamePlace (fs.rm filename uninit) :=
        samePlace_rm filename uninit
      exact hfit.congr hplace.fatStart hplace.dataStart

end Fs

/-! ## A volume with two copies -/

/-- The formatted volume with a second copy of its FAT. -/
def mirrored : Fs :=
  { formatted with
    diskMgr := ⟨2, fun drive lba =>
      formatted.diskMgr.sectors drive (if lba = 132 then 32 else lba)⟩
    dataStartSector := 232 }

theorem sectors_mirrored (lba : UInt32) : mirrored.diskMgr.sectors 1 lba =
    if lba = 32 ∨ lba = 132 then setFatWord zeroSector 2 0x0FFFFFFF
    else zeroSector := by
  show (if (if lba = 132 then 32 else lba) = 32 then _ else _) = _
  by_cases h : lba = 132
  · simp [h]
  · simp [h]

theorem geometry_mirrored : Geometry mirrored ⟨12798, 100⟩ := by
  refine ⟨?_, ?_, ?_, .inl ?_, ?_, ?_⟩ <;> decide

theorem volume_mirrored :
    mirrored.volume ⟨12798, 100⟩ = formatted.volume ⟨12798, 100⟩ := by
  apply Volume.ext
  · funext c
    simp only [Fs.volume]
    split
    · next hin =>
        have hnat := geometry_formatted.toNat_fatSector hin
        have hlt : c.toNat < 128 * 100 := hin
        have hstart : formatted.fatStartSector.toNat = 32 := rfl
        have hne : formatted.fatSector c ≠ 132 := by
          intro heq
          have hnat' := congrArg UInt32.toNat heq
          have h132 : (132 : UInt32).toNat = 132 := rfl
          omega
        have hsector : mirrored.diskMgr.sectors 1 (mirrored.fatSector c) =
            formatted.diskMgr.sectors 1 (formatted.fatSector c) := by
          show formatted.diskMgr.sectors 1
            (if formatted.fatSector c = 132 then 32
              else formatted.fatSector c) = _
          rw [if_neg hne]
        rw [hsector]
    · rfl
  · funext c i
    simp only [Fs.volume]
    split
    · next hc =>
        have hle := (geometry_mirrored.toNat_sector hc).1
        have hstart : mirrored.dataStartSector.toNat = 232 := rfl
        have h32 : (32 : UInt32).toNat = 32 := rfl
        have h132 : (132 : UInt32).toNat = 132 := rfl
        have hne : ¬ (mirrored.getSectorByCluster c = 32 ∨
            mirrored.getSectorByCluster c = 132) := by
          intro heq
          rcases heq with heq | heq
          · have hnat := congrArg UInt32.toNat heq
            omega
          · have hnat := congrArg UInt32.toNat heq
            omega
        have hsector : mirrored.diskMgr.sectors 1
            (mirrored.getSectorByCluster c) = zeroSector := by
          rw [sectors_mirrored, if_neg hne]
        rw [hsector, formatted_sector hc]
    · rfl

theorem sound_mirrored : mirrored.Sound ⟨12798, 100⟩ := by
  refine ⟨geometry_mirrored, ?_, ?_⟩ <;> rw [volume_mirrored]
  · exact sound_formatted.tree
  · exact sound_formatted.current

theorem copiesFit_mirrored : mirrored.CopiesFit 2 100 :=
  (by decide : 32 + 2 * 100 ≤ 232)

theorem copiesAgree_mirrored : mirrored.CopiesAgree 2 100 := by
  intro k hk j hj
  have hsector : ∀ k < 2,
      mirrored.diskMgr.sectors 1 (mirrored.copySector 100 k j) =
      if j = 0 then setFatWord zeroSector 2 0x0FFFFFFF else zeroSector := by
    intro k hk
    have hnat := (copiesFit_mirrored.toNat_copySector hk hj).1
    have hstart : mirrored.fatStartSector.toNat = 32 := rfl
    have h32 : (32 : UInt32).toNat = 32 := rfl
    have h132 : (132 : UInt32).toNat = 132 := rfl
    have hiff : (mirrored.copySector 100 k j = 32 ∨
        mirrored.copySector 100 k j = 132) ↔ j = 0 := by
      rw [← UInt32.toNat_inj, ← UInt32.toNat_inj]
      omega
    simp only [sectors_mirrored, hiff]
  rw [hsector k hk, hsector 0 (by decide)]

theorem allocates_mirrored :
    mirrored.Allocates (.mkdir (lit "a") zeroSector) := by
  have hready : mirrored.Ready := (by decide : (1 : UInt8) < 2)
  refine ⟨hready, ?_, ?_⟩
  · rw [Fs.findFile_eq hready sound_mirrored.exists, volume_mirrored,
      Volume.lookup, lookupSlot_formatted]
    rfl
  · refine Fs.findFreeCluster_ne_zero hready geometry_mirrored
      (by decide : 2 ≤ (3 : UInt32).toNat) (by decide) ?_
    rw [volume_mirrored, formatted_fat]
    rfl

/-! ## Runs -/

/-- Identical copies of the FAT stay identical along every run whose commands
change none of them. On a volume in order these are the only runs along which
two or more copies do, and the commands are those that take no cluster. -/
theorem copiesAgree_along_run {fs fs' : Fs} {n size : Nat} {ops : List Op}
    (hagree : fs.CopiesAgree n size) :
    (Trace (Trace.Along Fs.Step fun s op _ => s.SparesCopies n size op)
        fs ops fs' →
      Trace (Trace.Along Fs.Step fun _ _ t => t.CopiesAgree n size)
        fs ops fs') ∧
    ∀ g : Shape, fs.Sound g → g.fatSectors = size → 2 ≤ n →
      fs.CopiesFit n size →
      (Trace (Trace.Along Fs.Step fun _ _ t => t.CopiesAgree n size) fs ops fs' →
        Trace (Trace.Along Fs.Step fun s op _ => s.SparesCopies n size op)
          fs ops fs') ∧
      (Trace (Trace.Along Fs.Step fun s op _ => s.SparesCopies n size op)
          fs ops fs' ↔
        Trace (Trace.Along Fs.Step fun s op _ => ¬ s.Allocates op) fs ops fs') := by
  refine ⟨?_, ?_⟩
  · exact Trace.along_mono (I := fun s : Fs => s.CopiesAgree n size)
      (fun _ _ _ hi hstep hspares =>
        have hi' := hi.step hstep hspares
        ⟨hi', hi'⟩) hagree
  · rintro g hsound rfl hn hfit
    have hinv : ∀ (s : Fs) (op : Op) (s' : Fs),
        s.Sound g ∧ s.CopiesFit n g.fatSectors → s.Step op s' →
        s'.Sound g ∧ s'.CopiesFit n g.fatSectors :=
      fun _ _ _ hs hstep => ⟨hs.1.step hstep, Fs.copiesFit_step hs.2 hstep⟩
    have hspares : Trace (Trace.Along Fs.Step fun s op _ =>
          s.SparesCopies n g.fatSectors op) fs ops fs' ↔
        Trace (Trace.Along Fs.Step fun s op _ => ¬ s.Allocates op) fs ops fs' :=
      Trace.along_congr (fun s op s' hs hstep _ => hinv s op s' hs hstep)
        (fun _ _ _ hs _ =>
          hs.1.sparesCopies_iff (Nat.lt_of_lt_of_le Nat.one_pos
            (Nat.le_of_succ_le hn)) hs.2) ⟨hsound, hfit⟩
    refine ⟨fun hrun => hspares.2 ?_, hspares⟩
    exact (Trace.along_kept_iff (fun s op s' hs hstep => hinv s op s' hs hstep)
      (fun _ _ _ hs hi hstep => Fs.copiesAgree_step_iff hs.1 hn hs.2 hi hstep)
      ⟨hsound, hfit⟩ hagree).1 hrun

/-- A file is made and removed again. -/
theorem copiesAgree_along_run_mirrored :
    Trace (Trace.Along Fs.Step fun _ _ t => t.CopiesAgree 2 100) mirrored
      [.touch (lit "a") zeroSector, .rm (lit "a") zeroSector]
      ((mirrored.touch (lit "a") zeroSector).rm (lit "a") zeroSector) := by
  have hall := @copiesAgree_along_run mirrored
    ((mirrored.touch (lit "a") zeroSector).rm (lit "a") zeroSector) 2 100
    [.touch (lit "a") zeroSector, .rm (lit "a") zeroSector] copiesAgree_mirrored
  refine hall.1 (((hall.2 ⟨12798, 100⟩ sound_mirrored rfl (Nat.le_refl 2)
    copiesFit_mirrored).2).2 ?_)
  exact .cons ⟨rfl, id⟩ (.cons ⟨rfl, id⟩ (.nil _))

/-- One `mkdir` is enough. -/
theorem not_copiesAgree_mkdir :
    mirrored.Sound ⟨12798, 100⟩ ∧ mirrored.CopiesFit 2 100 ∧
      mirrored.CopiesAgree 2 100 ∧
      ¬ (mirrored.mkdir (lit "a") zeroSector).CopiesAgree 2 100 := by
  refine ⟨sound_mirrored, copiesFit_mirrored, copiesAgree_mirrored, ?_⟩
  intro hafter
  have hstep : mirrored.Step (.mkdir (lit "a") zeroSector)
      (mirrored.mkdir (lit "a") zeroSector) := rfl
  exact (Fs.copiesAgree_step_iff sound_mirrored (Nat.le_refl 2)
    copiesFit_mirrored copiesAgree_mirrored hstep).1 hafter allocates_mirrored

end TermOS.Storage
