import TermOS.Proofs.FatTree
import TermOS.Ref.Fat32Writes

/-!
# A power cut between two writes

`touch` and `rm` write one sector. `mkdir` writes three, and it writes the one
that shows last: first the FAT, then the sector of the new directory, and only
then the entry that makes it part of the tree. So wherever the power goes, the
tree on the disk is the one before the command or the one after it. What a cut
can cost is the cluster that was taken and is not yet named.
-/

namespace TermOS.Storage

open TermOS.Lib

namespace Fs

variable {fs fs' : Fs} {g : Shape} {w : SectorWrite} {ws vs : List SectorWrite}
  {op : Op} {name : Str} {uninit : Sector} {lba : UInt32}

/-! ## Some of the writes -/

theorem cut_cons (fs : Fs) (w : SectorWrite) (ws : List SectorWrite) :
    fs.cut (w :: ws) = (fs.write w.lba w.data).2.cut ws := rfl

theorem samePlace_write (fs : Fs) (lba : UInt32) (s : Sector) :
    fs.SamePlace (fs.write lba s).2 := by
  by_cases h : fs.Ready
  · rw [write_ready h]
    exact samePlace_put
  · rw [write_not_ready h]
    exact .refl fs

theorem samePlace_cut (fs : Fs) (ws : List SectorWrite) :
    fs.SamePlace (fs.cut ws) := by
  induction ws generalizing fs with
  | nil => exact .refl fs
  | cons w ws ih => exact (samePlace_write fs w.lba w.data).trans (ih _)

theorem cut_not_ready (h : ¬ fs.Ready) : fs.cut ws = fs := by
  induction ws with
  | nil => rfl
  | cons w ws ih =>
      rw [cut_cons, write_not_ready h]
      exact ih

theorem cut_ready (h : fs.Ready) :
    fs.cut (w :: ws) = (fs.put w.lba w.data).cut ws := by
  rw [cut_cons, write_ready h]

/-- A sector that is not written keeps what it holds. -/
theorem sectors_cut (h : ∀ w ∈ ws, w.lba ≠ lba) :
    (fs.cut ws).diskMgr.sectors 1 lba = fs.diskMgr.sectors 1 lba := by
  by_cases hready : fs.Ready
  · induction ws generalizing fs with
    | nil => rfl
    | cons w ws ih =>
        have hne := h w List.mem_cons_self
        rw [cut_ready hready,
          ih (fun v hv => h v (List.mem_cons_of_mem w hv))
            (hready.samePlace samePlace_put)]
        simp [put, Ne.symm hne]
  · rw [cut_not_ready hready]

/-- Nothing is written to another drive. -/
theorem sectors_cut_drive {drive : UInt8} (h : drive ≠ 1) (fs : Fs)
    (ws : List SectorWrite) :
    (fs.cut ws).diskMgr.sectors drive = fs.diskMgr.sectors drive := by
  by_cases hready : fs.Ready
  · induction ws generalizing fs with
    | nil => rfl
    | cons w ws ih =>
        rw [cut_ready hready, ih _ (hready.samePlace samePlace_put)]
        simp [put, h]
  · rw [cut_not_ready hready]

/-! ## The writes of a command -/

theorem touchWrites_ready (h : fs.Ready) : fs.touchWrites name uninit =
    fs.freeSlot.elim [] fun i =>
      [⟨fs.getSectorByCluster fs.currentDirCluster,
        setDirEntry fs.currentSector i
          (newFileEntry (dirEntry fs.currentSector i) name)⟩] := by
  simp only [touchWrites, read_ready h, Option.getD_some, freeSlot,
    currentSector]
  cases firstSlot fun i => (dirEntry (fs.diskMgr.sectors 1
    (fs.getSectorByCluster fs.currentDirCluster)) i).isFree <;> rfl

theorem rmWrites_ready (h : fs.Ready) : fs.rmWrites name uninit =
    (firstSlot fun i =>
      fatNameMatch name (dirEntry fs.currentSector i).name).elim [] fun i =>
      [⟨fs.getSectorByCluster fs.currentDirCluster,
        setDirEntry fs.currentSector i
          (removed (dirEntry fs.currentSector i))⟩] := by
  simp only [rmWrites, read_ready h, Option.getD_some, currentSector]
  cases firstSlot fun i => fatNameMatch name (dirEntry (fs.diskMgr.sectors 1
    (fs.getSectorByCluster fs.currentDirCluster)) i).name <;> rfl

theorem mkdirWrites_of_not_takes (h : ¬ fs.Takes name) :
    fs.mkdirWrites name uninit = [] := by
  by_cases hready : fs.Ready
  · simp only [mkdirWrites, read_ready hready]
    cases hfind : fs.findFile name with
    | some e => rfl
    | none =>
        by_cases hzero : fs.findFreeCluster = 0
        · simp only [if_pos hzero]
        · exact absurd ⟨hready, hfind, hzero⟩ h
  · simp only [mkdirWrites, findFile_not_ready hready, read_not_ready hready]

/-- The word of the FAT, the new directory, and its entry. -/
theorem mkdirWrites_of_takes (h : fs.Takes name) (uninit : Sector) :
    fs.mkdirWrites name uninit =
      ⟨fs.fatSector fs.findFreeCluster,
        setFatWord (fs.diskMgr.sectors 1 (fs.fatSector fs.findFreeCluster))
          (fatOffset fs.findFreeCluster) 0x0FFFFFFF⟩ ::
      ⟨fs.getSectorByCluster fs.findFreeCluster,
        dotEntries fs.findFreeCluster (dotdotOf fs.currentDirCluster)⟩ ::
      fs.freeSlot.elim [] fun i =>
        [⟨fs.getSectorByCluster fs.currentDirCluster,
          setDirEntry fs.currentSector i
            (newDirEntry (dirEntry fs.currentSector i) name
              fs.findFreeCluster)⟩] := by
  obtain ⟨hready, hfind, hzero⟩ := h
  simp only [mkdirWrites, hfind, read_ready hready, if_neg hzero,
    updateFatWrites, Option.getD_some, freeSlot, currentSector, fatSector,
    List.cons_append, List.nil_append, dotdotOf]
  cases firstSlot fun i => (dirEntry (fs.diskMgr.sectors 1
    (fs.getSectorByCluster fs.currentDirCluster)) i).isFree <;> rfl

/-- The first two writes are what has been made when the entry is missing. -/
theorem cut_made (h : fs.Takes name) (uninit : Sector)
    (ws : List SectorWrite) :
    fs.cut (⟨fs.fatSector fs.findFreeCluster,
        setFatWord (fs.diskMgr.sectors 1 (fs.fatSector fs.findFreeCluster))
          (fatOffset fs.findFreeCluster) 0x0FFFFFFF⟩ ::
      ⟨fs.getSectorByCluster fs.findFreeCluster,
        dotEntries fs.findFreeCluster (dotdotOf fs.currentDirCluster)⟩ :: ws) =
      (fs.made uninit).cut ws := by
  rw [cut_ready h.1, cut_ready (h.1.samePlace samePlace_put), made,
    updateFat_ready h.1]

/-- A command leaves on the disk what it has written, all of it. -/
theorem diskMgr_perform (fs : Fs) (op : Op) :
    (fs.perform op).diskMgr = (fs.cut (fs.writes op)).diskMgr := by
  cases op with
  | cd path =>
      obtain ⟨c, currentPath, cerr, heq⟩ := cd_stays fs path
      rw [perform, heq]
      rfl
  | mkdir name uninit =>
      rw [perform, writes]
      rcases mkdir_outcomes fs name uninit with ⟨hnot, m, heq⟩ | ⟨htakes, hrest⟩
      · rw [heq, mkdirWrites_of_not_takes hnot]
        rfl
      · rw [mkdirWrites_of_takes htakes uninit, cut_made htakes uninit]
        rcases hrest with ⟨hslot, m, heq⟩ | ⟨i, hslot, heq⟩
        · rw [heq, hslot]
          rfl
        · rw [heq, hslot, Option.elim_some,
            cut_ready (htakes.1.samePlace (samePlace_made uninit))]
          rfl
  | touch name uninit =>
      rw [perform, writes]
      by_cases h : fs.Ready
      · rw [touchWrites_ready h]
        simp only [touch, read_ready h, write_ready h, Option.getD_some,
          freeSlot, currentSector]
        cases firstSlot fun i => (dirEntry (fs.diskMgr.sectors 1
            (fs.getSectorByCluster fs.currentDirCluster)) i).isFree with
        | none => rfl
        | some i =>
            rw [Option.elim_some, cut_ready h]
            rfl
      · rw [cut_not_ready h]
        simp only [touch, write_not_ready h]
        split <;> rfl
  | rm filename uninit =>
      rw [perform, writes]
      by_cases h : fs.Ready
      · rw [rmWrites_ready h]
        simp only [rm, read_ready h, write_ready h, Option.getD_some,
          currentSector]
        cases firstSlot fun i => fatNameMatch filename (dirEntry
            (fs.diskMgr.sectors 1
              (fs.getSectorByCluster fs.currentDirCluster)) i).name with
        | none => rfl
        | some i =>
            rw [Option.elim_some, cut_ready h]
            rfl
      · rw [cut_not_ready h]
        simp only [rm, write_not_ready h]
        split <;> rfl

end Fs

/-! ## What the cut leaves of the volume -/

namespace Volume

variable {v v' : Volume} {g : Shape} {c new : UInt32}

/-- The same directories in reach, with the same entries. -/
structure SameTree (v v' : Volume) : Prop where
  reach : ∀ c, v'.InReach c ↔ v.InReach c
  dir : ∀ c, v.InReach c → v'.dir c = v.dir c

theorem SameTree.refl (v : Volume) : v.SameTree v :=
  ⟨fun _ => Iff.rfl, fun _ _ => rfl⟩

/-- The tree is not a matter of the FAT. -/
theorem sameTree_setFat (v : Volume) (c value : UInt32) :
    v.SameTree (v.setFat c value) := ⟨fun _ => Iff.rfl, fun _ _ => rfl⟩

theorem WellFormed.setFat (h : v.WellFormed g) {value : UInt32}
    (hvalue : value ≠ 0) : (v.setFat new value).WellFormed g := by
  have hused : ∀ {c}, v.fat c ≠ 0 → (v.setFat new value).fat c ≠ 0 := by
    intro c hc
    by_cases hnew : c = new
    · simpa [Volume.setFat, hnew] using hvalue
    · simpa [Volume.setFat, hnew] using hc
  exact ⟨h.tree, h.exist, h.dotdot, hused h.rootUsed,
    fun x i hx hlive hc => hused (h.used x i hx hlive hc)⟩

theorem Sole.setFat (h : v.Sole) (c value : UInt32) : (v.setFat c value).Sole :=
  ⟨h.root, h.inj⟩

/-- A directory that nothing names is not in the tree. -/
theorem sameTree_allocate (h : v.WellFormed g) (hfree : v.fat new = 0)
    (p : UInt32) : v.SameTree (v.allocate new p) where
  reach _ := ⟨inReach_of_allocate, InReach.allocate h hfree⟩
  dir c hc := by
    refine allocate_of_ne ?_
    intro heq
    subst heq
    exact h.not_inReach hfree hc

end Volume

namespace Fs

variable {fs : Fs} {g : Shape} {ws : List SectorWrite} {op : Op}

/-- The volume that a command finds, or leaves, or one of the two that `mkdir`
makes of it on the way. -/
inductive Passes (fs : Fs) (g : Shape) (op : Op) : Volume → Prop
  | before : fs.Passes g op (fs.volume g)
  | after : fs.Passes g op ((fs.perform op).volume g)
  | taken (h : fs.findFreeCluster ≠ 0) : fs.Passes g op
      ((fs.volume g).setFat fs.findFreeCluster 0x0FFFFFFF)
  | made (h : fs.findFreeCluster ≠ 0) : fs.Passes g op
      ((fs.volume g).allocate fs.findFreeCluster
        (dotdotOf fs.currentDirCluster))

/-- A sector of the FAT, or of a cluster that exists. -/
def InVolume (fs : Fs) (g : Shape) (lba : UInt32) : Prop :=
  (∃ c, g.InFat c ∧ lba = fs.fatSector c) ∨
    ∃ c, g.Exists c ∧ lba = fs.getSectorByCluster c

/-- A volume is what its sectors say. -/
theorem volume_congr {fs' : Fs} (hfat : fs'.fatStartSector = fs.fatStartSector)
    (hdata : fs'.dataStartSector = fs.dataStartSector)
    (hper : fs'.sectorsPerClusterGlobal = fs.sectorsPerClusterGlobal)
    (hsectors : ∀ lba, fs.InVolume g lba →
      fs'.diskMgr.sectors 1 lba = fs.diskMgr.sectors 1 lba) :
    fs'.volume g = fs.volume g := by
  have hfatSector : fs'.fatSector = fs.fatSector := by
    funext c
    rw [fatSector, fatSector, hfat]
  have hsector : fs'.getSectorByCluster = fs.getSectorByCluster := by
    funext c
    rw [getSectorByCluster, getSectorByCluster, hdata, hper]
  apply Volume.ext
  · funext c
    simp only [volume, hfatSector]
    split
    · next hin => rw [hsectors _ (.inl ⟨c, hin, rfl⟩)]
    · rfl
  · funext c
    simp only [volume, hsector]
    split
    · next hc => rw [hsectors _ (.inr ⟨c, hc, rfl⟩)]
    · rfl

theorem volume_cut_writes (hs : fs.SamePlace (fs.perform op)) :
    (fs.cut (fs.writes op)).volume g = (fs.perform op).volume g := by
  have hcut := samePlace_cut fs (fs.writes op)
  refine volume_congr (hcut.fatStart.trans hs.fatStart.symm)
    (hcut.dataStart.trans hs.dataStart.symm)
    (hcut.perCluster.trans hs.perCluster.symm) fun lba _ => ?_
  rw [diskMgr_perform]

/-- A command that writes once at most is cut in front of it or not at all. -/
theorem passes_of_length (hws : ws <+: fs.writes op)
    (hlen : (fs.writes op).length ≤ 1) (hs : fs.SamePlace (fs.perform op)) :
    fs.Passes g op ((fs.cut ws).volume g) := by
  by_cases hnil : ws.length = 0
  · obtain rfl := List.length_eq_zero_iff.1 hnil
    exact .before
  · obtain rfl := hws.eq_of_length_le (by omega)
    rw [volume_cut_writes hs]
    exact .after

theorem Sound.passes_cut (h : fs.Sound g) (hws : ws <+: fs.writes op) :
    fs.Passes g op ((fs.cut ws).volume g) := by
  cases op with
  | cd path =>
      obtain rfl := List.prefix_nil.1 hws
      exact .before
  | touch name uninit =>
      refine passes_of_length hws ?_ (samePlace_touch name uninit)
      simp only [writes, touchWrites]
      split <;> simp
  | rm filename uninit =>
      refine passes_of_length hws ?_ (samePlace_rm filename uninit)
      simp only [writes, rmWrites]
      split <;> simp
  | mkdir name uninit =>
      by_cases htakes : fs.Takes name
      case neg =>
        rw [writes, mkdirWrites_of_not_takes htakes] at hws
        obtain rfl := List.prefix_nil.1 hws
        exact .before
      have hready := htakes.1
      have hnew := htakes.2.2
      obtain ⟨hexist, hin, -⟩ := findFreeCluster_spec h.geometry hnew
      have hfull := mkdirWrites_of_takes htakes uninit
      rw [writes, hfull] at hws
      -- One more write at a time.
      rcases List.prefix_cons_iff.1 hws with rfl | ⟨t, rfl, ht⟩
      · exact .before
      rcases List.prefix_cons_iff.1 ht with rfl | ⟨t, rfl, ht⟩
      · rw [cut_ready hready]
        show fs.Passes g _ ((fs.put _ _).volume g)
        rw [h.geometry.volume_put_fatSector hin]
        exact .taken hnew
      rcases List.eq_nil_or_concat t with rfl | ⟨l, w, rfl⟩
      · rw [cut_made htakes uninit]
        show fs.Passes g _ ((fs.made uninit).volume g)
        rw [made, volume_allocate hready h.geometry hexist hin]
        exact .made hnew
      · cases hslot : fs.freeSlot with
        | none =>
            rw [hslot] at ht
            simp at ht
        | some i =>
            rw [hslot] at ht hfull
            have hwhole := ht.eq_of_length_le (by simp)
            rw [hwhole, ← hfull]
            show fs.Passes g _ ((fs.cut (fs.writes (.mkdir name uninit))).volume g)
            rw [volume_cut_writes (samePlace_mkdir name uninit)]
            exact .after

/-- What is in order before a command is in order behind a cut. -/
theorem Passes.wellFormed {v : Volume} (hp : fs.Passes g op v)
    (h : fs.Sound g) : v.WellFormed g := by
  cases hp with
  | before => exact h.tree
  | after => exact (h.step rfl : (fs.perform op).Sound g).tree
  | taken hnew => exact h.tree.setFat (by simp)
  | made hnew =>
      exact h.tree.allocate (newCluster_spec h.geometry hnew).2

theorem Passes.sole {v : Volume} (hp : fs.Passes g op v) (h : fs.Sound g)
    (hsole : (fs.volume g).Sole) : v.Sole := by
  cases hp with
  | before => exact hsole
  | after => exact h.sole hsole rfl
  | taken hnew => exact hsole.setFat _ _
  | made hnew =>
      exact hsole.allocate h.tree (newCluster_spec h.geometry hnew).2

/-- The tree is the one before the command or the one after it. -/
theorem Passes.sameTree {v : Volume} (hp : fs.Passes g op v) (h : fs.Sound g) :
    (fs.volume g).SameTree v ∨ ((fs.perform op).volume g).SameTree v := by
  cases hp with
  | before => exact .inl (.refl _)
  | after => exact .inr (.refl _)
  | taken hnew => exact .inl (Volume.sameTree_setFat _ _ _)
  | made hnew =>
      exact .inl (Volume.sameTree_allocate h.tree
        (newCluster_spec h.geometry hnew).2 _)

/-- A command changes no word of the FAT but that of the cluster it takes. -/
theorem fat_perform (h : fs.Sound g) {c : UInt32}
    (hc : ((fs.perform op).volume g).fat c ≠ (fs.volume g).fat c) :
    fs.findFreeCluster ≠ 0 ∧ c = fs.findFreeCluster := by
  by_cases hready : fs.Ready
  case neg =>
    rw [h.volume_not_ready hready op] at hc
    exact absurd rfl hc
  rw [h.volume_perform hready op] at hc
  cases op with
  | cd path => exact absurd rfl hc
  | touch name uninit =>
      rw [Volume.perform, Volume.touch] at hc
      split at hc <;> exact absurd rfl hc
  | rm filename uninit =>
      rw [Volume.perform, Volume.rm] at hc
      split at hc <;> exact absurd rfl hc
  | mkdir name uninit =>
      rw [Volume.perform] at hc
      rcases Volume.mkdir_cases (fs.volume g) fs.currentDirCluster name
        fs.findFreeCluster with ⟨-, heq⟩ | ⟨-, hnew, hrest⟩
      · rw [heq] at hc
        exact absurd rfl hc
      · refine ⟨hnew, ?_⟩
        by_contra hne
        rcases hrest with ⟨-, heq⟩ | ⟨i, -, heq⟩
        · rw [heq] at hc
          exact hc (Volume.allocate_fat_of_ne hne)
        · rw [heq, Volume.link, Volume.setSlot_fat] at hc
          exact hc (Volume.allocate_fat_of_ne hne)

/-- So a cut costs one cluster at most. -/
theorem Passes.fat {v : Volume} (hp : fs.Passes g op v) (h : fs.Sound g)
    {c : UInt32} (hc : v.fat c ≠ (fs.volume g).fat c) :
    c = fs.findFreeCluster ∧ (fs.volume g).fat c = 0 := by
  have hcases : fs.findFreeCluster ≠ 0 ∧ c = fs.findFreeCluster := by
    cases hp with
    | before => exact absurd rfl hc
    | after => exact fat_perform h hc
    | taken hnew =>
        refine ⟨hnew, ?_⟩
        by_contra hne
        exact hc (by simp [Volume.setFat, hne])
    | made hnew =>
        refine ⟨hnew, ?_⟩
        by_contra hne
        exact hc (Volume.allocate_fat_of_ne hne)
  obtain ⟨hnew, rfl⟩ := hcases
  exact ⟨rfl, (newCluster_spec h.geometry hnew).2⟩

theorem Passes.fat_ne_zero {v : Volume} (hp : fs.Passes g op v)
    (h : fs.Sound g) {c : UInt32} (hc : (fs.volume g).fat c ≠ 0) :
    v.fat c ≠ 0 := by
  intro hzero
  refine hc (hp.fat h ?_).2
  rw [hzero]
  exact hc.symm

/-! ## Where the writes go -/

theorem Sound.mem_writes (h : fs.Sound g) {w : SectorWrite}
    (hw : w ∈ fs.writes op) : fs.InVolume g w.lba := by
  have hcurrent : fs.InVolume g (fs.getSectorByCluster fs.currentDirCluster) :=
    .inr ⟨_, h.exists, rfl⟩
  cases op with
  | cd path => cases hw
  | touch name uninit =>
      simp only [writes, touchWrites] at hw
      split at hw
      · cases hw
      · obtain rfl := List.mem_singleton.1 hw
        exact hcurrent
  | rm filename uninit =>
      simp only [writes, rmWrites] at hw
      split at hw
      · cases hw
      · obtain rfl := List.mem_singleton.1 hw
        exact hcurrent
  | mkdir name uninit =>
      by_cases htakes : fs.Takes name
      case neg =>
        rw [writes, mkdirWrites_of_not_takes htakes] at hw
        cases hw
      obtain ⟨hexist, hin, -⟩ := findFreeCluster_spec h.geometry htakes.2.2
      rw [writes, mkdirWrites_of_takes htakes uninit] at hw
      rcases List.mem_cons.1 hw with rfl | hw
      · exact .inl ⟨_, hin, rfl⟩
      rcases List.mem_cons.1 hw with rfl | hw
      · exact .inr ⟨_, hexist, rfl⟩
      cases hslot : fs.freeSlot with
      | none =>
          rw [hslot] at hw
          cases hw
      | some i =>
          rw [hslot] at hw
          obtain rfl := List.mem_singleton.1 hw
          exact hcurrent

/-- Two states of one volume: what is not of the volume is the same. -/
structure Spares (g : Shape) (fs fs' : Fs) : Prop where
  driveCount : fs'.diskMgr.driveCount = fs.diskMgr.driveCount
  fatStart : fs'.fatStartSector = fs.fatStartSector
  dataStart : fs'.dataStartSector = fs.dataStartSector
  perCluster : fs'.sectorsPerClusterGlobal = fs.sectorsPerClusterGlobal
  drives : ∀ drive ≠ 1, fs'.diskMgr.sectors drive = fs.diskMgr.sectors drive
  sectors : ∀ lba, ¬ fs.InVolume g lba →
    fs'.diskMgr.sectors 1 lba = fs.diskMgr.sectors 1 lba

theorem Spares.refl (g : Shape) (fs : Fs) : Spares g fs fs :=
  ⟨rfl, rfl, rfl, rfl, fun _ _ => rfl, fun _ _ => rfl⟩

theorem Spares.inVolume {fs' : Fs} (h : Spares g fs fs') {lba : UInt32} :
    fs'.InVolume g lba ↔ fs.InVolume g lba := by
  simp only [InVolume, fatSector, getSectorByCluster, h.fatStart, h.dataStart,
    h.perCluster]

theorem Spares.trans {fs' fs'' : Fs} (h : Spares g fs fs')
    (h' : Spares g fs' fs'') : Spares g fs fs'' where
  driveCount := h'.driveCount.trans h.driveCount
  fatStart := h'.fatStart.trans h.fatStart
  dataStart := h'.dataStart.trans h.dataStart
  perCluster := h'.perCluster.trans h.perCluster
  drives drive hne := (h'.drives drive hne).trans (h.drives drive hne)
  sectors lba hlba := (h'.sectors lba fun hin =>
    hlba (h.inVolume.1 hin)).trans (h.sectors lba hlba)

theorem Sound.spares_cut (h : fs.Sound g) (hws : ∀ w ∈ ws, w ∈ fs.writes op) :
    Spares g fs (fs.cut ws) := by
  have hplace := samePlace_cut fs ws
  refine ⟨hplace.driveCount, hplace.fatStart, hplace.dataStart,
    hplace.perCluster, fun drive hne => sectors_cut_drive hne fs ws, ?_⟩
  intro lba hlba
  refine sectors_cut fun w hw heq => hlba ?_
  rw [← heq]
  exact h.mem_writes (hws w hw)

/-- No command moves the volume. -/
theorem layout_perform (fs : Fs) (op : Op) :
    (fs.perform op).fatStartSector = fs.fatStartSector ∧
      (fs.perform op).dataStartSector = fs.dataStartSector ∧
      (fs.perform op).sectorsPerClusterGlobal = fs.sectorsPerClusterGlobal := by
  have hplace : ∀ {fs'}, fs.SamePlace fs' →
      fs'.fatStartSector = fs.fatStartSector ∧
      fs'.dataStartSector = fs.dataStartSector ∧
      fs'.sectorsPerClusterGlobal = fs.sectorsPerClusterGlobal :=
    fun hs => ⟨hs.fatStart, hs.dataStart, hs.perCluster⟩
  cases op with
  | cd path =>
      obtain ⟨c, currentPath, cerr, heq⟩ := cd_stays fs path
      rw [perform, heq]
      exact ⟨rfl, rfl, rfl⟩
  | mkdir name uninit => exact hplace (samePlace_mkdir name uninit)
  | touch name uninit => exact hplace (samePlace_touch name uninit)
  | rm filename uninit => exact hplace (samePlace_rm filename uninit)

theorem Sound.spares_perform (h : fs.Sound g) (op : Op) :
    Spares g fs (fs.perform op) := by
  have hcut : Spares g fs (fs.cut (fs.writes op)) :=
    h.spares_cut fun w hw => hw
  have hdisk := diskMgr_perform fs op
  obtain ⟨hfat, hdata, hper⟩ := layout_perform fs op
  refine ⟨?_, hfat, hdata, hper, ?_, ?_⟩ <;> rw [hdisk]
  · exact hcut.driveCount
  · exact hcut.drives
  · exact hcut.sectors

/-- What the first writes of a command leave: a volume in order, with the tree
there was or the tree there was to be, and one more cluster in use at most.
All of the writes leave what the command leaves. -/
structure CutsClean (fs : Fs) (g : Shape) (op : Op) (ws : List SectorWrite) :
    Prop where
  facts : ((fs.cut ws).volume g).TreeFacts g
  tree : (fs.volume g).SameTree ((fs.cut ws).volume g) ∨
    ((fs.perform op).volume g).SameTree ((fs.cut ws).volume g)
  cost : ∀ c, ((fs.cut ws).volume g).fat c ≠ (fs.volume g).fat c →
    c = fs.findFreeCluster ∧ (fs.volume g).fat c = 0
  whole : ws = fs.writes op → (fs.cut ws).diskMgr = (fs.perform op).diskMgr

theorem Sound.cutsClean (h : fs.Sound g) (hsole : (fs.volume g).Sole)
    (hws : ws <+: fs.writes op) : fs.CutsClean g op ws := by
  have hpasses := h.passes_cut hws
  refine ⟨Volume.treeFacts_iff.2 ⟨hpasses.wellFormed h, hpasses.sole h hsole⟩,
    hpasses.sameTree h, fun c hc => hpasses.fat h hc, ?_⟩
  rintro rfl
  exact (diskMgr_perform fs op).symm

end Fs

end TermOS.Storage
