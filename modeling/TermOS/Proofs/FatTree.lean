import TermOS.Lib.Trace
import TermOS.Proofs.FatOps
import TermOS.Proofs.Paths

/-!
# Every command keeps the directory tree

A command that only looks changes nothing, one that fails midway has changed
nothing or has left a cluster behind that nothing names, and one that succeeds
has replaced a single entry of the current directory. Each of these is a case
of `Volume`, and what remains is to see which entries the commands pick and
make: never one of the dot entries, by the first character of its name.

`cd` changes the current directory alone, to the root, to the cluster in a
`..` entry, or to that of a directory entry, and all of them are in reach.
-/

namespace TermOS.Storage

open TermOS.Lib

/-! ## The entries the commands make -/

section Entries

variable (e : DirEntry) (name : Str) (c : UInt32)

theorem isFree_removed : (removed e).isFree = true := by
  rw [removed, DirEntry.isFree]
  simp [firstByte]

theorem newFileEntry_isDirectory : (newFileEntry e name).isDirectory = false := by
  have hattributes : (newFileEntry e name).attributes = 0x20 := rfl
  rw [DirEntry.isDirectory, hattributes]
  decide

theorem newFileEntry_cluster : (newFileEntry e name).cluster = 0 :=
  DirEntry.cluster_eq_zero rfl rfl

theorem newDirEntry_isDirectory : (newDirEntry e name c).isDirectory = true :=
  DirEntry.isDirectory_of_attributes rfl

theorem newDirEntry_cluster : (newDirEntry e name c).cluster = c :=
  DirEntry.cluster_withCluster e c

theorem isFree_newDirEntry :
    (newDirEntry e name c).isFree = true ↔ name.headD 0 = 0xE5 := by
  rw [newDirEntry, DirEntry.isFree, Bool.or_eq_true, beq_iff_eq, beq_iff_eq,
    fatName_head_eq_removed]
  exact or_iff_right (fatName_head_ne name).1

theorem live_newDirEntry (h : name.headD 0 ≠ 0xE5) :
    (newDirEntry e name c).Live := by
  refine DirEntry.live_of_head ?_ (fatName_head_ne name).2
  rw [← Bool.not_eq_true, isFree_newDirEntry]
  exact h

end Entries

namespace Volume

variable {v : Volume} {g : Shape} {c new : UInt32} {name : Str} {i : Fin 16}

/-! ## The entries the commands pick -/

theorem isFree_of_freeSlot (h : v.freeSlot c = some i) :
    (v.dir c i).isFree = true := firstSlot_some h

theorem name_ne_of_matchSlot (h : v.matchSlot c name = some i) :
    (v.dir c i).name ≠ dotdotName :=
  DirEntry.name_ne_of_head (fatNameMatch_head (firstSlot_some h)).2

/-- A file that is found is live. -/
theorem live_of_lookupSlot (h : v.lookupSlot c name = some i) :
    (v.dir c i).Live := by
  have hp := firstSlot_some h
  rw [Bool.and_eq_true, Bool.not_eq_true'] at hp
  exact DirEntry.live_of_head hp.1 (fatNameMatch_head hp.2).2

theorem mkdir_cases (v : Volume) (c : UInt32) (name : Str) (new : UInt32) :
    ((v.lookupSlot c name = none → new = 0) ∧ v.mkdir c name new = v) ∨
      (v.lookupSlot c name = none ∧ new ≠ 0 ∧
        ((v.freeSlot c = none ∧
            v.mkdir c name new = v.allocate new (dotdotOf c)) ∨
          ∃ i, v.freeSlot c = some i ∧ v.mkdir c name new =
            v.link c i (newDirEntry (v.dir c i) name new) new)) := by
  rw [mkdir]
  split
  · next h =>
      refine .inl ⟨fun hnone => ?_, rfl⟩
      rcases h with hsome | hzero
      · rw [hnone] at hsome
        cases hsome
      · exact hzero
  · next h =>
      rw [not_or, Bool.not_eq_true, Option.isSome_eq_false_iff,
        Option.isNone_iff_eq_none] at h
      refine .inr ⟨h.1, h.2, ?_⟩
      cases v.freeSlot c with
      | none => exact .inl ⟨rfl, rfl⟩
      | some i => exact .inr ⟨i, rfl, rfl⟩

/-! ## The commands keep what is said of the volume -/

theorem WellFormed.touch (h : v.WellFormed g) :
    (v.touch c name).WellFormed g := by
  rw [Volume.touch]
  split
  · exact h
  · next i hi =>
      exact h.setSlot (DirEntry.name_ne_of_isFree (isFree_of_freeSlot hi))
        (.inr ⟨newFileEntry_isDirectory _ _, newFileEntry_cluster _ _⟩)

theorem Sole.touch (h : v.Sole) : (v.touch c name).Sole := by
  rw [Volume.touch]
  split
  · exact h
  · exact h.setSlot
      (.inr ⟨newFileEntry_isDirectory _ _, newFileEntry_cluster _ _⟩)

theorem InReach.touch (h : v.InReach c) : (v.touch c name).InReach c := by
  rw [Volume.touch]
  split
  · exact h
  · exact h.setSlot

theorem WellFormed.rm (h : v.WellFormed g) : (v.rm c name).WellFormed g := by
  rw [Volume.rm]
  split
  · exact h
  · next i hi =>
      exact h.setSlot (name_ne_of_matchSlot hi)
        (.inl (DirEntry.not_live_of_isFree (isFree_removed _)))

theorem Sole.rm (h : v.Sole) : (v.rm c name).Sole := by
  rw [Volume.rm]
  split
  · exact h
  · exact h.setSlot (.inl (DirEntry.not_live_of_isFree (isFree_removed _)))

theorem InReach.rm (h : v.InReach c) : (v.rm c name).InReach c := by
  rw [Volume.rm]
  split
  · exact h
  · exact h.setSlot

section Mkdir

variable (hwf : v.WellFormed g) (hc : v.InReach c)
variable (hnew : new ≠ 0 → g.Exists new ∧ v.fat new = 0)

/-- A link whose entry reads as a free one: the directory is left out of
reach. -/
theorem link_eq_setSlot (v : Volume) (c : UInt32) (i : Fin 16) (e : DirEntry)
    (new : UInt32) : v.link c i e new =
      (v.allocate new (dotdotOf c)).setSlot c i e := rfl

include hwf hc hnew in
theorem WellFormed.mkdir : (v.mkdir c name new).WellFormed g := by
  rcases mkdir_cases v c name new with ⟨-, heq⟩ |
    ⟨-, hzero, ⟨-, heq⟩ | ⟨i, hi, heq⟩⟩ <;> rw [heq]
  · exact hwf
  · exact hwf.allocate (hnew hzero).2
  · obtain ⟨hexist, hfree⟩ := hnew hzero
    have hslot := isFree_of_freeSlot hi
    by_cases hdead : name.headD 0 = 0xE5
    · have hold : (v.allocate new (dotdotOf c)).dir c i = v.dir c i := by
        rw [allocate_of_ne (ne_new_of_inReach hwf hfree hc)]
      refine (hwf.allocate hfree).setSlot ?_ (.inl ?_)
      · rw [hold]
        exact DirEntry.name_ne_of_isFree hslot
      · exact DirEntry.not_live_of_isFree ((isFree_newDirEntry _ _ _).2 hdead)
    · exact hwf.link hfree hc hslot ⟨live_newDirEntry _ _ _ hdead,
        newDirEntry_isDirectory _ _ _, newDirEntry_cluster _ _ _⟩ hexist

include hwf hc hnew in
theorem Sole.mkdir (h : v.Sole) : (v.mkdir c name new).Sole := by
  rcases mkdir_cases v c name new with ⟨-, heq⟩ |
    ⟨-, hzero, ⟨-, heq⟩ | ⟨i, hi, heq⟩⟩ <;> rw [heq]
  · exact h
  · exact h.allocate hwf (hnew hzero).2
  · obtain ⟨hexist, hfree⟩ := hnew hzero
    by_cases hdead : name.headD 0 = 0xE5
    · exact (h.allocate hwf hfree).setSlot
        (.inl (DirEntry.not_live_of_isFree ((isFree_newDirEntry _ _ _).2 hdead)))
    · exact h.link hwf hfree hc ⟨live_newDirEntry _ _ _ hdead,
        newDirEntry_isDirectory _ _ _, newDirEntry_cluster _ _ _⟩ hexist

include hwf hc hnew in
theorem InReach.mkdir : (v.mkdir c name new).InReach c := by
  rcases mkdir_cases v c name new with ⟨-, heq⟩ |
    ⟨-, hzero, ⟨-, heq⟩ | ⟨i, hi, heq⟩⟩ <;> rw [heq]
  · exact hc
  · exact hc.allocate hwf (hnew hzero).2
  · rw [link_eq_setSlot]
    exact (hc.allocate hwf (hnew hzero).2).setSlot

include hwf hc hnew in
theorem Sole.perform (h : v.Sole) (op : Op) : (v.perform c new op).Sole := by
  cases op with
  | cd path => exact h
  | mkdir name uninit => exact h.mkdir hwf hc hnew
  | touch name uninit => exact h.touch
  | rm filename uninit => exact h.rm

end Mkdir

theorem WellFormed.exists_of_inReach (h : v.WellFormed g) (hg : 0 < g.clusters)
    (hc : v.InReach c) : g.Exists c := by
  obtain ⟨n, hn⟩ := hc
  cases hn with
  | root => exact ⟨Nat.le_refl 2, (by omega : 2 < g.clusters + 2)⟩
  | step tail edge => exact h.exist _ _ _ ⟨_, tail⟩ edge

theorem WellFormed.used_of_inReach (h : v.WellFormed g) (hc : v.InReach c) :
    v.fat c ≠ 0 := fun hfree => h.not_inReach hfree hc

end Volume

/-! ## Paths are walked one component at a time -/

namespace Fs

variable {fs fs' : Fs} {g : Shape} {component path : Str}

/-- What one round of the loop of `fat32_cd` does when it goes on. -/
theorem cdComponent_cases (h : fs.cdComponent component = .ok fs') :
    fs' = fs ∨
      (fs.getParentCluster ≠ 0 ∧ fs' = { fs with
        currentDirCluster := fs.getParentCluster,
        currentPath := parentPath fs.currentPath }) ∨
      (component ≠ lit ".." ∧ component ≠ lit "." ∧
        ∃ e, fs.findFile component = some e ∧ e.isDirectory = true ∧
          fs' = { fs with
            currentDirCluster := e.cluster,
            currentPath := childPath fs.currentPath component }) := by
  rw [cdComponent] at h
  split at h
  · simp only at h
    split at h
    · next hparent => exact .inr (.inl ⟨hparent, (Except.ok.inj h).symm⟩)
    · exact .inl (Except.ok.inj h).symm
  · next hdotdot =>
      split at h
      · exact .inl (Except.ok.inj h).symm
      · next hdot =>
          split at h
          · cases h
          · next e hfind =>
              split at h
              · next hdir =>
                  exact .inr (.inr ⟨hdotdot, hdot, e, hfind, hdir,
                    (Except.ok.inj h).symm⟩)
              · cases h

/-- What the rounds of its loop keep, `fat32_cd` keeps, if the root and a
failure have it too. -/
theorem cd_induct {P : Fs → Prop} (hp : P fs)
    (hroot : P { fs with currentDirCluster := 2, currentPath := [slash] })
    (herr : ∀ m, P (fs.errln m))
    (hround : ∀ fs₁ component fs₂, P fs₁ → Plain component →
      fs₁.cdComponent component = .ok fs₂ → P fs₂) : P (fs.cd path) := by
  have hloop : ∀ cs : List Str, (∀ c ∈ cs, Plain c) → ∀ fs₁, P fs₁ →
      ∀ fs₂, fs₁.cdLoop cs = .ok fs₂ → P fs₂ := by
    intro cs
    induction cs with
    | nil =>
        intro _ fs₁ h₁ fs₂ h
        obtain rfl := Except.ok.inj h
        exact h₁
    | cons c cs ih =>
        intro hplain fs₁ h₁ fs₂ h
        rw [cdLoop] at h
        split at h
        · cases h
        · next fs₁' hfirst =>
            exact ih (fun d hd => hplain d (List.mem_cons_of_mem _ hd)) fs₁'
              (hround _ _ _ h₁ (hplain c List.mem_cons_self) hfirst) fs₂ h
  have hafter : ∀ start, P start → ∀ rest fs₂,
      start.cdLoop (components rest) = .ok fs₂ → P fs₂ :=
    fun start hstart rest =>
      hloop _ (fun c hc => plain_of_mem_components hc) start hstart
  by_cases habsolute : path.headD 0 = slash
  · simp only [cd, habsolute, true_and, if_true]
    split
    · exact hroot
    · split
      · exact herr _
      · next fs₂ h => exact hafter _ hroot _ fs₂ h
  · simp only [cd, habsolute, false_and, if_false]
    split
    · exact herr _
    · next fs₂ h => exact hafter _ hp _ fs₂ h

/-- The volume and the current directory are in order. -/
structure Sound (fs : Fs) (g : Shape) : Prop where
  geometry : Geometry fs g
  tree : (fs.volume g).WellFormed g
  current : (fs.volume g).InReach fs.currentDirCluster

theorem Sound.exists (h : fs.Sound g) : g.Exists fs.currentDirCluster := by
  have hclusters := h.geometry.clusters
  exact h.tree.exists_of_inReach (by omega) h.current

/-- `..` read in a child of `x`. -/
theorem getParentCluster_child (hready : fs.Ready) (h : fs.Sound g)
    {x : UInt32} {i : Fin 16} (hx : (fs.volume g).InReach x)
    (edge : (fs.volume g).subdir x i = some fs.currentDirCluster) :
    fs.getParentCluster = dotdotOf x := by
  have hdotdot := h.tree.dotdot x i _ hx edge
  have hroot : fs.currentDirCluster ≠ 2 := by
    intro heq
    rw [heq] at edge
    exact h.tree.tree.root_free x i hx edge
  rw [getParentCluster_eq hready h.exists, if_neg hroot,
    if_neg (not_not.2 (DirEntry.head_of_isDotdot hdotdot)), hdotdot.2.2]

theorem getParentCluster_not_ready (h : ¬ fs.Ready) :
    fs.getParentCluster = 0 := by
  simp only [getParentCluster, read_not_ready h, ite_self]

/-- `..` leads to the directory it was entered from, or nowhere. -/
theorem Sound.parent (h : fs.Sound g) (hne : fs.getParentCluster ≠ 0) :
    fs.Ready ∧ (fs.volume g).InReach fs.getParentCluster ∧
      ∃ i, (fs.volume g).subdir fs.getParentCluster i =
        some fs.currentDirCluster := by
  have hready : fs.Ready := by
    by_contra hn
    exact hne (getParentCluster_not_ready hn)
  obtain ⟨n, hn⟩ := h.current
  generalize hcur : fs.currentDirCluster = current at hn
  cases hn with
  | root =>
      rw [getParentCluster, if_pos hcur] at hne
      exact absurd rfl hne
  | @step _ x _ i tail edge =>
      rw [← hcur] at edge
      have hx : (fs.volume g).InReach x := ⟨_, tail⟩
      have hparent := getParentCluster_child hready h hx edge
      have hx2 : x ≠ 2 := by
        intro heq
        subst heq
        rw [hparent] at hne
        exact absurd rfl hne
      rw [hparent, dotdotOf, if_neg hx2]
      exact ⟨hready, hx, i, by rw [edge, hcur]⟩

/-- A directory that is found is a child of the current one. -/
theorem Sound.child (h : fs.Sound g) {e : DirEntry}
    (hfind : fs.findFile component = some e) (hdir : e.isDirectory = true) :
    fs.Ready ∧ ∃ i,
      (fs.volume g).lookupSlot fs.currentDirCluster component = some i ∧
        (fs.volume g).subdir fs.currentDirCluster i = some e.cluster := by
  have hready : fs.Ready := by
    by_contra hn
    rw [findFile_not_ready hn] at hfind
    cases hfind
  rw [findFile_eq hready h.exists, Volume.lookup, Option.map_eq_some_iff] at hfind
  obtain ⟨i, hslot, rfl⟩ := hfind
  exact ⟨hready, i, hslot, Volume.subdir_eq_some.2
    ⟨Volume.live_of_lookupSlot hslot, hdir, rfl⟩⟩

/-! ## The invariant along a run -/

theorem Sound.samePlace (h : fs.Sound g) (hs : fs.SamePlace fs')
    (htree : (fs'.volume g).WellFormed g)
    (hcur : (fs'.volume g).InReach fs.currentDirCluster) : fs'.Sound g :=
  ⟨h.geometry.samePlace hs, htree, hs.cluster ▸ hcur⟩

/-- To be somewhere else on the same volume. -/
theorem Sound.move (h : fs.Sound g) {c : UInt32} {path : Str}
    (hc : (fs.volume g).InReach c) :
    Sound { fs with currentDirCluster := c, currentPath := path } g :=
  ⟨⟨h.geometry.1, h.geometry.2, h.geometry.3, h.geometry.4, h.geometry.5,
    h.geometry.6⟩, h.tree, hc⟩

theorem Sound.cd (h : fs.Sound g) : (fs.cd path).Sound g := by
  refine cd_induct (P := fun fs' => fs'.Sound g) h ?_ ?_ ?_
  · exact h.move .root
  · exact fun m => h.samePlace (samePlace_errln m) h.tree h.current
  · intro fs₁ component fs₂ h₁ _ hround
    rcases cdComponent_cases hround with rfl | ⟨hne, rfl⟩ |
      ⟨-, -, e, hfind, hdir, rfl⟩
    · exact h₁
    · exact h₁.move (h₁.parent hne).2.1
    · obtain ⟨-, i, -, edge⟩ := h₁.child hfind hdir
      exact h₁.move (h₁.current.step edge)

/-- `mkdir` needs a cluster that exists and is free, and finds one. -/
theorem newCluster_spec (hg : Geometry fs g) (h : fs.findFreeCluster ≠ 0) :
    g.Exists fs.findFreeCluster ∧ (fs.volume g).fat fs.findFreeCluster = 0 :=
  ⟨(findFreeCluster_spec hg h).1, (findFreeCluster_spec hg h).2.2⟩

/-- A command that does to the volume what `v'` says, if drive 1 is there. -/
theorem Sound.change (h : fs.Sound g) {v' : Volume} (hs : fs.SamePlace fs')
    (hready : fs.Ready → fs'.volume g = v')
    (hnot : ¬ fs.Ready → fs'.volume g = fs.volume g)
    (htree : v'.WellFormed g) (hcur : v'.InReach fs.currentDirCluster) :
    fs'.Sound g := by
  by_cases hr : fs.Ready
  · rw [← hready hr] at htree hcur
    exact h.samePlace hs htree hcur
  · refine h.samePlace hs ?_ ?_ <;> rw [hnot hr]
    · exact h.tree
    · exact h.current

theorem Sound.mkdir (h : fs.Sound g) (name : Str) (uninit : Sector) :
    (fs.mkdir name uninit).Sound g := by
  by_cases hready : fs.Ready
  · have hnew := newCluster_spec h.geometry
    obtain ⟨hplace, hvol⟩ := mkdir_ready hready h.geometry h.exists
      (h.tree.used_of_inReach h.current) name uninit
    refine h.samePlace hplace ?_ ?_ <;> rw [hvol]
    · exact Volume.WellFormed.mkdir h.tree h.current hnew
    · exact Volume.InReach.mkdir h.tree h.current hnew
  · rw [mkdir_not_ready hready]
    exact h.samePlace (samePlace_errln _) h.tree h.current

theorem Sound.touch (h : fs.Sound g) (name : Str) (uninit : Sector) :
    (fs.touch name uninit).Sound g := by
  obtain ⟨hvol, hvol'⟩ := volume_touch h.geometry h.exists name uninit
  exact h.change (samePlace_touch name uninit) hvol hvol' h.tree.touch
    h.current.touch

theorem Sound.rm (h : fs.Sound g) (filename : Str) (uninit : Sector) :
    (fs.rm filename uninit).Sound g := by
  obtain ⟨hvol, hvol'⟩ := volume_rm h.geometry h.exists filename uninit
  exact h.change (samePlace_rm filename uninit) hvol hvol' h.tree.rm
    h.current.rm

theorem Sound.step (h : fs.Sound g) {op : Op} (hstep : fs.Step op fs') :
    fs'.Sound g := by
  obtain rfl : fs' = fs.perform op := hstep
  cases op with
  | cd path => exact h.cd
  | mkdir name uninit => exact h.mkdir name uninit
  | touch name uninit => exact h.touch name uninit
  | rm filename uninit => exact h.rm filename uninit

/-- `fat32_cd` changes where the driver is, and the log, and nothing else. -/
theorem cd_stays (fs : Fs) (path : Str) : ∃ c currentPath cerr,
    fs.cd path = { fs with
      currentDirCluster := c, currentPath := currentPath, cerr := cerr } := by
  refine cd_induct (P := fun fs' => ∃ c currentPath cerr, fs' = { fs with
      currentDirCluster := c, currentPath := currentPath, cerr := cerr })
    ⟨_, _, _, rfl⟩ ⟨_, _, _, rfl⟩ (fun _ => ⟨_, _, _, rfl⟩) ?_
  rintro fs₁ component fs₂ ⟨c, currentPath, cerr, rfl⟩ - hround
  rcases cdComponent_cases hround with rfl | ⟨-, rfl⟩ | ⟨-, -, e, -, -, rfl⟩
  · exact ⟨_, _, _, rfl⟩
  · exact ⟨_, _, _, rfl⟩
  · exact ⟨_, _, _, rfl⟩

theorem volume_cd : (fs.cd path).volume g = fs.volume g := by
  obtain ⟨c, currentPath, cerr, heq⟩ := cd_stays fs path
  rw [heq]
  rfl

/-- Each command does to the volume on the disk what it does to a volume. -/
theorem Sound.volume_perform (h : fs.Sound g) (hready : fs.Ready) (op : Op) :
    (fs.perform op).volume g = (fs.volume g).perform fs.currentDirCluster
      fs.findFreeCluster op := by
  cases op with
  | cd path => exact volume_cd
  | mkdir name uninit =>
      exact (mkdir_ready hready h.geometry h.exists
        (h.tree.used_of_inReach h.current) name uninit).2
  | touch name uninit =>
      exact (volume_touch h.geometry h.exists name uninit).1 hready
  | rm filename uninit =>
      exact (volume_rm h.geometry h.exists filename uninit).1 hready

/-- Without drive 1 the volume is out of the commands' reach. -/
theorem Sound.volume_not_ready (h : fs.Sound g) (hnot : ¬ fs.Ready) (op : Op) :
    (fs.perform op).volume g = fs.volume g := by
  cases op with
  | cd path => exact volume_cd
  | mkdir name uninit =>
      rw [perform, mkdir_not_ready hnot]
      rfl
  | touch name uninit =>
      exact (volume_touch h.geometry h.exists name uninit).2 hnot
  | rm filename uninit =>
      exact (volume_rm h.geometry h.exists filename uninit).2 hnot

/-- What every command keeps on a volume that is in order, a step of the
driver keeps. -/
theorem Sound.keeps (h : fs.Sound g) {P : Volume → Prop} {op : Op}
    (hstep : fs.Step op fs') (hp : P (fs.volume g))
    (hperform : P ((fs.volume g).perform fs.currentDirCluster
      fs.findFreeCluster op)) : P (fs'.volume g) := by
  obtain rfl : fs' = fs.perform op := hstep
  by_cases hready : fs.Ready
  · rwa [h.volume_perform hready op]
  · rwa [h.volume_not_ready hready op]

theorem Sound.sole (h : fs.Sound g) (hsole : (fs.volume g).Sole) {op : Op}
    (hstep : fs.Step op fs') : (fs'.volume g).Sole :=
  h.keeps hstep hsole
    (hsole.perform h.tree h.current (newCluster_spec h.geometry) op)

end Fs

/-! ## The facts, one by one -/

/-- What the FAT, the entries and the directories in reach of the root say of
each other. An entry of cluster zero names no cluster. -/
structure Volume.TreeFacts (v : Volume) (g : Shape) : Prop where
  dotdot : ∀ x i y, v.InReach x → v.subdir x i = some y →
    (v.dir y 1).IsDotdot (dotdotOf x)
  exist : ∀ x i, v.InReach x → (v.dir x i).Live →
    (v.dir x i).isDirectory = true → g.Exists (v.dir x i).cluster
  used : ∀ x i, v.InReach x → (v.dir x i).Live → (v.dir x i).cluster ≠ 0 →
    v.fat (v.dir x i).cluster ≠ 0
  rootUsed : v.fat 2 ≠ 0
  rootUnnamed : ∀ x i, v.InReach x → (v.dir x i).Live → (v.dir x i).cluster ≠ 2
  sole : ∀ x i x' i', v.InReach x → v.InReach x' → (v.dir x i).Live →
    (v.dir x' i').Live → (v.dir x i).cluster ≠ 0 →
    (v.dir x i).cluster = (v.dir x' i').cluster → x = x' ∧ i = i'

theorem Volume.treeFacts_iff {v : Volume} {g : Shape} :
    v.TreeFacts g ↔ v.WellFormed g ∧ v.Sole := by
  refine ⟨?_, ?_⟩
  · intro h
    have hne : ∀ {x i}, v.InReach x → (v.dir x i).Live →
        (v.dir x i).isDirectory = true → (v.dir x i).cluster ≠ 0 := by
      intro x i hx hlive hdir
      exact (h.exist x i hx hlive hdir).ne_zero
    refine ⟨⟨⟨?_, ?_⟩, ?_, h.dotdot, h.rootUsed, h.used⟩, h.rootUnnamed, h.sole⟩
    · intro x i hx edge
      obtain ⟨hlive, -, hcl⟩ := subdir_eq_some.1 edge
      exact h.rootUnnamed x i hx hlive hcl
    · intro x i x' i' y hx hx' edge edge'
      obtain ⟨hlive, hdir, hcl⟩ := subdir_eq_some.1 edge
      obtain ⟨hlive', -, hcl'⟩ := subdir_eq_some.1 edge'
      exact h.sole x i x' i' hx hx' hlive hlive' (hne hx hlive hdir)
        (hcl.trans hcl'.symm)
    · intro x i y hx edge
      obtain ⟨hlive, hdir, rfl⟩ := subdir_eq_some.1 edge
      exact h.exist x i hx hlive hdir
  · intro hboth
    obtain ⟨hwf, hsole⟩ := hboth
    exact ⟨hwf.dotdot,
      fun x i hx hlive hdir =>
        hwf.exist x i _ hx (subdir_eq_some.2 ⟨hlive, hdir, rfl⟩),
      hwf.used, hwf.rootUsed, hsole.root, hsole.inj⟩

/-! ## A formatted volume -/

/-- A FAT of 100 sectors from sector 32 on, in which only cluster 2 is in use,
and 12798 clusters of one sector each, all empty. -/
def formatted : Fs where
  diskMgr := ⟨2, fun _ lba =>
    if lba = 32 then setFatWord zeroSector 2 0x0FFFFFFF else zeroSector⟩
  fatStartSector := 32
  dataStartSector := 132
  sectorsPerClusterGlobal := 1
  currentDirCluster := 2
  currentPath := [slash]
  cerr := []

theorem geometry_formatted : Geometry formatted ⟨12798, 100⟩ := by
  refine ⟨?_, ?_, ?_, .inl ?_, ?_, ?_⟩ <;> decide

theorem formatted_sector {c : UInt32} (hc : Shape.Exists ⟨12798, 100⟩ c) :
    formatted.diskMgr.sectors 1 (formatted.getSectorByCluster c) = zeroSector := by
  have hne : formatted.getSectorByCluster c ≠ 32 := fun h =>
    geometry_formatted.fatSector_ne_sector (by decide : Shape.InFat _ 0) hc h.symm
  exact if_neg hne

theorem formatted_dir (c : UInt32) (i : Fin 16) :
    ((formatted.volume ⟨12798, 100⟩).dir c i).isFree = true := by
  by_cases hc : Shape.Exists ⟨12798, 100⟩ c
  · simp only [Fs.volume, if_pos hc, formatted_sector hc]
    exact dirEntry_zeroSector i
  · simp only [Fs.volume, if_neg hc]
    exact dirEntry_zeroSector i

theorem formatted_fat (c : UInt32) :
    (formatted.volume ⟨12798, 100⟩).fat c = if c = 2 then 0x0FFFFFFF else 0 := by
  have hsectors : ∀ lba, formatted.diskMgr.sectors 1 lba =
      if lba = 32 then setFatWord zeroSector 2 0x0FFFFFFF else zeroSector :=
    fun _ => rfl
  have htwo : Shape.InFat ⟨12798, 100⟩ 2 := by decide
  have hstart : formatted.fatSector 2 = 32 := by decide
  simp only [Fs.volume, hsectors]
  by_cases hc : c = 2
  · rw [hc, if_pos rfl, if_pos htwo, hstart, if_pos rfl]
    exact fatWord_setFatWord_self zeroSector 2 0x0FFFFFFF
  · rw [if_neg hc]
    split
    · next hin =>
        split
        · next hsec =>
            have hoff : fatOffset c ≠ 2 := fun hoff =>
              hc (geometry_formatted.fatWord_inj hin htwo (hsec.trans hstart.symm)
                hoff)
            rw [fatWord_setFatWord_of_ne _ hoff]
            exact fatWord_zeroSector _
        · exact fatWord_zeroSector _
    · rfl

theorem treeFacts_formatted :
    (formatted.volume ⟨12798, 100⟩).TreeFacts ⟨12798, 100⟩ := by
  have hdead : ∀ c i, ¬ ((formatted.volume ⟨12798, 100⟩).dir c i).Live :=
    fun c i => DirEntry.not_live_of_isFree (formatted_dir c i)
  constructor
  case dotdot =>
    intro x i y _ edge
    exact absurd (Volume.subdir_eq_some.1 edge).1 (hdead x i)
  case exist => exact fun x i _ hlive => absurd hlive (hdead x i)
  case used => exact fun x i _ hlive => absurd hlive (hdead x i)
  case rootUsed =>
    rw [formatted_fat]
    decide
  case rootUnnamed => exact fun x i _ hlive => absurd hlive (hdead x i)
  case sole => exact fun x i _ _ _ _ hlive => absurd hlive (hdead x i)

theorem sound_formatted : formatted.Sound ⟨12798, 100⟩ :=
  ⟨geometry_formatted, (Volume.treeFacts_iff.1 treeFacts_formatted).1, .root⟩

theorem lookupSlot_formatted (c : UInt32) (name : Str) :
    (formatted.volume ⟨12798, 100⟩).lookupSlot c name = none :=
  List.find?_eq_none.2 fun i _ => by simp [formatted_dir]

theorem takes_formatted (name : Str) : formatted.Takes name := by
  have hready : formatted.Ready := (by decide : (1 : UInt8) < 2)
  refine ⟨hready, ?_, ?_⟩
  · rw [Fs.findFile_eq hready sound_formatted.exists, Volume.lookup,
      lookupSlot_formatted]
    rfl
  · refine Fs.findFreeCluster_ne_zero hready geometry_formatted (c := 3)
      (by decide) (by decide) ?_
    rw [formatted_fat]
    decide

/-! ## The facts along a run -/

/-- Whatever commands are given, starting in the root, and wherever they fail:
the facts about the volume still hold. -/
theorem treeFacts_of_run {fs fs' : Fs} {g : Shape} {ops : List Op}
    (hgeometry : Geometry fs g) (hroot : fs.currentDirCluster = 2)
    (hfacts : (fs.volume g).TreeFacts g) (hrun : Trace Fs.Step fs ops fs') :
    Geometry fs' g ∧ (fs'.volume g).TreeFacts g := by
  obtain ⟨htree, hsole⟩ := Volume.treeFacts_iff.1 hfacts
  have hsound : fs.Sound g := ⟨hgeometry, htree, hroot ▸ .root⟩
  have hboth : fs'.Sound g ∧ (fs'.volume g).Sole :=
    hrun.invariant (I := fun fs => fs.Sound g ∧ (fs.volume g).Sole)
      (fun _ _ _ hs hstep => ⟨hs.1.step hstep, hs.1.sole hs.2 hstep⟩)
      ⟨hsound, hsole⟩
  exact ⟨hboth.1.geometry, Volume.treeFacts_iff.2 ⟨hboth.1.tree, hboth.2⟩⟩

theorem treeFacts_of_run_formatted :
    Geometry (((formatted.mkdir (lit "a") zeroSector).cd (lit "a")).rm (lit "b")
        zeroSector) ⟨12798, 100⟩ ∧
      ((((formatted.mkdir (lit "a") zeroSector).cd (lit "a")).rm (lit "b")
        zeroSector).volume ⟨12798, 100⟩).TreeFacts ⟨12798, 100⟩ := by
  have hrun : Trace Fs.Step formatted [.mkdir (lit "a") zeroSector,
      .cd (lit "a"), .rm (lit "b") zeroSector] _ :=
    .cons rfl (.cons rfl (.cons rfl (.nil _)))
  exact treeFacts_of_run geometry_formatted rfl treeFacts_formatted hrun

end TermOS.Storage
