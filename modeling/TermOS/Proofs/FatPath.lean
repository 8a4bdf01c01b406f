import TermOS.Proofs.FatTree
import TermOS.Proofs.Mkdir

/-!
# The current path names the current directory

The driver keeps the current directory twice, as a path to print and as a
cluster to read, and edits the two by hand. They agree at all times: the
components of the path, looked up one by one from the root, lead to the
cluster. `cd` extends or shortens the walk by one step. The other commands
change the last directory of the walk, and in a tree the walk passes through
that one only at its end, so how the path resolves does not change.

`..` in a child of the root reads as cluster 0, which `fat32_cd` takes for
"nowhere to go". Neither half moves then, and they still agree, but the way
back from a child of the root is closed.
-/

namespace TermOS.Storage

open TermOS.Lib

namespace Volume

variable {v v' : Volume} {g : Shape} {c x y new : UInt32} {name s : Str}

/-- The subdirectory that a name leads to. -/
def named (v : Volume) (c : UInt32) (name : Str) : Option UInt32 :=
  (v.lookupSlot c name).bind (v.subdir c)

theorem named_subdir (v : Volume) (c : UInt32) (name : Str) (y : UInt32)
    (h : v.named c name = some y) : ∃ i, v.subdir c i = some y := by
  obtain ⟨i, -, edge⟩ := Option.bind_eq_some_iff.1 h
  exact ⟨i, edge⟩

/-- The names are looked up in the entries of the directory. -/
theorem named_congr (h : v'.dir c = v.dir c) : v'.named c = v.named c := by
  funext name
  simp only [named, lookupSlot, h]
  congr 1
  funext i
  rw [subdir, subdir, h]

theorem touch_dir_of_ne (h : x ≠ c) : (v.touch c name).dir x = v.dir x := by
  rw [touch]
  split
  · rfl
  · funext j
    exact setSlot_of_ne fun hx => h hx.1

theorem rm_dir_of_ne (h : x ≠ c) : (v.rm c name).dir x = v.dir x := by
  rw [rm]
  split
  · rfl
  · funext j
    exact setSlot_of_ne fun hx => h hx.1

theorem mkdir_dir_of_ne (hwf : v.WellFormed g)
    (hnew : new ≠ 0 → g.Exists new ∧ v.fat new = 0) (hx : v.InReach x)
    (h : x ≠ c) : (v.mkdir c name new).dir x = v.dir x := by
  rcases mkdir_cases v c name new with ⟨-, heq⟩ |
    ⟨-, hzero, ⟨-, heq⟩ | ⟨i, -, heq⟩⟩ <;> rw [heq]
  · have hne := ne_new_of_inReach hwf (hnew hzero).2 hx
    exact allocate_of_ne hne
  · have hne := ne_new_of_inReach hwf (hnew hzero).2 hx
    funext j
    exact link_dir_of_ne hne fun hxj => h hxj.1

/-- A walk by names keeps leading to `c` when other directories in reach keep
their entries. -/
theorem walk_frame (hwf : v.WellFormed g)
    (hdir : ∀ x, v.InReach x → x ≠ c → v'.dir x = v.dir x) {names : List Str}
    (h : Walk v.named 2 names c) : Walk v'.named 2 names c :=
  h.frame hwf.tree v.named_subdir
    (fun x hx hne s => congrFun (named_congr (hdir x hx hne)) s) .root

end Volume

namespace Fs

variable {fs fs' : Fs} {g : Shape} {path component : Str}

/-- Resolve names one by one with `fat32_find_file`, from a directory on. -/
def resolve (fs : Fs) : UInt32 → List Str → Option UInt32
  | c, [] => some c
  | c, name :: names =>
      match { fs with currentDirCluster := c }.findFile name with
      | none => none
      | some e => resolve fs e.cluster names

/-- The volume is in order, and the path is the rendering of names that lead
from the root to the current directory. -/
structure Located (fs : Fs) (g : Shape) : Prop where
  sound : fs.Sound g
  names : ∃ names : List Str, (∀ c ∈ names, Proper c) ∧
    fs.currentPath = render names ∧
    Walk (fs.volume g).named 2 names fs.currentDirCluster ∧
    (names ≠ [] → fs.Ready)

theorem resolve_of_walk (hready : fs.Ready) (htree : (fs.volume g).WellFormed g)
    (hg : Geometry fs g) {names : List Str} {c d : UInt32}
    (hc : (fs.volume g).InReach c) (h : Walk (fs.volume g).named c names d) :
    fs.resolve c names = some d := by
  induction names generalizing c with
  | nil => exact congrArg some h
  | cons name names ih =>
      obtain ⟨y, hy, htail⟩ := h
      obtain ⟨i, hslot, edge⟩ := Option.bind_eq_some_iff.1 hy
      obtain ⟨-, -, hcl⟩ := Volume.subdir_eq_some.1 edge
      have hclusters := hg.clusters
      have hexists := htree.exists_of_inReach (by omega) hc
      have hfind := @findFile_eq { fs with currentDirCluster := c } g hready
        hexists name
      have hlookup : ({ fs with currentDirCluster := c }.volume g).lookup c name =
          some ((fs.volume g).dir c i) :=
        congrArg (Option.map ((fs.volume g).dir c)) hslot
      simp only [resolve, hfind.trans hlookup, hcl]
      exact ih (hc.step edge) htail

/-- What the invariant says of the two halves. -/
theorem Located.resolve (h : fs.Located g) : Canonical fs.currentPath ∧
    fs.resolve 2 (components fs.currentPath) = some fs.currentDirCluster := by
  obtain ⟨names, hproper, hpath, hwalk, hready⟩ := h.names
  rw [hpath, components_render fun c hc => (hproper c hc).1]
  refine ⟨canonical_render hproper, ?_⟩
  cases names with
  | nil => exact congrArg some hwalk
  | cons name names =>
      exact resolve_of_walk (hready (by simp)) h.sound.tree h.sound.geometry
        .root hwalk

/-! ## `cd` -/

/-- `..`, when it moves, takes the last name off. -/
theorem Located.parent (h : fs.Located g) (hne : fs.getParentCluster ≠ 0) :
    ∃ names name, (∀ c ∈ names ++ [name], Proper c) ∧
      fs.currentPath = render (names ++ [name]) ∧
      Walk (fs.volume g).named 2 names fs.getParentCluster := by
  obtain ⟨-, hparent, i, edge⟩ := h.sound.parent hne
  obtain ⟨names, hproper, hpath, hwalk, -⟩ := h.names
  rcases List.eq_nil_or_concat' names with rfl | ⟨names, name, rfl⟩
  · -- Nothing leads to the root.
    have hroot : 2 = fs.currentDirCluster := hwalk
    rw [← hroot] at edge
    exact absurd edge (h.sound.tree.tree.root_free _ i hparent)
  · obtain ⟨x, hinit, hlast⟩ := Walk.snoc_iff.1 hwalk
    obtain ⟨j, edge'⟩ := Volume.named_subdir _ _ _ _ hlast
    have hx : (fs.volume g).InReach x :=
      ⟨_, hinit.reachIn (Volume.named_subdir _) .root⟩
    obtain ⟨rfl, -⟩ := h.sound.tree.tree.inj _ _ _ _ _ hx hparent edge' edge
    exact ⟨names, name, hproper, hpath, hinit⟩

theorem Located.round (h : fs.Located g) (hplain : Plain component)
    (hround : fs.cdComponent component = .ok fs') : fs'.Located g := by
  have hmove : ∀ c p, (fs.volume g).InReach c →
      Sound { fs with currentDirCluster := c, currentPath := p } g :=
    fun c p hc => h.sound.move hc
  rcases cdComponent_cases hround with rfl | ⟨hne, rfl⟩ |
    ⟨hdotdot, hdot, e, hfind, hdir, rfl⟩
  · exact h
  · obtain ⟨hready, hparent, -⟩ := h.sound.parent hne
    obtain ⟨names, name, hproper, hpath, hwalk⟩ := h.parent hne
    have hname := hproper name (by simp)
    refine ⟨hmove _ _ hparent, names, fun c hc => hproper c (by simp [hc]), ?_,
      hwalk, fun _ => hready⟩
    rw [hpath, parentPath_render names hname.1]
  · obtain ⟨hready, i, hslot, edge⟩ := h.sound.child hfind hdir
    obtain ⟨names, hproper, hpath, hwalk, -⟩ := h.names
    refine ⟨hmove _ _ (h.sound.current.step edge), names ++ [component], ?_, ?_,
      ?_, fun _ => hready⟩
    · intro c hc
      rcases List.mem_append.1 hc with hold | hnew
      · exact hproper c hold
      · rw [List.mem_singleton.1 hnew]
        exact ⟨hplain, hdot, hdotdot⟩
    · rw [hpath, childPath_render fun c hc => (hproper c hc).1]
    · exact Walk.snoc_iff.2 ⟨_, hwalk, Option.bind_eq_some_iff.2 ⟨i, hslot, edge⟩⟩

theorem Located.cd (h : fs.Located g) : (fs.cd path).Located g := by
  refine cd_induct (P := fun fs' => fs'.Located g) h ?_ ?_ ?_
  · exact ⟨h.sound.move .root, [], by simp, rfl, rfl, by simp⟩
  · exact fun m => ⟨h.sound.samePlace (samePlace_errln m) h.sound.tree
      h.sound.current, h.names⟩
  · exact fun _ _ _ h₁ hplain hround => h₁.round hplain hround

/-! ## The other commands -/

/-- A command that leaves the place alone and changes no directory in reach
but the current one. -/
theorem Located.change (h : fs.Located g) (hs : fs.SamePlace fs')
    (hsound : fs'.Sound g)
    (hdir : ∀ x, (fs.volume g).InReach x → x ≠ fs.currentDirCluster →
      (fs'.volume g).dir x = (fs.volume g).dir x) : fs'.Located g := by
  obtain ⟨names, hproper, hpath, hwalk, hready⟩ := h.names
  refine ⟨hsound, names, hproper, hs.path.trans hpath, ?_,
    fun hne => (hready hne).samePlace hs⟩
  rw [hs.cluster]
  exact Volume.walk_frame h.sound.tree hdir hwalk

theorem Located.step (h : fs.Located g) {op : Op} (hstep : fs.Step op fs') :
    fs'.Located g := by
  have hsound := h.sound.step hstep
  obtain rfl : fs' = fs.perform op := hstep
  cases op with
  | cd path => exact h.cd
  | mkdir name uninit =>
      by_cases hready : fs.Ready
      · obtain ⟨hplace, hvol⟩ := mkdir_ready hready h.sound.geometry
          h.sound.exists (h.sound.tree.used_of_inReach h.sound.current) name uninit
        refine h.change hplace hsound fun x hx hne => ?_
        rw [perform, hvol]
        exact Volume.mkdir_dir_of_ne h.sound.tree
          (newCluster_spec h.sound.geometry) hx hne
      · rw [perform, mkdir_not_ready hready] at hsound ⊢
        exact h.change (samePlace_errln _) hsound fun _ _ _ => rfl
  | touch name uninit =>
      obtain ⟨hvol, hvol'⟩ :=
        volume_touch h.sound.geometry h.sound.exists name uninit
      refine h.change (samePlace_touch name uninit) hsound fun x hx hne => ?_
      by_cases hready : fs.Ready
      · rw [perform, hvol hready]
        exact Volume.touch_dir_of_ne hne
      · rw [perform, hvol' hready]
  | rm filename uninit =>
      obtain ⟨hvol, hvol'⟩ :=
        volume_rm h.sound.geometry h.sound.exists filename uninit
      refine h.change (samePlace_rm filename uninit) hsound fun x hx hne => ?_
      by_cases hready : fs.Ready
      · rw [perform, hvol hready]
        exact Volume.rm_dir_of_ne hne
      · rw [perform, hvol' hready]

/-- A session starts at the root. -/
theorem located_root (hg : Geometry fs g) (htree : (fs.volume g).WellFormed g)
    (hroot : fs.currentDirCluster = 2) (hpath : fs.currentPath = [slash]) :
    fs.Located g :=
  ⟨⟨hg, htree, hroot ▸ .root⟩, [], by simp, hpath, hroot.symm, by simp⟩

end Fs

/-- Whatever commands are given, starting at the root: the current path stays
canonical, and its components lead from the root to the current directory. -/
theorem path_resolves_of_run {fs fs' : Fs} {g : Shape} {ops : List Op}
    (hgeometry : Geometry fs g) (htree : (fs.volume g).WellFormed g)
    (hroot : fs.currentDirCluster = 2) (hpath : fs.currentPath = [slash])
    (hrun : Trace Fs.Step fs ops fs') :
    Canonical fs'.currentPath ∧
      fs'.resolve 2 (components fs'.currentPath) =
        some fs'.currentDirCluster := by
  have hlocated : fs'.Located g :=
    hrun.invariant (I := fun fs => fs.Located g)
      (fun _ _ _ hs hstep => hs.step hstep)
      (Fs.located_root hgeometry htree hroot hpath)
  exact hlocated.resolve

theorem path_resolves_of_run_formatted :
    Canonical ((formatted.mkdir (lit "a") zeroSector).cd (lit "a/../b")).currentPath ∧
      ((formatted.mkdir (lit "a") zeroSector).cd (lit "a/../b")).resolve 2
          (components ((formatted.mkdir (lit "a") zeroSector).cd
            (lit "a/../b")).currentPath) =
        some ((formatted.mkdir (lit "a") zeroSector).cd
          (lit "a/../b")).currentDirCluster := by
  have hrun : Trace Fs.Step formatted
      [.mkdir (lit "a") zeroSector, .cd (lit "a/../b")] _ :=
    .cons rfl (.cons rfl (.nil _))
  exact path_resolves_of_run sound_formatted.geometry sound_formatted.tree rfl
    rfl hrun

/-! ## Down and up again -/

namespace Fs

variable {fs : Fs} {g : Shape} {d : Str} {e : DirEntry}

theorem plain_dotdot : Plain (lit "..") := by
  refine ⟨by decide, fun x hx => ?_⟩
  rcases List.mem_cons.1 hx with rfl | hx
  · decide
  · rw [List.mem_singleton.1 hx]
    decide

/-- `fat32_cd` with a single component. -/
theorem cd_plain (h : Plain d) : fs.cd d = match fs.cdComponent d with
    | .error message => fs.errln message
    | .ok fs' => fs' := by
  simp only [cd, h.head_ne_slash, false_and, if_false, components_plain h, cdLoop]
  cases fs.cdComponent d <;> rfl

theorem cd_child (h : Proper d) (hfind : fs.findFile d = some e)
    (hdir : e.isDirectory = true) : fs.cd d = { fs with
      currentDirCluster := e.cluster
      currentPath := childPath fs.currentPath d } := by
  rw [cd_plain h.1, cdComponent, if_neg h.2.2, if_neg h.2.1, hfind]
  simp only [hdir, if_true]

theorem cd_dotdot : fs.cd (lit "..") = if fs.getParentCluster ≠ 0 then
    { fs with
      currentDirCluster := fs.getParentCluster
      currentPath := parentPath fs.currentPath } else fs := by
  rw [cd_plain plain_dotdot, cdComponent, if_pos rfl]
  split
  · next heq =>
      simp only at heq
      split at heq <;> cases heq
  · next heq =>
      simp only at heq
      split at heq
      · next hne => rw [if_pos hne, ← Except.ok.inj heq]
      · next hne => rw [if_neg hne, ← Except.ok.inj heq]

/-- Into a subdirectory and back: everywhere but in the root the two undo each
other, and in the root the second does nothing. -/
theorem Located.cd_dotdot (h : fs.Located g) (hd : Proper d)
    (hfind : fs.findFile d = some e) (hdir : e.isDirectory = true) :
    (fs.cd d).cd (lit "..") =
      if fs.currentDirCluster = 2 then fs.cd d else fs := by
  obtain ⟨hready, i, -, edge⟩ := h.sound.child hfind hdir
  obtain ⟨names, hproper, hpath, -, -⟩ := h.names
  have hmoved := cd_child hd hfind hdir
  have hready' : (fs.cd d).Ready := by
    rw [hmoved]
    exact hready
  have hvolume : (fs.cd d).volume g = fs.volume g := volume_cd
  have hparent : (fs.cd d).getParentCluster = dotdotOf fs.currentDirCluster := by
    refine getParentCluster_child hready' h.sound.cd (i := i) ?_ ?_
    · rw [hvolume]
      exact h.sound.current
    · rw [hvolume, hmoved]
      exact edge
  rw [Fs.cd_dotdot, hparent]
  by_cases hroot : fs.currentDirCluster = 2
  · rw [dotdotOf, if_pos hroot, if_pos hroot, if_neg (not_not.2 rfl)]
  · have hzero : fs.currentDirCluster ≠ 0 := h.sound.exists.ne_zero
    rw [dotdotOf, if_neg hroot, if_neg hroot, if_pos hzero, hmoved, hpath,
      childPath_render fun c hc => (hproper c hc).1,
      parentPath_render names hd.1, ← hpath]

/-- A `mkdir` that finds room, as the next command finds it. -/
theorem Located.mkdir {name : Str} (h : fs.Located g) (htakes : fs.Takes name)
    (hslot : fs.freeSlot ≠ none)
    (hbreak : ∀ ch ∈ name, ch ≠ newline ∧ ch ≠ carriageReturn)
    (hhead : name.headD 0 ≠ 0xE5) (uninit : Sector) :
    (fs.mkdir name uninit).Located g ∧
      (fs.mkdir name uninit).currentDirCluster = fs.currentDirCluster ∧
      ∃ e, (fs.mkdir name uninit).findFile name = some e ∧
        e.isDirectory = true := by
  have hstep : fs.Step (.mkdir name uninit) (fs.mkdir name uninit) := rfl
  have hplace : fs.SamePlace (fs.mkdir name uninit) := samePlace_mkdir _ _
  obtain ⟨-, i, hcreated⟩ := mkdir_created h.sound.geometry h.sound.exists
    (h.sound.tree.used_of_inReach h.sound.current)
    (cerr_mkdir_of_takes htakes hslot uninit)
  exact ⟨h.step hstep, hplace.cluster, _,
    hcreated.findFile hplace htakes.1 htakes.2.1 hbreak hhead,
    newDirEntry_isDirectory _ _ _⟩

end Fs

theorem proper_a : Proper (lit "a") := by
  refine ⟨⟨by decide, fun x hx => ?_⟩, by decide, by decide⟩
  rw [List.mem_singleton.1 hx]
  decide

/-- `mkdir a` on a formatted volume fills the first entry of the root. -/
theorem volume_mkdir_formatted :
    formatted.findFreeCluster ≠ 0 ∧
      (formatted.mkdir (lit "a") zeroSector).volume ⟨12798, 100⟩ =
        (formatted.volume ⟨12798, 100⟩).link 2 0
          (newDirEntry ((formatted.volume ⟨12798, 100⟩).dir 2 0) (lit "a")
            formatted.findFreeCluster) formatted.findFreeCluster := by
  obtain ⟨hready, -, hfound⟩ := takes_formatted (lit "a")
  have hvolume := sound_formatted.volume_perform hready
    (.mkdir (lit "a") zeroSector)
  have hslot : (formatted.volume ⟨12798, 100⟩).freeSlot 2 = some 0 :=
    firstSlot_zero (formatted_dir 2 0)
  have hcurrent : formatted.currentDirCluster = 2 := rfl
  rw [hcurrent, Volume.perform, Volume.mkdir, lookupSlot_formatted, hslot]
    at hvolume
  refine ⟨hfound, hvolume.trans ?_⟩
  simp [hfound]

theorem lit_a_noBreak : ∀ ch ∈ lit "a", ch ≠ newline ∧ ch ≠ carriageReturn := by
  intro ch hch
  rw [List.mem_singleton.1 hch]
  decide

/-- The root of a formatted volume after `mkdir a`. -/
theorem mkdir_formatted :
    (formatted.mkdir (lit "a") zeroSector).Located ⟨12798, 100⟩ ∧
      (formatted.mkdir (lit "a") zeroSector).currentDirCluster = 2 ∧
      ∃ e, (formatted.mkdir (lit "a") zeroSector).findFile (lit "a") = some e ∧
        e.isDirectory = true :=
  (Fs.located_root geometry_formatted sound_formatted.tree rfl rfl).mkdir
    (takes_formatted _) freeSlot_formatted lit_a_noBreak (by decide) zeroSector

/-! ## Two directories deep -/

namespace Fs

variable {fs fs' : Fs} {name : Str} {c : UInt32} {i : Fin 16}

/-- The driver at another place. -/
def moved (fs : Fs) (c : UInt32) (path : Str) : Fs :=
  { fs with currentDirCluster := c, currentPath := path }

@[simp]
theorem moved_cluster (fs : Fs) (c : UInt32) (path : Str) :
    (fs.moved c path).currentDirCluster = c := rfl

@[simp]
theorem moved_path (fs : Fs) (c : UInt32) (path : Str) :
    (fs.moved c path).currentPath = path := rfl

theorem Ready.moved {path : Str} (h : fs.Ready) : (fs.moved c path).Ready := h

/-- The place of the driver says which sector it looks at. -/
theorem currentSector_moved (fs : Fs) (c : UInt32) (path : Str) :
    (fs.moved c path).currentSector =
      fs.diskMgr.sectors 1 (fs.getSectorByCluster c) := rfl

theorem sectors_moved (fs : Fs) (c x : UInt32) (path : Str) :
    (fs.moved c path).diskMgr.sectors 1
        ((fs.moved c path).getSectorByCluster x) =
      fs.diskMgr.sectors 1 (fs.getSectorByCluster x) := rfl

theorem cd_child_moved {e : DirEntry} (h : Proper name)
    (hfind : fs.findFile name = some e) (hdir : e.isDirectory = true) :
    fs.cd name = fs.moved e.cluster (childPath fs.currentPath name) :=
  cd_child h hfind hdir

theorem findFile_current (h : fs.Ready) (name : Str) : fs.findFile name =
    (findFileSlot fs.currentSector name).map (dirEntry fs.currentSector) :=
  findFile_slot (read_ready h) name

/-- Into the directory just made. -/
theorem Created.cd (h : Created fs fs' name c i) (hplace : fs.SamePlace fs')
    (htakes : fs.Takes name) (hproper : Proper name)
    (hbreak : ∀ ch ∈ name, ch ≠ newline ∧ ch ≠ carriageReturn)
    (hhead : name.headD 0 ≠ 0xE5) :
    fs'.cd name = fs'.moved c (childPath fs.currentPath name) := by
  have hfind := h.findFile hplace htakes.1 htakes.2.1 hbreak hhead
  rw [cd_child_moved hproper hfind (newDirEntry_isDirectory _ _ _),
    newDirEntry_cluster, hplace.path]

theorem Created.sector (h : Created fs fs' name c i)
    (hplace : fs.SamePlace fs') (path : Str) :
    (fs'.moved c path).currentSector =
      dotEntries c (dotdotOf fs.currentDirCluster) := by
  have hsector := h.cluster
  rw [← hplace.sector] at hsector
  exact hsector

end Fs

/-- In the directory `a` of a volume that has nothing else. -/
def inside : Fs := (formatted.mkdir (lit "a") zeroSector).cd (lit "a")

theorem sound_inside : inside.Sound ⟨12798, 100⟩ :=
  (sound_formatted.mkdir (lit "a") zeroSector).cd

theorem created_formatted : ∃ i, formatted.Created
    (formatted.mkdir (lit "a") zeroSector) (lit "a")
    formatted.findFreeCluster i :=
  (Fs.mkdir_created geometry_formatted sound_formatted.exists
    (sound_formatted.tree.used_of_inReach sound_formatted.current)
    (Fs.cerr_mkdir_of_takes (takes_formatted _) freeSlot_formatted _)).2

theorem inside_eq : inside = (formatted.mkdir (lit "a") zeroSector).moved
    formatted.findFreeCluster (childPath formatted.currentPath (lit "a")) := by
  obtain ⟨i, hcreated⟩ := created_formatted
  exact hcreated.cd (Fs.samePlace_mkdir _ _) (takes_formatted (lit "a"))
    proper_a lit_a_noBreak (by decide)

theorem currentSector_inside :
    inside.currentSector = dotEntries formatted.findFreeCluster 0 := by
  obtain ⟨i, hcreated⟩ := created_formatted
  rw [inside_eq, hcreated.sector (Fs.samePlace_mkdir _ _)]
  have hroot : dotdotOf formatted.currentDirCluster = 0 := if_pos rfl
  rw [hroot]

/-- Nothing is found in a directory just made. -/
theorem findFileSlot_dotEntries (c p : UInt32) (name : Str) :
    findFileSlot (dotEntries c p) name = none := by
  refine List.find?_eq_none.2 fun i _ => ?_
  rw [Bool.and_eq_true, Bool.not_eq_true']
  rintro ⟨hused, hmatch⟩
  exact not_live_dotEntries c p i
    (DirEntry.live_of_head hused (fatNameMatch_head hmatch).2)

/-- The third entry of a directory just made is free. -/
theorem isFree_dotEntries (c p : UInt32) :
    (dirEntry (dotEntries c p) 2).isFree = true := by
  rw [dotEntries, dirEntry_setDirEntry_of_ne _ (by decide),
    dirEntry_setDirEntry_of_ne _ (by decide)]
  exact dirEntry_zeroSector 2

theorem ready_inside : inside.Ready := by
  rw [inside_eq]
  exact ((takes_formatted (lit "a")).1.samePlace (Fs.samePlace_mkdir _ _)).moved

/-- Of the clusters 3 and 4 one is still free. -/
theorem free_inside :
    ∃ x : UInt32, (x = 3 ∨ x = 4) ∧ (inside.volume ⟨12798, 100⟩).fat x = 0 := by
  obtain ⟨hfound, hlink⟩ := volume_mkdir_formatted
  have hvolume : inside.volume ⟨12798, 100⟩ =
      (formatted.mkdir (lit "a") zeroSector).volume ⟨12798, 100⟩ := Fs.volume_cd
  obtain ⟨x, hx, hne⟩ : ∃ x : UInt32,
      (x = 3 ∨ x = 4) ∧ x ≠ formatted.findFreeCluster := by
    by_cases h3 : formatted.findFreeCluster = 3
    · exact ⟨4, .inr rfl, by rw [h3]; decide⟩
    · exact ⟨3, .inl rfl, fun h => h3 h.symm⟩
  refine ⟨x, hx, ?_⟩
  have htwo : x ≠ 2 := by
    rcases hx with rfl | rfl <;> decide
  rw [hvolume, hlink, Volume.link, Volume.setSlot_fat,
    Volume.allocate_fat_of_ne hne, formatted_fat, if_neg htwo]

theorem takes_inside : inside.Takes (lit "a") := by
  obtain ⟨x, hx, hfree⟩ := free_inside
  refine ⟨ready_inside, ?_, ?_⟩
  · rw [Fs.findFile_current ready_inside, currentSector_inside,
      findFileSlot_dotEntries]
    rfl
  · refine Fs.findFreeCluster_ne_zero ready_inside sound_inside.geometry (c := x)
      ?_ ?_ hfree
    · rcases hx with rfl | rfl <;> decide
    · rcases hx with rfl | rfl <;> decide

theorem freeSlot_inside : inside.freeSlot ≠ none := by
  intro hnone
  rw [Fs.freeSlot, currentSector_inside] at hnone
  exact firstSlot_none hnone 2 (isFree_dotEntries _ _)

theorem created_inside : ∃ i, inside.Created
    (inside.mkdir (lit "a") zeroSector) (lit "a") inside.findFreeCluster i :=
  (Fs.mkdir_created sound_inside.geometry sound_inside.exists
    (sound_inside.tree.used_of_inReach sound_inside.current)
    (Fs.cerr_mkdir_of_takes takes_inside freeSlot_inside _)).2

theorem inside_ne_root : inside.currentDirCluster ≠ 2 := by
  intro heq
  have hfree := (Fs.newCluster_spec geometry_formatted
    (takes_formatted (lit "a")).2.2).2
  rw [inside_eq, Fs.moved_cluster] at heq
  rw [heq] at hfree
  exact sound_formatted.tree.rootUsed hfree

/-- The directory `a` after a `mkdir a` in it. -/
theorem mkdir_inside :
    (inside.mkdir (lit "a") zeroSector).Located ⟨12798, 100⟩ ∧
      (inside.mkdir (lit "a") zeroSector).currentDirCluster ≠ 2 ∧
      ∃ e, (inside.mkdir (lit "a") zeroSector).findFile (lit "a") = some e ∧
        e.isDirectory = true := by
  obtain ⟨hlocated, hcluster, hfound⟩ := mkdir_formatted.1.cd.mkdir
    takes_inside freeSlot_inside lit_a_noBreak (by decide) zeroSector
  exact ⟨hlocated, fun heq => inside_ne_root (hcluster.symm.trans heq), hfound⟩

/-- A `cd` into a subdirectory that succeeds, followed by `cd ..`, restores
the current cluster and path if and only if the current directory is not the
root. -/
theorem cd_dotdot_restores_iff {fs : Fs} {g : Shape} {d : Str} {e : DirEntry}
    (h : fs.Located g) (hslash : slash ∉ d) (hzero : 0 ∉ d) (hdot : d ≠ lit ".")
    (hdotdot : d ≠ lit "..") (hfind : fs.findFile d = some e)
    (hdir : e.isDirectory = true)
    (hsucceeds : (fs.cd d).currentDirCluster = e.cluster) :
    (((fs.cd d).cd (lit "..")).currentDirCluster = fs.currentDirCluster ∧
      ((fs.cd d).cd (lit "..")).currentPath = fs.currentPath) ↔
        fs.currentDirCluster ≠ 2 := by
  obtain ⟨-, i, -, edge⟩ := h.sound.child hfind hdir
  have hself : e.cluster ≠ fs.currentDirCluster := by
    intro heq
    obtain ⟨n, hn⟩ := h.sound.current
    have hcycle := hn.step edge
    rw [heq] at hcycle
    exact absurd (h.sound.tree.tree.depth_unique hn hcycle) (Nat.succ_ne_self n).symm
  have hproper : Proper d := by
    refine ⟨⟨?_, fun x hx => ?_⟩, hdot, hdotdot⟩
    · intro heq
      subst heq
      -- An empty path leads nowhere.
      have hstay : (fs.cd []).currentDirCluster = fs.currentDirCluster := by
        have hslash : ¬ (0 : UInt8) = slash := by decide
        simp [Fs.cd, components, Fs.cdLoop, hslash]
      exact hself (hsucceeds.symm.trans hstay)
    · have hx0 : x ≠ 0 := fun h0 => hzero (h0 ▸ hx)
      have hxs : x ≠ slash := fun hs => hslash (hs ▸ hx)
      simp [isPlain, hx0, hxs]
  rw [h.cd_dotdot hproper hfind hdir]
  by_cases hroot : fs.currentDirCluster = 2
  · rw [if_pos hroot, hsucceeds]
    exact ⟨fun heq => absurd heq.1 hself, fun hne => absurd hroot hne⟩
  · rw [if_neg hroot]
    exact ⟨fun _ => hroot, fun _ => ⟨rfl, rfl⟩⟩

/-- Two directories deep, `cd ..` leads back. -/
theorem cd_dotdot_restores_iff_inside :
    (((inside.mkdir (lit "a") zeroSector).cd (lit "a")).cd
          (lit "..")).currentDirCluster =
        (inside.mkdir (lit "a") zeroSector).currentDirCluster ∧
      (((inside.mkdir (lit "a") zeroSector).cd (lit "a")).cd
          (lit "..")).currentPath =
        (inside.mkdir (lit "a") zeroSector).currentPath := by
  obtain ⟨hlocated, hne, e, hfind, hdir⟩ := mkdir_inside
  have hsucceeds : ((inside.mkdir (lit "a") zeroSector).cd
      (lit "a")).currentDirCluster = e.cluster := by
    rw [Fs.cd_child proper_a hfind hdir]
  exact (cd_dotdot_restores_iff hlocated (by decide) (by decide) (by decide)
    (by decide) hfind hdir hsucceeds).2 hne

/-- `cd ..` does not lead back out of a directory just made in the root. -/
theorem cd_dotdot_root :
    (formatted.mkdir (lit "a") zeroSector).Located ⟨12798, 100⟩ ∧
      ∃ e, (formatted.mkdir (lit "a") zeroSector).findFile (lit "a") = some e ∧
        e.isDirectory = true ∧
        ((formatted.mkdir (lit "a") zeroSector).cd
          (lit "a")).currentDirCluster = e.cluster ∧
        (((formatted.mkdir (lit "a") zeroSector).cd (lit "a")).cd
            (lit "..")).currentDirCluster ≠
          (formatted.mkdir (lit "a") zeroSector).currentDirCluster := by
  obtain ⟨hlocated, hroot, e, hfind, hdir⟩ := mkdir_formatted
  have hsucceeds : ((formatted.mkdir (lit "a") zeroSector).cd
      (lit "a")).currentDirCluster = e.cluster := by
    rw [Fs.cd_child proper_a hfind hdir]
  refine ⟨hlocated, e, hfind, hdir, hsucceeds, ?_⟩
  obtain ⟨-, i, -, edge⟩ := hlocated.sound.child hfind hdir
  rw [hlocated.cd_dotdot proper_a hfind hdir, if_pos hroot, hsucceeds, hroot]
  intro heq
  rw [heq] at edge
  exact hlocated.sound.tree.tree.root_free _ i hlocated.sound.current edge

end TermOS.Storage
