import TermOS.Proofs.FatPath
import TermOS.Proofs.Mkdir
import TermOS.Proofs.PathBuffers

/-!
# How long the current path gets

The path grows by the name that was typed, not by the name of the directory,
and names are compared up to their eighth character. So a walk down can take
any number of characters for a directory, and only the depth of the tree and
the length of the command line bound it. The buffers hold as long as no
directory is entered under a path of more than 255 characters.

A walk is followed here by the names it has taken from the root, apart from
the strings that `fat32_cd` edits.
-/

namespace TermOS.Storage

open TermOS.Lib

theorem length_render_le {names : List Str} :
    (render names).length ≤ 255 ↔ (slashed names).length ≤ 255 := by
  rw [render]
  split
  · next hnil =>
      rw [hnil]
      exact iff_of_true (by decide) (by decide)
  · exact Iff.rfl

theorem length_slashed_dropLast (names : List Str) :
    (slashed names.dropLast).length ≤ (slashed names).length := by
  rcases List.eq_nil_or_concat' names with rfl | ⟨ns, n, rfl⟩
  · exact Nat.le_refl _
  · rw [List.dropLast_concat, slashed_append, List.length_append]
    exact Nat.le_add_right _ _

theorem parentPath_render_dropLast {names : List Str}
    (h : ∀ n ∈ names, Proper n) :
    parentPath (render names) = render names.dropLast := by
  rcases List.eq_nil_or_concat' names with rfl | ⟨ns, n, rfl⟩
  · rfl
  · rw [List.dropLast_concat, parentPath_render ns (h n (by simp)).1]

theorem inBuffers_parentStores {names : List Str} (h : ∀ n ∈ names, Proper n)
    (hlen : (slashed names).length ≤ 255) :
    InBuffers (parentStores (render names)) := by
  rcases List.eq_nil_or_concat' names with rfl | ⟨ns, n, rfl⟩
  · exact .nil
  · have hne : ns ++ [n] ≠ [] := by simp
    have hplain := (h n (by simp)).1
    rw [parentStores, render, if_neg hne,
      lastSlash_slashed ns hplain.slash_not_mem]
    rw [slashed_append, List.length_append] at hlen
    -- The last slash is at the end of the other names.
    generalize (slashed ns).length = k at hlen
    split
    · cases k with
      | zero =>
          intro s hs
          rw [List.mem_singleton.1 hs]
          exact ⟨by decide, by decide⟩
      | succ k =>
          intro s hs
          rw [List.mem_singleton.1 hs]
          show 0 ≤ ((k + 1 : Nat) : Int) ∧ ((k + 1 : Nat) : Int) ≤ 255
          omega
    · exact .nil

theorem length_le_of_mem_components {path component : Str}
    (h : component ∈ components path) : component.length ≤ path.length := by
  induction path using components.induct with
  | case1 => simp [components] at h
  | case2 path => simp [components] at h
  | case3 path hzero ih =>
      rw [components, if_neg hzero, if_pos rfl] at h
      exact Nat.le_succ_of_le (ih h)
  | case4 c path hzero hslash ih =>
      rw [components, if_neg hzero, if_neg hslash] at h
      rcases List.mem_cons.1 h with rfl | hrest
      · exact Nat.succ_le_succ (List.takeWhile_sublist _).length_le
      · have hdrop := (List.dropWhile_sublist isPlain (l := path)).length_le
        exact Nat.le_succ_of_le (Nat.le_trans (ih hrest) hdrop)

/-! ## The walk -/

namespace Fs

variable {fs fs' : Fs} {c : UInt32} {names cs : List Str}
  {path component old : Str}

/-- Where a component leads from the directory `c`, which `names` have led to;
`none` where `fat32_cd` gives up. -/
def next (fs : Fs) (c : UInt32) (names : List Str) (component : Str) :
    Option (UInt32 × List Str) :=
  let here := { fs with currentDirCluster := c }
  if component = lit ".." then
    some (if here.getParentCluster ≠ 0 then
      (here.getParentCluster, names.dropLast) else (c, names))
  else if component = lit "." then some (c, names)
  else
    match here.findFile component with
    | none => none
    | some e =>
        if e.isDirectory then some (e.cluster, names ++ [component]) else none

/-- Wherever the walk comes by, the names from the root take at most 255
characters, with a slash in front of each. -/
def Fits (fs : Fs) : UInt32 → List Str → List Str → Prop
  | _, _, [] => True
  | c, names, component :: rest =>
      match fs.next c names component with
      | none => True
      | some (c', names') =>
          (slashed names').length ≤ 255 ∧ Fits fs c' names' rest

/-- The walk of a `cd`. -/
def FitsCd (fs : Fs) (path : Str) : Prop :=
  fs.Fits (fs.cdStart path).1.currentDirCluster
    (components (fs.cdStart path).1.currentPath)
    (components (fs.cdStart path).2)

/-- The driver in the directory `c` with the path of `names`. -/
def inDir (fs : Fs) (c : UInt32) (names : List Str) : Fs :=
  { fs with currentDirCluster := c, currentPath := render names }

/-- One round of the loop, as the walk has it and as the stores have it. -/
theorem cdComponent_walk (fs : Fs) (c : UInt32)
    (hnames : ∀ n ∈ names, Proper n)
    (hlen : (slashed names).length ≤ 255) (hold : old.length ≤ 255)
    (hplain : Plain component) (hcomponent : component.length ≤ 255) :
    (fs.next c names component = none ∧
      (∃ m, (fs.inDir c names).cdComponent component = .error m) ∧
      InBuffers ((fs.inDir c names).cdComponentStores old component)) ∨
    ∃ c' names', fs.next c names component = some (c', names') ∧
      (fs.inDir c names).cdComponent component = .ok (fs.inDir c' names') ∧
      (∀ n ∈ names', Proper n) ∧
      (InBuffers ((fs.inDir c names).cdComponentStores old component) ↔
        (slashed names').length ≤ 255) := by
  have hcopy : InBuffers (copyStores .component 0 component) :=
    inBuffers_copyStores.2 (by omega)
  have hback : InBuffers (copyStores .currentPath 0 old) :=
    inBuffers_copyStores.2 (by omega)
  have hparent : (fs.inDir c names).getParentCluster =
      { fs with currentDirCluster := c }.getParentCluster := rfl
  have hfile : (fs.inDir c names).findFile component =
      { fs with currentDirCluster := c }.findFile component := rfl
  have hpath : (fs.inDir c names).currentPath = render names := rfl
  rw [next, cdComponent, cdComponentStores, hparent, hfile, hpath,
    inBuffers_append, and_iff_right hcopy]
  by_cases hdotdot : component = lit ".."
  · right
    simp only [if_pos hdotdot]
    by_cases hne : { fs with currentDirCluster := c }.getParentCluster ≠ 0
    · simp only [if_pos hne]
      have hdrop := length_slashed_dropLast names
      refine ⟨_, _, rfl, ?_, fun n hn => hnames n (List.mem_of_mem_dropLast hn),
        iff_of_true (inBuffers_parentStores hnames hlen) (by omega)⟩
      rw [parentPath_render_dropLast hnames]
      rfl
    · simp only [if_neg hne]
      exact ⟨_, _, rfl, rfl, hnames, iff_of_true .nil hlen⟩
  · simp only [if_neg hdotdot]
    by_cases hdot : component = lit "."
    · simp only [if_pos hdot]
      exact .inr ⟨_, _, rfl, rfl, hnames, iff_of_true .nil hlen⟩
    · simp only [if_neg hdot]
      cases { fs with currentDirCluster := c }.findFile component with
      | none => exact .inl ⟨rfl, ⟨_, rfl⟩, hback⟩
      | some e =>
          by_cases hdir : e.isDirectory = true
          · right
            simp only [if_pos hdir]
            have hchild := childPath_render (fun n hn => (hnames n hn).1)
              component
            refine ⟨_, _, rfl, by rw [hchild]; rfl, ?_, ?_⟩
            · intro n hn
              rcases List.mem_append.1 hn with hmem | hlast
              · exact hnames n hmem
              · rw [List.mem_singleton.1 hlast]
                exact ⟨hplain, hdot, hdotdot⟩
            · rw [inBuffers_childStores, hchild, length_render_le]
          · left
            simp only [if_neg hdir]
            exact ⟨trivial, ⟨_, rfl⟩, hback⟩

/-- The stores of the loop are inside the buffers if and only if its walk
fits, and then the path at its end does. -/
theorem cdLoop_walk (fs : Fs) (c : UInt32) (hold : old.length ≤ 255)
    (hcs : ∀ d ∈ cs, Plain d ∧ d.length ≤ 255)
    (hnames : ∀ n ∈ names, Proper n) (hlen : (slashed names).length ≤ 255) :
    (InBuffers ((fs.inDir c names).cdLoopStores old cs) ↔
        fs.Fits c names cs) ∧
      (fs.Fits c names cs → ∀ fs', (fs.inDir c names).cdLoop cs = .ok fs' →
        ∃ c' names', fs' = fs.inDir c' names' ∧ (∀ n ∈ names', Proper n) ∧
          (slashed names').length ≤ 255) := by
  induction cs generalizing c names with
  | nil =>
      refine ⟨iff_of_true .nil trivial, fun _ fs' hok => ?_⟩
      obtain rfl := Except.ok.inj hok
      exact ⟨c, names, rfl, hnames, hlen⟩
  | cons d cs ih =>
      obtain ⟨hplain, hd⟩ := hcs d List.mem_cons_self
      have hcs' : ∀ e ∈ cs, Plain e ∧ e.length ≤ 255 :=
        fun e he => hcs e (List.mem_cons_of_mem d he)
      rw [cdLoopStores, Fits, cdLoop, inBuffers_append]
      rcases cdComponent_walk fs c hnames hlen hold hplain hd with
        ⟨hnext, ⟨m, hround⟩, hstores⟩ | ⟨c', names', hnext, hround, hnames', hiff⟩
      · simp only [hnext, hround]
        refine ⟨iff_of_true ⟨hstores, .nil⟩ trivial, fun _ fs' hok => ?_⟩
        cases hok
      · simp only [hnext, hround]
        rw [hiff]
        by_cases hlen' : (slashed names').length ≤ 255
        · obtain ⟨hloop, hend⟩ := ih c' hcs' hnames' hlen'
          exact ⟨by rw [hloop], fun h => hend h.2⟩
        · exact ⟨iff_of_false (fun h => hlen' h.1) fun h => hlen' h.1,
            fun h => absurd h.1 hlen'⟩

/-- Where a `cd` starts, as a place of the walk. -/
theorem cdStart_inDir (hcanon : Canonical fs.currentPath)
    (hlen : fs.currentPath.length ≤ 255) (path : Str) :
    (fs.cdStart path).1 = fs.inDir (fs.cdStart path).1.currentDirCluster
        (components (fs.cdStart path).1.currentPath) ∧
      (∀ n ∈ components (fs.cdStart path).1.currentPath, Proper n) ∧
      (slashed (components (fs.cdStart path).1.currentPath)).length ≤ 255 := by
  rw [cdStart]
  split
  · have hroot : components [slash] = [] := @components_render [] (by simp)
    simp only [hroot]
    exact ⟨rfl, by simp, by decide⟩
  · refine ⟨?_, hcanon.2, ?_⟩
    · rw [inDir, ← hcanon.1]
    · rw [hcanon.1] at hlen
      exact length_render_le.1 hlen

theorem mem_cdStart {d : Str} (hpath : path.length < 128)
    (hd : d ∈ components (fs.cdStart path).2) : Plain d ∧ d.length ≤ 255 := by
  refine ⟨plain_of_mem_components hd, ?_⟩
  have hle := length_le_of_mem_components hd
  have hrest : (fs.cdStart path).2.length ≤ path.length := by
    rw [cdStart]
    split
    · rw [List.length_tail]
      exact Nat.sub_le _ _
    · exact Nat.le_refl _
  omega

theorem canonical_length_inDir (hnames : ∀ n ∈ names, Proper n)
    (hlen : (slashed names).length ≤ 255) :
    Canonical (fs.inDir c names).currentPath ∧
      (fs.inDir c names).currentPath.length ≤ 255 :=
  ⟨canonical_render hnames, length_render_le.2 hlen⟩

/-- A `cd` whose walk fits, and only such a one, stays inside the buffers, and
the next one starts from a path that fits. -/
theorem cd_walk (hcanon : Canonical fs.currentPath)
    (hlen : fs.currentPath.length ≤ 255) (hpath : path.length < 128) :
    (InBuffers (fs.cdStores path) ↔ fs.FitsCd path) ∧
      (fs.FitsCd path → Canonical (fs.cd path).currentPath ∧
        (fs.cd path).currentPath.length ≤ 255) := by
  obtain ⟨hstart, hnames, hslashed⟩ := cdStart_inDir hcanon hlen path
  have hcopy : InBuffers (copyStores .oldPath 0 fs.currentPath) :=
    inBuffers_copyStores.2 (by omega)
  have habs : InBuffers (if path.headD 0 = slash then
      copyStores .currentPath 0 [slash] else []) := by
    split
    · exact inBuffers_copyStores.2 (by decide)
    · exact .nil
  have hcases := cd_cases fs path
  rw [cdStores, inBuffers_append,
    and_iff_right (inBuffers_append.2 ⟨hcopy, habs⟩), FitsCd]
  have hcs := fun d (hd : d ∈ components (fs.cdStart path).2) =>
    mem_cdStart hpath hd
  generalize (fs.cdStart path).1.currentDirCluster = c at *
  generalize components (fs.cdStart path).1.currentPath = names at *
  rw [hstart] at hcases ⊢
  obtain ⟨hiff, hend⟩ := cdLoop_walk fs c hlen hcs hnames hslashed
  refine ⟨hiff, fun hfits => ?_⟩
  rcases hcases with ⟨m, -, heq⟩ | hok
  · rw [heq]
    exact ⟨hcanon, hlen⟩
  · obtain ⟨c', names', heq, hnames', hlen'⟩ := hend hfits _ hok
    rw [heq]
    exact canonical_length_inDir hnames' hlen'

end Fs

/-! ## A long name two directories deep -/

namespace Fs

variable {fs fs' : Fs} {name name' : Str} {c : UInt32} {i : Fin 16}

theorem findFile_congr (h : ∀ n, fatNameMatch name n = fatNameMatch name' n)
    (fs : Fs) : fs.findFile name = fs.findFile name' := by
  simp only [findFile, h]

/-- A `mkdir` leaves the other directories as they are. -/
theorem Created.sector_of_ne {g : Shape} (h : Created fs fs' name
    fs.findFreeCluster i) (hg : Geometry fs g) (hzero : fs.findFreeCluster ≠ 0)
    (hcurrent : g.Exists fs.currentDirCluster) (hc : g.Exists c)
    (hnew : c ≠ fs.findFreeCluster) (hne : c ≠ fs.currentDirCluster) :
    fs'.diskMgr.sectors 1 (fs.getSectorByCluster c) =
      fs.diskMgr.sectors 1 (fs.getSectorByCluster c) := by
  obtain ⟨hexist, hin, -⟩ := findFreeCluster_spec hg hzero
  refine h.others _ (hg.fatSector_ne_sector hin hc).symm ?_ ?_
  · exact fun heq => hnew (hg.sector_inj hc hexist heq)
  · exact fun heq => hne (hg.sector_inj hc hcurrent heq)

/-- Down from the root, into one directory. -/
theorem fitsCd_child {d : Str} {e : DirEntry}
    (hroot : fs.currentPath = [slash]) (hd : Proper d)
    (hfind : fs.findFile d = some e) (hdir : e.isDirectory = true)
    (hlen : d.length ≤ 254) : fs.FitsCd d := by
  have hstart : fs.cdStart d = (fs, d) := if_neg hd.1.head_ne_slash
  have hnames : components fs.currentPath = [] := by
    rw [hroot]
    exact @components_render [] (by simp)
  have hnext : fs.next fs.currentDirCluster [] d = some (e.cluster, [d]) := by
    rw [next, if_neg hd.2.2, if_neg hd.2.1]
    simp only [hfind, hdir, if_true, List.nil_append]
  rw [FitsCd, hstart, hnames, components_plain hd.1, Fits, hnext]
  refine ⟨?_, trivial⟩
  simp only [slashed, List.flatMap_cons, List.flatMap_nil, List.append_nil,
    List.length_cons]
  omega

theorem cd_root (fs : Fs) : fs.cd (lit "/") = fs.moved 2 [slash] := rfl

end Fs

/-- A name of 127 characters for a directory `a`: the dot ends it. -/
def typed : Str := lit "a." ++ List.replicate 125 0x61

theorem length_typed : typed.length = 127 := by
  rw [typed, List.length_append, List.length_replicate]
  rfl

/-- The command line has room for it. -/
def typedPath : ShellPath := ⟨typed, by rw [length_typed]; decide⟩

theorem match_typed (n : Vector UInt8 11) :
    fatNameMatch typed n = fatNameMatch (lit "a") n :=
  fatNameMatch_congr (n := fatName (lit "a")) (by decide) (by decide)

theorem proper_typed : Proper typed := by
  have hplain : typed.all isPlain = true := by decide
  refine ⟨⟨by decide, fun x hx => List.all_eq_true.1 hplain x hx⟩, ?_, ?_⟩
  · decide
  · decide

/-- In the root of a volume with the directory `a/a`. -/
def nested : Fs := (inside.mkdir (lit "a") zeroSector).cd (lit "/")

theorem sound_nested : nested.Sound ⟨12798, 100⟩ :=
  (sound_inside.mkdir (lit "a") zeroSector).cd

theorem nested_eq :
    nested = (inside.mkdir (lit "a") zeroSector).moved 2 [slash] :=
  Fs.cd_root _

/-- The `mkdir` in `a` has not changed the root. -/
theorem currentSector_nested :
    nested.currentSector = (formatted.mkdir (lit "a") zeroSector).currentSector := by
  obtain ⟨i, hcreated⟩ := created_inside
  have hplace : inside.SamePlace (inside.mkdir (lit "a") zeroSector) :=
    Fs.samePlace_mkdir _ _
  have hplace₁ : formatted.SamePlace (formatted.mkdir (lit "a") zeroSector) :=
    Fs.samePlace_mkdir _ _
  have htwo : Shape.Exists ⟨12798, 100⟩ 2 := by decide
  have hnew : 2 ≠ inside.findFreeCluster := by
    intro heq
    have hfree := (Fs.newCluster_spec sound_inside.geometry takes_inside.2.2).2
    rw [← heq] at hfree
    exact sound_inside.tree.rootUsed hfree
  have hsame := hcreated.sector_of_ne sound_inside.geometry takes_inside.2.2
    sound_inside.exists htwo hnew inside_ne_root.symm
  have hroot : (formatted.mkdir (lit "a") zeroSector).currentDirCluster = 2 :=
    hplace₁.cluster
  rw [nested_eq, Fs.currentSector_moved, hplace.sector, hsame, inside_eq,
    Fs.sectors_moved, Fs.currentSector, hroot]

theorem ready_nested : nested.Ready := by
  rw [nested_eq]
  exact (ready_inside.samePlace (Fs.samePlace_mkdir _ _)).moved

theorem path_nested : nested.currentPath = [slash] := by
  rw [nested_eq, Fs.moved_path]

/-- A directory `a` just made, wherever its entry is looked for under the long
name. -/
theorem findFile_typed {fs fs' s : Fs} {c : UInt32} {i : Fin 16}
    (h : fs.Created fs' (lit "a") c i) (hplace : fs.SamePlace fs')
    (htakes : fs.Takes (lit "a")) (hready : s.Ready)
    (hsector : s.currentSector = fs'.currentSector) : s.findFile typed =
      some (newDirEntry (dirEntry fs.currentSector i) (lit "a") c) := by
  have hfind := h.findFile hplace htakes.1 htakes.2.1 lit_a_noBreak (by decide)
  rwa [Fs.findFile_current (htakes.1.samePlace hplace), ← hsector,
    ← Fs.findFile_current hready, ← Fs.findFile_congr match_typed] at hfind

theorem findFile_nested : ∃ e, nested.findFile typed = some e ∧
    e.isDirectory = true ∧ e.cluster = formatted.findFreeCluster := by
  obtain ⟨i, hcreated⟩ := created_formatted
  exact ⟨_, findFile_typed hcreated (Fs.samePlace_mkdir _ _)
    (takes_formatted (lit "a")) ready_nested currentSector_nested,
    newDirEntry_isDirectory _ _ _, newDirEntry_cluster _ _ _⟩

theorem cd_nested : nested.cd typed = nested.moved formatted.findFreeCluster
    (childPath nested.currentPath typed) := by
  obtain ⟨e, hfind, hdir, hcluster⟩ := findFile_nested
  rw [Fs.cd_child_moved proper_typed hfind hdir, hcluster]

theorem fits_nested : nested.FitsCd typed := by
  obtain ⟨e, hfind, hdir, -⟩ := findFile_nested
  refine Fs.fitsCd_child path_nested proper_typed hfind hdir ?_
  rw [length_typed]
  decide

theorem currentPath_cd_cd_nested : ((nested.cd typed).cd typed).currentPath =
    childPath (childPath [slash] typed) typed := by
  obtain ⟨i, hcreated⟩ := created_inside
  have hplace : inside.SamePlace (inside.mkdir (lit "a") zeroSector) :=
    Fs.samePlace_mkdir _ _
  have hcluster : (inside.mkdir (lit "a") zeroSector).currentDirCluster =
      formatted.findFreeCluster := by
    rw [hplace.cluster, inside_eq, Fs.moved_cluster]
  have hsector : (nested.cd typed).currentSector =
      (inside.mkdir (lit "a") zeroSector).currentSector := by
    rw [cd_nested, Fs.currentSector_moved, nested_eq, Fs.sectors_moved,
      Fs.currentSector, hcluster]
  have hready : (nested.cd typed).Ready := by
    rw [cd_nested]
    exact ready_nested.moved
  have hfind := findFile_typed hcreated hplace takes_inside hready hsector
  rw [Fs.cd_child_moved proper_typed hfind (newDirEntry_isDirectory _ _ _),
    Fs.moved_path, cd_nested, Fs.moved_path, path_nested]

/-- From the root on, the calls of `fat32_cd` stay inside the buffers, with a
path of at most 255 characters after each, if and only if the walk of every
call fits. -/
theorem cd_in_buffers_iff {fs fs' : Fs} {paths : List ShellPath}
    (hroot : fs.currentPath = [slash]) :
    Trace (Trace.Along Fs.CdStep fun fs path fs' =>
        InBuffers (fs.cdStores path.val) ∧ fs'.currentPath.length ≤ 255)
      fs paths fs' ↔
    Trace (Trace.Along Fs.CdStep fun fs path _ => fs.FitsCd path.val)
      fs paths fs' := by
  refine Trace.along_congr
    (I := fun fs => Canonical fs.currentPath ∧ fs.currentPath.length ≤ 255)
    ?_ ?_ ?_
  · rintro fs path fs' ⟨hcanon, hlen⟩ rfl ⟨hstores, -⟩
    obtain ⟨hiff, hend⟩ := Fs.cd_walk hcanon hlen path.property
    exact hend (hiff.1 hstores)
  · rintro fs path fs' ⟨hcanon, hlen⟩ rfl
    obtain ⟨hiff, hend⟩ := Fs.cd_walk hcanon hlen path.property
    rw [hiff]
    exact and_iff_left_of_imp fun hfits => (hend hfits).2
  · rw [hroot]
    exact ⟨@canonical_render [] (by simp), by decide⟩

/-- One `cd` into `a` under the long name. -/
theorem cd_in_buffers_iff_nested :
    Trace (Trace.Along Fs.CdStep fun fs path fs' =>
        InBuffers (fs.cdStores path.val) ∧ fs'.currentPath.length ≤ 255)
      nested [typedPath] (nested.cd typed) :=
  (cd_in_buffers_iff path_nested).2 (.cons ⟨rfl, fits_nested⟩ (.nil _))

/-- On a volume with the directory `a/a`, two `cd`s make a path of 256
characters. -/
theorem not_cd_in_buffers :
    nested.Sound ⟨12798, 100⟩ ∧ nested.currentDirCluster = 2 ∧
      nested.currentPath = [slash] ∧
      Trace Fs.CdStep nested [typedPath, typedPath]
        ((nested.cd typed).cd typed) ∧
      ((nested.cd typed).cd typed).currentPath.length = 256 := by
  refine ⟨sound_nested, ?_, ?_, .cons rfl (.cons rfl (.nil _)), ?_⟩
  · rw [nested_eq, Fs.moved_cluster]
  · exact path_nested
  · have hroot : [slash] = render [] := rfl
    have hplain : ∀ n ∈ [typed], Plain n := fun n hn =>
      List.mem_singleton.1 hn ▸ proper_typed.1
    rw [currentPath_cd_cd_nested, hroot, childPath_render (by simp),
      List.nil_append, childPath_render hplain]
    simp [render, slashed, length_typed]

end TermOS.Storage
