import TermOS.Proofs.FatTree
import TermOS.Proofs.PathBuffers
import TermOS.Ref.Fat32Cd

/-!
# `fat32_cd` returns, and an error undoes it

The loop moves `path` behind the slashes, behind a component, or not at all
when it stops, so a round that is followed by another has taken a character
off. What a round may change is the current cluster and the current path, and
these two are what is put back: the state in front of the call is the state in
any round, restored.
-/

namespace TermOS.Storage

variable {path component : Str} {fuel : Nat}

/-! ## The inner loops -/

theorem skipSlashes_eq (h : path.length < fuel) :
    skipSlashes fuel path = some (path.dropWhile (· == slash)) := by
  induction path generalizing fuel with
  | nil =>
      obtain ⟨n, rfl⟩ : ∃ n, fuel = n + 1 := ⟨fuel - 1, by omega⟩
      rfl
  | cons c path ih =>
      obtain ⟨n, rfl⟩ : ∃ n, fuel = n + 1 := ⟨fuel - 1, by omega⟩
      rw [List.length_cons] at h
      rw [skipSlashes, List.headD_cons, List.tail_cons, List.dropWhile_cons]
      by_cases hc : c = slash
      · rw [if_pos hc, if_pos (beq_iff_eq.2 hc), ih (by omega)]
      · rw [if_neg hc, if_neg (by rwa [beq_iff_eq])]

theorem isPlain_iff {c : UInt8} : isPlain c = true ↔ c ≠ 0 ∧ c ≠ slash := by
  rw [isPlain, Bool.and_eq_true, bne_iff_ne, bne_iff_ne]

theorem copyComponent_eq (h : path.length < fuel) :
    copyComponent fuel component path =
      some (component ++ path.takeWhile isPlain, path.dropWhile isPlain) := by
  induction path generalizing fuel component with
  | nil =>
      obtain ⟨n, rfl⟩ : ∃ n, fuel = n + 1 := ⟨fuel - 1, by omega⟩
      rw [copyComponent, if_neg (fun hgo => hgo.1 rfl), List.takeWhile_nil,
        List.append_nil, List.dropWhile_nil]
  | cons c path ih =>
      obtain ⟨n, rfl⟩ : ∃ n, fuel = n + 1 := ⟨fuel - 1, by omega⟩
      rw [List.length_cons] at h
      rw [copyComponent, List.headD_cons, List.tail_cons, List.takeWhile_cons,
        List.dropWhile_cons]
      by_cases hc : isPlain c = true
      · rw [if_pos (isPlain_iff.1 hc), if_pos hc, if_pos hc, ih (by omega),
          List.append_assoc, List.singleton_append]
      · rw [if_neg (mt isPlain_iff.2 hc), if_neg hc, if_neg hc, List.append_nil]

/-! ## Components, as the loop finds them -/

theorem components_skip (path : Str) :
    components (path.dropWhile (· == slash)) = components path := by
  induction path with
  | nil => rfl
  | cons c path ih =>
      rw [List.dropWhile_cons]
      by_cases hc : c = slash
      · rw [if_pos (beq_iff_eq.2 hc), ih, components,
          if_neg (by rw [hc]; decide), if_pos hc]
      · rw [if_neg (by rwa [beq_iff_eq])]

theorem components_stop (h : path.headD 0 = 0) : components path = [] := by
  cases path with
  | nil => rw [components]
  | cons c path =>
      rw [List.headD_cons] at h
      rw [components, if_pos h]

theorem components_go (hzero : path.headD 0 ≠ 0) (hslash : path.headD 0 ≠ slash) :
    components path =
      path.takeWhile isPlain :: components (path.dropWhile isPlain) := by
  cases path with
  | nil => exact absurd rfl hzero
  | cons c path =>
      have hc : isPlain c = true := isPlain_iff.2 ⟨hzero, hslash⟩
      rw [List.headD_cons] at hzero hslash
      rw [components, if_neg hzero, if_neg hslash, List.takeWhile_cons,
        List.dropWhile_cons, if_pos hc, if_pos hc]

theorem headD_skip (path : Str) :
    (path.dropWhile (· == slash)).headD 0 ≠ slash := by
  induction path with
  | nil => decide
  | cons c path ih =>
      rw [List.dropWhile_cons]
      by_cases hc : c = slash
      · rwa [if_pos (beq_iff_eq.2 hc)]
      · rwa [if_neg (by rwa [beq_iff_eq])]

theorem length_skip_lt (h : path.headD 0 = slash) :
    (path.dropWhile (· == slash)).length < path.length := by
  cases path with
  | nil => exact absurd h (by decide)
  | cons c path =>
      rw [List.headD_cons] at h
      rw [List.dropWhile_cons, if_pos (beq_iff_eq.2 h), List.length_cons]
      exact Nat.lt_succ_of_le (List.dropWhile_sublist _).length_le

/-- A component has a character at least. -/
theorem length_dropWhile_plain (hzero : path.headD 0 ≠ 0)
    (hslash : path.headD 0 ≠ slash) :
    (path.dropWhile isPlain).length < path.length := by
  cases path with
  | nil => exact absurd rfl hzero
  | cons c path =>
      have hc : isPlain c = true := isPlain_iff.2 ⟨hzero, hslash⟩
      rw [List.dropWhile_cons, if_pos hc, List.length_cons]
      exact Nat.lt_succ_of_le (List.dropWhile_sublist _).length_le

namespace Fs

variable {fs fs' start : Fs} {oldCluster : UInt32} {oldPath : Str}

/-! ## A round -/

/-- The round of the loop as `Fs.cd` has it. -/
theorem cdRound_eq (fs : Fs) (oldCluster : UInt32) (oldPath component : Str) :
    fs.cdRound oldCluster oldPath component =
      match fs.cdComponent component with
      | .error message =>
          ((fs.restore oldCluster oldPath).errln message, true)
      | .ok fs => (fs, false) := by
  rw [cdRound, cdComponent]
  by_cases hdotdot : component = lit ".."
  · simp only [if_pos hdotdot]
    split
    · rfl
    · rfl
  · simp only [if_neg hdotdot]
    by_cases hdot : component = lit "."
    · simp only [if_pos hdot]
    · simp only [if_neg hdot]
      cases fs.findFile component with
      | none => rfl
      | some entry =>
          simp only
          split
          · rfl
          · rfl

/-- A round leaves the state restored what it was. -/
theorem restore_cdComponent (h : fs.cdComponent component = .ok fs') :
    fs'.restore oldCluster oldPath = fs.restore oldCluster oldPath := by
  rcases cdComponent_cases h with rfl | ⟨-, rfl⟩ | ⟨-, -, e, -, -, rfl⟩
  · rfl
  · rfl
  · rfl

/-- Whether a loop over components ends in an error, and in what state. -/
def outcome (start : Fs) : Except Str Fs → Fs × Bool
  | .error message => (start.errln message, true)
  | .ok fs => (fs, false)

/-- A round of the outer loop, behind the slashes that it skips. -/
theorem cdWhile_succ (hfuel : path.length < fuel + 1) (hend : path.headD 0 ≠ 0) :
    cdWhile oldCluster oldPath (fuel + 1) fs path =
      cdWhile oldCluster oldPath (fuel + 1) fs
        (path.dropWhile (· == slash)) := by
  have hle := (List.dropWhile_suffix (· == slash) (l := path)).length_le
  have hskip := skipSlashes_eq (Nat.lt_of_le_of_lt hle hfuel)
  have hslash := headD_skip path
  rw [cdWhile, if_neg hend, skipSlashes_eq hfuel]
  generalize path.dropWhile (· == slash) = skipped at hskip hslash ⊢
  rw [cdWhile]
  by_cases hstop : skipped.headD 0 = 0
  · simp only [if_pos hstop]
  · rw [skipSlashes, if_neg hslash]
    simp only [if_neg hstop]

/-- A round at the beginning of a component. -/
theorem cdWhile_component (hfuel : path.length < fuel + 1)
    (hend : path.headD 0 ≠ 0) (hslash : path.headD 0 ≠ slash) :
    cdWhile oldCluster oldPath (fuel + 1) fs path =
      match fs.cdComponent (path.takeWhile isPlain) with
      | .error message => some ⟨(fs.restore oldCluster oldPath).errln message,
          path.dropWhile isPlain, true⟩
      | .ok fs =>
          cdWhile oldCluster oldPath fuel fs (path.dropWhile isPlain) := by
  rw [cdWhile, if_neg hend, skipSlashes, if_neg hslash]
  simp only [if_neg hend, copyComponent_eq hfuel, List.nil_append, cdRound_eq]
  cases fs.cdComponent (path.takeWhile isPlain) with
  | error message => rfl
  | ok fs => rfl

/-- With fuel for every character the loop returns, in the state in which the
loop over the components ends, or in the one from which it began. -/
theorem cdWhile_eq (hstart : fs.restore oldCluster oldPath = start) :
    ∃ rest, rest <:+ path ∧
      (∀ fuel, path.length < fuel → cdWhile oldCluster oldPath fuel fs path =
        some ⟨(start.outcome (fs.cdLoop (components path))).1, rest,
          (start.outcome (fs.cdLoop (components path))).2⟩) ∧
      ((start.outcome (fs.cdLoop (components path))).2 = false →
        rest.headD 0 = 0) := by
  induction hn : path.length using Nat.strongRecOn generalizing fs path with
  | _ n ih =>
      subst hn
      by_cases hend : path.headD 0 = 0
      · refine ⟨path, List.suffix_rfl, fun fuel hfuel => ?_, fun _ => hend⟩
        obtain ⟨k, rfl⟩ : ∃ k, fuel = k + 1 := ⟨fuel - 1, by omega⟩
        rw [cdWhile, if_pos hend, components_stop hend]
        rfl
      by_cases hslash : path.headD 0 = slash
      · -- The slashes are no more than a way to the next component.
        have hsuffix := List.dropWhile_suffix (· == slash) (l := path)
        have hlt := length_skip_lt hslash
        obtain ⟨rest, hrest, hrun, hzero⟩ := ih _ hlt hstart rfl
        rw [components_skip] at hrun hzero
        refine ⟨rest, hrest.trans hsuffix, fun fuel hfuel => ?_, hzero⟩
        obtain ⟨k, rfl⟩ : ∃ k, fuel = k + 1 := ⟨fuel - 1, by omega⟩
        rw [cdWhile_succ hfuel hend, hrun _ (Nat.lt_trans hlt hfuel)]
      · have hlt := length_dropWhile_plain hend hslash
        have hsuffix := List.dropWhile_suffix isPlain (l := path)
        rw [components_go hend hslash, cdLoop]
        cases hround : fs.cdComponent (path.takeWhile isPlain) with
        | error message =>
            refine ⟨_, hsuffix, fun fuel hfuel => ?_, fun h => by cases h⟩
            obtain ⟨k, rfl⟩ : ∃ k, fuel = k + 1 := ⟨fuel - 1, by omega⟩
            rw [cdWhile_component hfuel hend hslash, hround, hstart]
            rfl
        | ok fs₁ =>
            obtain ⟨rest, hrest, hrun, hzero⟩ := ih _ hlt
              ((restore_cdComponent hround).trans hstart) rfl
            refine ⟨rest, hrest.trans hsuffix, fun fuel hfuel => ?_, hzero⟩
            obtain ⟨k, rfl⟩ : ∃ k, fuel = k + 1 := ⟨fuel - 1, by omega⟩
            rw [cdWhile_component hfuel hend hslash, hround]
            exact hrun k (by omega)

/-! ## The call -/

/-- `fat32_cd` gives up at a component. -/
def cdFails (fs : Fs) (path : Str) : Bool :=
  (fs.outcome
    ((fs.cdStart path).1.cdLoop (components (fs.cdStart path).2))).2

theorem cd_eq_outcome (fs : Fs) (path : Str) :
    fs.outcome ((fs.cdStart path).1.cdLoop (components (fs.cdStart path).2)) =
      (fs.cd path, fs.cdFails path) := by
  rw [cdFails]
  rcases cd_cases fs path with ⟨m, hloop, heq⟩ | hloop
  · rw [hloop, heq]
    rfl
  · rw [hloop]
    rfl

/-- `fat32_cd` returns, with fuel for every character, as `Fs.cd` has it. If
it has not given up it has come to the end of the path. -/
theorem cdExec_eq (fs : Fs) (path : Str) : ∃ rest, rest <:+ path ∧
    (∀ fuel, path.length < fuel →
      fs.cdExec fuel path = some ⟨fs.cd path, rest, fs.cdFails path⟩) ∧
    (fs.cdFails path = false → rest.headD 0 = 0) := by
  have hout := cd_eq_outcome fs path
  by_cases habs : path.headD 0 = slash
  · have hstart : fs.cdStart path =
        (fs.restore 2 [slash], path.tail) := if_pos habs
    have hlen : path.tail.length ≤ path.length := (List.tail_suffix path).length_le
    rw [hstart] at hout
    by_cases hroot : path.tail.headD 0 = 0
    · rw [components_stop hroot] at hout
      obtain ⟨hcd, hfails⟩ := Prod.mk.inj hout
      refine ⟨path.tail, List.tail_suffix path, fun fuel _ => ?_, fun _ => hroot⟩
      rw [cdExec, if_pos habs, if_pos hroot, ← hcd, ← hfails]
      rfl
    · obtain ⟨rest, hrest, hrun, hzero⟩ := @cdWhile_eq path.tail
        (fs.restore 2 [slash]) fs fs.currentDirCluster fs.currentPath rfl
      rw [hout] at hrun hzero
      refine ⟨rest, hrest.trans (List.tail_suffix path), fun fuel hfuel => ?_,
        hzero⟩
      rw [cdExec, if_pos habs, if_neg hroot]
      exact hrun fuel (Nat.lt_of_le_of_lt hlen hfuel)
  · have hstart : fs.cdStart path = (fs, path) := if_neg habs
    rw [hstart] at hout
    obtain ⟨rest, hrest, hrun, hzero⟩ :=
      @cdWhile_eq path fs fs fs.currentDirCluster fs.currentPath rfl
    rw [hout] at hrun hzero
    refine ⟨rest, hrest, fun fuel hfuel => ?_, hzero⟩
    rw [cdExec, if_neg habs]
    exact hrun fuel hfuel

theorem cd_of_fails (h : fs.cdFails path = true) :
    ∃ m, fs.cd path = fs.errln m := by
  rcases cd_cases fs path with ⟨m, -, heq⟩ | hloop
  · exact ⟨m, heq⟩
  · rw [cdFails, hloop] at h
    cases h

theorem restore_cdLoop {cs : List Str} (h : fs.cdLoop cs = .ok fs') :
    fs'.restore oldCluster oldPath = fs.restore oldCluster oldPath := by
  induction cs generalizing fs with
  | nil =>
      obtain rfl := Except.ok.inj h
      rfl
  | cons c cs ih =>
      rw [cdLoop] at h
      split at h
      · cases h
      · next fs₁ hround => exact (ih h).trans (restore_cdComponent hround)

/-- Without an error nothing has changed but where the driver is. -/
theorem restore_cd (h : fs.cdFails path = false) :
    (fs.cd path).restore fs.currentDirCluster fs.currentPath = fs := by
  rcases cd_cases fs path with ⟨m, hloop, -⟩ | hloop
  · rw [cdFails, hloop] at h
    cases h
  · rw [restore_cdLoop hloop, cdStart]
    split <;> rfl

theorem cdFails_iff : fs.cdFails path = true ↔ (fs.cd path).cerr ≠ fs.cerr := by
  cases h : fs.cdFails path with
  | true =>
      obtain ⟨m, heq⟩ := cd_of_fails h
      rw [heq]
      exact iff_of_true rfl (cerr_errln_ne fs m)
  | false =>
      have hcerr := congrArg Fs.cerr (restore_cd h)
      exact iff_of_false Bool.false_ne_true fun hne => hne hcerr

theorem cdFails_eq_false (h : (fs.cd path).cerr = fs.cerr) :
    fs.cdFails path = false :=
  Bool.eq_false_iff.2 fun hfails => cdFails_iff.1 hfails h

end Fs

/-- For every disk, every directory and every path `fat32_cd` returns, behind
the whole path or where it has found an error. It reports an error only then,
and after that the current cluster and the current path are what they were. -/
theorem cd_undone (fs : Fs) (path : Str) : ∃ fs' rest failed,
    (∀ fuel, path.length < fuel →
      fs.cdExec fuel path = some ⟨fs', rest, failed⟩) ∧
    (fs'.cerr ≠ fs.cerr ↔ failed = true) ∧
    (failed = true → fs'.currentDirCluster = fs.currentDirCluster ∧
      fs'.currentPath = fs.currentPath) ∧
    rest <:+ path ∧ (failed = false → rest.headD 0 = 0) := by
  obtain ⟨rest, hrest, hrun, hzero⟩ := Fs.cdExec_eq fs path
  refine ⟨_, rest, _, hrun, Fs.cdFails_iff.symm, fun hfails => ?_, hrest, hzero⟩
  obtain ⟨m, heq⟩ := Fs.cd_of_fails hfails
  rw [heq]
  exact ⟨rfl, rfl⟩

end TermOS.Storage
