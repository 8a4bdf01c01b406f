import Mathlib.Logic.Relation
import TermOS.Proofs.CdLoop
import TermOS.Proofs.FatPath

/-!
# `fat32_cd` composes

A slash between two paths is a seam: the loop is done with the first when it
comes to it, and begins anew with the second. So the components of the whole
are those of the parts, and the loop over them runs through the one and then
through the other. Another slash at a seam adds no component, and a dot adds
one at which the loop does nothing.
-/

namespace TermOS.Storage

open TermOS.Lib

/-- `q` is `p` with a slash or a component `.` more, somewhere behind the first
character: next to a slash, or at the end. -/
inductive Inserts : Str → Str → Prop
  | slash (u v : Str) : Inserts (u ++ slash :: v) (u ++ slash :: slash :: v)
  | dot (u v : Str) :
      Inserts (u ++ slash :: v) (u ++ slash :: dot :: slash :: v)
  | dotLast (u : Str) : Inserts (u ++ [slash]) (u ++ [slash, dot])
  | slashLast {u : Str} (h : u ≠ []) : Inserts u (u ++ [slash])

/-- `fat32_cd(path)` returns in the state `fs'`, whatever fuel it has beyond
what it needs. -/
def Fs.CdReturns (fs : Fs) (path : Str) (fs' : Fs) (failed : Bool) : Prop :=
  ∃ rest, ∀ fuel, path.length < fuel →
    fs.cdExec fuel path = some ⟨fs', rest, failed⟩

/-! ## Seams -/

variable {u v w w' : Str}

theorem takeWhile_seam (u v : Str) :
    (u ++ slash :: v).takeWhile isPlain = u.takeWhile isPlain ∧
      (u ++ slash :: v).dropWhile isPlain =
        u.dropWhile isPlain ++ slash :: v := by
  induction u with
  | nil => exact ⟨rfl, rfl⟩
  | cons c u ih =>
      rw [List.cons_append, List.takeWhile_cons, List.takeWhile_cons,
        List.dropWhile_cons, List.dropWhile_cons]
      by_cases hc : isPlain c = true
      · simp only [if_pos hc, ih.1, ih.2, and_self]
      · simp only [if_neg hc, List.cons_append, and_self]

theorem components_slash (v : Str) : components (slash :: v) = components v := by
  rw [components, if_neg (by decide), if_pos rfl]

/-- The components of two paths with a slash between them. -/
theorem components_seam (hu : 0 ∉ u) :
    components (u ++ slash :: v) = components u ++ components v := by
  induction u using components.induct with
  | case1 => rw [List.nil_append, components_slash, components, List.nil_append]
  | case2 u => exact absurd List.mem_cons_self hu
  | case3 u hzero ih =>
      rw [List.cons_append, components_slash, components_slash]
      exact ih fun h => hu (List.mem_cons_of_mem _ h)
  | case4 c u hzero hslash ih =>
      obtain ⟨htake, hdrop⟩ := takeWhile_seam u v
      have hrest := ih fun h => hu (List.mem_cons_of_mem _
        ((List.dropWhile_suffix isPlain).subset h))
      rw [List.cons_append, components, if_neg hzero, if_neg hslash, htake,
        hdrop, hrest, components, if_neg hzero, if_neg hslash, List.cons_append]

/-- Behind a zero nothing is read. -/
theorem components_zero (hu : 0 ∈ u) :
    components (u ++ slash :: v) = components u := by
  induction u using components.induct with
  | case1 => cases hu
  | case2 u => rw [List.cons_append, components, if_pos rfl, components, if_pos rfl]
  | case3 u hzero ih =>
      rw [List.cons_append, components_slash, components_slash]
      exact ih ((List.mem_cons.1 hu).resolve_left fun h => hzero h.symm)
  | case4 c u hzero hslash ih =>
      obtain ⟨htake, hdrop⟩ := takeWhile_seam u v
      have hmem := (List.mem_cons.1 hu).resolve_left fun h => hzero h.symm
      have hrest := ih (by
        rw [← List.takeWhile_append_dropWhile (p := isPlain) (l := u)] at hmem
        exact (List.mem_append.1 hmem).resolve_left fun h =>
          absurd (List.mem_takeWhile_imp h) (by decide))
      rw [List.cons_append, components, if_neg hzero, if_neg hslash, htake,
        hdrop, hrest, components, if_neg hzero, if_neg hslash]

namespace Fs

variable {fs fs₁ fs₂ fs' : Fs} {p q : Str} {cs ds : List Str} {failed : Bool}

theorem cdLoop_append (fs : Fs) (cs ds : List Str) :
    fs.cdLoop (cs ++ ds) =
      match fs.cdLoop cs with
      | .error message => .error message
      | .ok fs => fs.cdLoop ds := by
  induction cs generalizing fs with
  | nil => rfl
  | cons c cs ih =>
      rw [List.cons_append, cdLoop, cdLoop]
      cases fs.cdComponent c with
      | error message => rfl
      | ok fs => exact ih fs

theorem cdLoop_dot (fs : Fs) (cs : List Str) :
    fs.cdLoop (lit "." :: cs) = fs.cdLoop cs := by
  rw [cdLoop, cdComponent, if_neg (by decide), if_pos rfl]

/-- Two paths that the loop walks alike, from wherever it begins. -/
def SameWalk (p q : Str) : Prop :=
  ∀ fs : Fs, fs.cdLoop (components p) = fs.cdLoop (components q)

theorem SameWalk.seam (h : SameWalk v w) (u : Str) :
    SameWalk (u ++ slash :: v) (u ++ slash :: w) := by
  intro fs
  by_cases hu : 0 ∈ u
  · rw [components_zero hu, components_zero hu]
  · rw [components_seam hu, components_seam hu, cdLoop_append, cdLoop_append]
    cases fs.cdLoop (components u) with
    | error message => rfl
    | ok fs => exact h fs

theorem sameWalk_slash (v : Str) : SameWalk v (slash :: v) := by
  intro fs
  rw [components_slash]

theorem components_dot : components [dot] = [lit "."] :=
  components_plain ⟨List.cons_ne_nil _ _, List.forall_mem_singleton.2 rfl⟩

theorem sameWalk_dot (v : Str) : SameWalk v (dot :: slash :: v) := by
  intro fs
  have hdot : 0 ∉ [dot] := by decide
  have hcomponents : components (dot :: slash :: v) =
      components [dot] ++ components v := components_seam hdot
  rw [hcomponents, components_dot, List.singleton_append, cdLoop_dot]

theorem sameWalk_dotLast : SameWalk [] [dot] := by
  intro fs
  rw [components_dot, cdLoop_dot, components]

theorem sameWalk_slashLast (u : Str) : SameWalk u (u ++ [slash]) := by
  intro fs
  by_cases hu : 0 ∈ u
  · rw [components_zero hu]
  · rw [components_seam hu, components, List.append_nil]

/-! ## The call -/

/-- A `cd` is where it starts and the walk from there. -/
theorem cd_congr (hstart : (fs.cdStart p).1 = (fs.cdStart q).1)
    (hwalk : SameWalk (fs.cdStart p).2 (fs.cdStart q).2) :
    fs.cd p = fs.cd q ∧ fs.cdFails p = fs.cdFails q := by
  have hp := cd_eq_outcome fs p
  rw [hstart, hwalk, cd_eq_outcome, Prod.mk.injEq] at hp
  exact ⟨hp.1.symm, hp.2.symm⟩

theorem cdStart_append (hp : p ≠ []) (w : Str) :
    fs.cdStart (p ++ w) = ((fs.cdStart p).1, (fs.cdStart p).2 ++ w) := by
  obtain ⟨c, p, rfl⟩ := List.exists_cons_of_ne_nil hp
  rw [cdStart, cdStart, List.cons_append, List.headD_cons, List.headD_cons]
  split
  · rfl
  · rfl

theorem cd_seam (h : SameWalk v w) (u : Str) :
    fs.cd (u ++ slash :: v) = fs.cd (u ++ slash :: w) ∧
      fs.cdFails (u ++ slash :: v) = fs.cdFails (u ++ slash :: w) := by
  by_cases hu : u = []
  · subst hu
    exact cd_congr rfl h
  · refine cd_congr ?_ ?_
    · rw [cdStart_append hu, cdStart_append hu]
    · rw [cdStart_append hu, cdStart_append hu]
      exact h.seam _

theorem cd_inserts (h : Inserts p q) :
    fs.cd p = fs.cd q ∧ fs.cdFails p = fs.cdFails q := by
  cases h with
  | slash u v => exact cd_seam (sameWalk_slash v) u
  | dot u v => exact cd_seam (sameWalk_dot v) u
  | dotLast u => exact cd_seam sameWalk_dotLast u
  | slashLast hne =>
      refine cd_congr ?_ ?_
      · rw [cdStart_append hne]
      · rw [cdStart_append hne]
        exact sameWalk_slashLast _

theorem cd_inserts_many (h : Relation.ReflTransGen Inserts p q) :
    fs.cd p = fs.cd q ∧ fs.cdFails p = fs.cdFails q := by
  induction h with
  | refl => exact ⟨rfl, rfl⟩
  | tail _ hlast ih =>
      obtain ⟨hcd, hfails⟩ := @cd_inserts fs _ _ hlast
      exact ⟨ih.1.trans hcd, ih.2.trans hfails⟩

/-- Two calls that succeed, and the call with both paths. -/
theorem cd_append (hne : p ≠ []) (hp : 0 ∉ p) (hq : q.headD 0 ≠ slash)
    (hfirst : fs.cdFails p = false) (hsecond : (fs.cd p).cdFails q = false) :
    fs.cd (p ++ slash :: q) = (fs.cd p).cd q ∧
      fs.cdFails (p ++ slash :: q) = false := by
  have hzero : 0 ∉ (fs.cdStart p).2 := by
    rw [cdStart]
    split
    · exact fun h => hp (List.mem_of_mem_tail h)
    · exact hp
  have hstart : (fs.cd p).cdStart q = (fs.cd p, q) := if_neg hq
  have hwhole := cd_eq_outcome fs (p ++ slash :: q)
  rw [cdStart_append hne, components_seam hzero, cdLoop_append] at hwhole
  rcases cd_cases fs p with ⟨m, hloop, -⟩ | hloop
  · rw [cdFails, hloop] at hfirst
    cases hfirst
  rcases cd_cases (fs.cd p) q with ⟨m, hloop', -⟩ | hloop'
  · rw [cdFails, hloop'] at hsecond
    cases hsecond
  rw [hstart] at hloop'
  rw [hloop] at hwhole
  simp only [hloop', outcome, Prod.mk.injEq] at hwhole
  exact ⟨hwhole.1.symm, hwhole.2.symm⟩

theorem cdReturns_iff :
    fs.CdReturns p fs' failed ↔ fs' = fs.cd p ∧ failed = fs.cdFails p := by
  obtain ⟨rest, -, hrun, -⟩ := cdExec_eq fs p
  refine ⟨?_, ?_⟩
  · rintro ⟨rest', hrun'⟩
    have hsame := (hrun _ (Nat.lt_succ_self _)).symm.trans
      (hrun' _ (Nat.lt_succ_self _))
    simp only [Option.some.injEq, CdResult.mk.injEq] at hsame
    exact ⟨hsame.1.symm, hsame.2.2.symm⟩
  · rintro ⟨rfl, rfl⟩
    exact ⟨rest, hrun⟩

end Fs

/-- Two calls of `fat32_cd` that succeed lead to where the one with a slash
between their paths leads, and that succeeds; and slashes and dots more lead
to no other place, and to no other error. -/
theorem cd_compositional (fs : Fs) :
    (∀ p q fs₁ fs₂, p ≠ [] → 0 ∉ p → q.headD 0 ≠ slash →
      fs.CdReturns p fs₁ false → fs₁.CdReturns q fs₂ false →
        fs.CdReturns (p ++ slash :: q) fs₂ false) ∧
    ∀ p p' fs' failed, Relation.ReflTransGen Inserts p p' →
      (fs.CdReturns p' fs' failed ↔ fs.CdReturns p fs' failed) := by
  refine ⟨?_, ?_⟩
  · intro p q fs₁ fs₂ hne hp hq hfirst hsecond
    obtain ⟨rfl, hok⟩ := Fs.cdReturns_iff.1 hfirst
    obtain ⟨rfl, hok'⟩ := Fs.cdReturns_iff.1 hsecond
    obtain ⟨hcd, hfails⟩ := Fs.cd_append hne hp hq hok.symm hok'.symm
    exact Fs.cdReturns_iff.2 ⟨hcd.symm, hfails.symm⟩
  · intro p p' fs' failed hinserts
    obtain ⟨hcd, hfails⟩ := @Fs.cd_inserts_many fs p p' hinserts
    rw [Fs.cdReturns_iff, Fs.cdReturns_iff, hcd, hfails]

/-- Into a directory just made and back, in two calls and in one. -/
theorem cd_compositional_formatted : ∃ fs₂,
    (formatted.mkdir (lit "a") zeroSector).CdReturns (lit "a/..") fs₂ false := by
  obtain ⟨-, -, e, hfind, hdir⟩ := mkdir_formatted
  have hfirst : ((formatted.mkdir (lit "a") zeroSector).cd (lit "a")).cerr =
      (formatted.mkdir (lit "a") zeroSector).cerr := by
    rw [Fs.cd_child proper_a hfind hdir]
  have hsecond : (((formatted.mkdir (lit "a") zeroSector).cd (lit "a")).cd
      (lit "..")).cerr =
        ((formatted.mkdir (lit "a") zeroSector).cd (lit "a")).cerr := by
    rw [Fs.cd_dotdot]
    split <;> rfl
  exact ⟨_, (cd_compositional _).1 (lit "a") (lit "..") _ _ (by decide)
    (by decide) (by decide)
    (Fs.cdReturns_iff.2 ⟨rfl, (Fs.cdFails_eq_false hfirst).symm⟩)
    (Fs.cdReturns_iff.2 ⟨rfl, (Fs.cdFails_eq_false hsecond).symm⟩)⟩

end TermOS.Storage
