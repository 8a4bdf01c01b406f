import Mathlib.Data.List.TakeWhile
import TermOS.Ref.Fat32

/-!
# Paths and their components

`current_path` is edited as a string: `strcat` puts a component at its end and
a search for the last slash takes one off. On a path that is the rendering of
a list of proper components these are the two list operations, and cutting the
path up again gives the list back.
-/

namespace TermOS.Storage

/-- A component that `fat32_cd` may see: not empty, with no slash and no
zero. -/
def Plain (component : Str) : Prop :=
  component ≠ [] ∧ ∀ x ∈ component, isPlain x = true

/-- A component of a canonical path. -/
def Proper (component : Str) : Prop :=
  Plain component ∧ component ≠ lit "." ∧ component ≠ lit ".."

theorem Plain.slash_not_mem {c : Str} (h : Plain c) : slash ∉ c := by
  intro hmem
  exact absurd (h.2 slash hmem) (by decide)

theorem Plain.head_ne_slash {c : Str} (h : Plain c) : c.headD 0 ≠ slash := by
  obtain ⟨x, xs, rfl⟩ := List.exists_cons_of_ne_nil h.1
  rintro (rfl : x = slash)
  exact h.slash_not_mem List.mem_cons_self

theorem plain_of_mem_components {path component : Str}
    (h : component ∈ components path) : Plain component := by
  induction path using components.induct with
  | case1 => simp [components] at h
  | case2 path => simp [components] at h
  | case3 path hzero ih =>
      rw [components, if_neg hzero, if_pos rfl] at h
      exact ih h
  | case4 c path hzero hslash ih =>
      rw [components, if_neg hzero, if_neg hslash] at h
      rcases List.mem_cons.1 h with rfl | hrest
      · refine ⟨by simp, fun x hx => ?_⟩
        rcases List.mem_cons.1 hx with rfl | htake
        · simp [isPlain, hzero, hslash]
        · exact List.mem_takeWhile_imp htake
      · exact ih hrest

/-! ## Rendering -/

/-- Every component behind a slash. -/
def slashed (cs : List Str) : Str := cs.flatMap fun c => slash :: c

/-- The path of the given components; the root's is a single slash. -/
def render (cs : List Str) : Str := if cs = [] then [slash] else slashed cs

theorem slashed_append (cs : List Str) (c : Str) :
    slashed (cs ++ [c]) = slashed cs ++ slash :: c := by
  simp [slashed]

theorem slashed_eq_nil {cs : List Str} (h : slashed cs = []) : cs = [] := by
  cases cs with
  | nil => rfl
  | cons c cs => simp [slashed] at h

/-- What follows a component in a rendered path is not part of it. -/
theorem takeWhile_slashed {c : Str} (hc : ∀ x ∈ c, isPlain x = true)
    (cs : List Str) : (c ++ slashed cs).takeWhile isPlain = c ∧
      (c ++ slashed cs).dropWhile isPlain = slashed cs := by
  rw [List.takeWhile_append_of_pos hc, List.dropWhile_append_of_pos hc]
  cases cs with
  | nil => simp [slashed]
  | cons d ds =>
      have hstop : isPlain slash = false := by decide
      simp [slashed, hstop]

theorem components_slashed {cs : List Str} (h : ∀ c ∈ cs, Plain c) :
    components (slashed cs) = cs := by
  induction cs with
  | nil => simp [slashed, components]
  | cons c cs ih =>
      obtain ⟨hne, hplain⟩ := h c List.mem_cons_self
      obtain ⟨x, xs, rfl⟩ := List.exists_cons_of_ne_nil hne
      have hx := hplain x List.mem_cons_self
      have hxs : ∀ y ∈ xs, isPlain y = true :=
        fun y hy => hplain y (List.mem_cons_of_mem _ hy)
      have hx' : x ≠ 0 ∧ x ≠ slash := by
        simpa [isPlain] using hx
      have hslashed : slashed ((x :: xs) :: cs) =
          slash :: x :: (xs ++ slashed cs) := rfl
      obtain ⟨htake, hdrop⟩ := takeWhile_slashed hxs cs
      rw [hslashed, components, if_neg (by decide), if_pos rfl, components,
        if_neg hx'.1, if_neg hx'.2, htake, hdrop,
        ih fun d hd => h d (List.mem_cons_of_mem _ hd)]

theorem components_render {cs : List Str} (h : ∀ c ∈ cs, Plain c) :
    components (render cs) = cs := by
  rw [render]
  split
  · next hnil =>
      rw [hnil, components, if_neg (by decide), if_pos rfl, components]
  · exact components_slashed h

theorem components_plain {c : Str} (h : Plain c) : components c = [c] := by
  obtain ⟨x, xs, rfl⟩ := List.exists_cons_of_ne_nil h.1
  have hx : x ≠ 0 ∧ x ≠ slash := by
    simpa [isPlain] using h.2 x List.mem_cons_self
  have hxs : ∀ y ∈ xs, isPlain y = true :=
    fun y hy => h.2 y (List.mem_cons_of_mem _ hy)
  obtain ⟨htake, hdrop⟩ := takeWhile_slashed hxs []
  have hnil : slashed [] = [] := rfl
  rw [hnil, List.append_nil] at htake hdrop
  rw [components, if_neg hx.1, if_neg hx.2, htake, hdrop, components]

/-- A path that starts with a slash and has no empty, `.` or `..` component
and, unless it is the root's, no slash at its end. -/
def Canonical (path : Str) : Prop :=
  path = render (components path) ∧ ∀ c ∈ components path, Proper c

theorem canonical_render {cs : List Str} (h : ∀ c ∈ cs, Proper c) :
    Canonical (render cs) := by
  rw [Canonical, components_render fun c hc => (h c hc).1]
  exact ⟨rfl, h⟩

/-! ## The edits -/

theorem childPath_render {cs : List Str} (h : ∀ c ∈ cs, Plain c) (c : Str) :
    childPath (render cs) c = render (cs ++ [c]) := by
  have hne : cs ++ [c] ≠ [] := by simp
  rw [render, render, if_neg hne, slashed_append, childPath]
  rcases List.eq_nil_or_concat' cs with rfl | ⟨ds, d, rfl⟩
  · rfl
  · -- The path ends in the last character of its last component.
    obtain ⟨hd, hplain⟩ := h d (by simp)
    have hlast : (slashed (ds ++ [d])).getLastD 0 ≠ slash := by
      obtain ⟨ys, y, rfl⟩ := (List.eq_nil_or_concat' d).resolve_left hd
      have hy := hplain y (by simp)
      have hsplit : slashed (ds ++ [ys ++ [y]]) =
          slashed ds ++ slash :: ys ++ [y] := by
        simp [slashed_append]
      rw [hsplit, List.getLastD_concat]
      intro heq
      subst heq
      exact absurd hy (by decide)
    have hds : ds ++ [d] ≠ [] := by simp
    rw [if_neg hds, if_pos hlast, List.append_assoc, List.singleton_append]

theorem lastSlash_eq {path : Str} {n m : Nat}
    (hslash : path.getD n 0 = slash)
    (hrest : ∀ k, n < k → k < n + 1 + m → path.getD k 0 ≠ slash) :
    ((List.range (n + 1 + m)).reverse.find? fun k => path.getD k 0 == slash) =
      some n := by
  induction m with
  | zero =>
      rw [Nat.add_zero, List.range_succ, List.reverse_append,
        List.reverse_singleton, List.singleton_append,
        List.find?_cons_of_pos (by rw [hslash]; decide)]
  | succ m ih =>
      have hne := hrest (n + 1 + m) (by omega) (by omega)
      rw [← Nat.add_assoc, List.range_succ, List.reverse_append,
        List.reverse_singleton, List.singleton_append,
        List.find?_cons_of_neg (by simpa using hne)]
      exact ih fun k hk hkm => hrest k hk (by omega)

theorem lastSlash_slashed (cs : List Str) {c : Str} (h : slash ∉ c) :
    lastSlash (slashed (cs ++ [c])) = some (slashed cs).length := by
  rw [slashed_append, lastSlash]
  have hlen : (slashed cs ++ slash :: c).length =
      (slashed cs).length + 1 + c.length := by
    simp only [List.length_append, List.length_cons]
    omega
  rw [hlen]
  refine lastSlash_eq ?_ fun k hk hkm => ?_
  · simp [List.getD_eq_getElem?_getD]
  · obtain ⟨j, rfl⟩ : ∃ j, k = (slashed cs).length + (j + 1) :=
      ⟨k - (slashed cs).length - 1, by omega⟩
    have hj : j < c.length := by omega
    simp only [List.getD_eq_getElem?_getD, List.getElem?_append_right
      (Nat.le_add_right _ _), Nat.add_sub_cancel_left, List.getElem?_cons_succ,
      List.getElem?_eq_getElem hj, Option.getD_some]
    exact fun heq => h (heq ▸ List.getElem_mem hj)

theorem parentPath_render (cs : List Str) {c : Str} (h : Plain c) :
    parentPath (render (cs ++ [c])) = render cs := by
  have hne : cs ++ [c] ≠ [] := by simp
  have hlen : (slashed (cs ++ [c])).length > 1 := by
    have hpos := List.length_pos_of_ne_nil h.1
    simp only [slashed_append, List.length_append, List.length_cons]
    omega
  rw [render, if_neg hne, parentPath, if_pos hlen,
    lastSlash_slashed cs h.slash_not_mem, slashed_append]
  cases hk : (slashed cs).length with
  | zero =>
      have hnil := List.eq_nil_of_length_eq_zero hk
      rw [hnil, slashed_eq_nil hnil]
      rfl
  | succ k =>
      have hcs : cs ≠ [] := by
        intro heq
        subst heq
        cases hk
      show (slashed cs ++ slash :: c).take (k + 1) = render cs
      rw [← hk, List.take_left, render, if_neg hcs]

end TermOS.Storage
