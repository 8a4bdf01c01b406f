import Mathlib.Logic.Basic

/-!
# Graphs whose edges leave through slots

A directory tree, as a graph: every node has slots, and a slot holds the node
it leads to or nothing. `G x i` is what slot `i` of node `x` holds. The tree
part of the graph is what can be reached from a root `r`, and it is a tree, an
arborescence, when no slot in reach leads to `r` and no two lead to the same
node.

Updates come in two shapes. A cut only empties slots. A graft lets one slot in
reach lead to a node that was out of reach and has nothing in its own slots.
Both keep an arborescence. A walk to a node is not disturbed by an update of
that very node, because in an arborescence it passes through the node only at
its end.
-/

namespace TermOS.Lib

variable {N I L : Type*} {G G' : N → I → Option N} {H H' : N → L → Option N}
variable {r x y z : N} {n m : Nat}

/-- `ReachIn G r n x`: `n` slots lead from `r` to `x`. -/
inductive ReachIn (G : N → I → Option N) (r : N) : Nat → N → Prop
  | root : ReachIn G r 0 r
  | step {n : Nat} {x y : N} {i : I} (tail : ReachIn G r n x)
      (edge : G x i = some y) : ReachIn G r (n + 1) y

def Reach (G : N → I → Option N) (r x : N) : Prop := ∃ n, ReachIn G r n x

namespace Reach

theorem root : Reach G r r := ⟨0, .root⟩

theorem step {i : I} (h : Reach G r x) (edge : G x i = some y) :
    Reach G r y := by
  obtain ⟨n, hn⟩ := h
  exact ⟨n + 1, hn.step edge⟩

/-- What holds of the root and passes along edges holds of all in reach. -/
theorem induct {P : N → Prop} (h : Reach G r x) (root : P r)
    (step : ∀ x i y, Reach G r x → P x → G x i = some y → P y) : P x := by
  obtain ⟨n, hn⟩ := h
  induction hn with
  | root => exact root
  | step tail edge ih => exact step _ _ _ ⟨_, tail⟩ ih edge

/-- The nodes in reach of a graph with fewer edges. -/
theorem cut (hsub : ∀ z j w, G' z j = some w → G z j = some w)
    (h : Reach G' r x) : Reach G r x :=
  h.induct root fun _ _ _ _ ih edge => ih.step (hsub _ _ _ edge)

/-- The nodes in reach of a graph with more edges in reach. -/
theorem grow (hsub : ∀ z j w, Reach G r z → G z j = some w → G' z j = some w)
    (h : Reach G r x) : Reach G' r x :=
  h.induct root fun _ _ _ hz ih edge => ih.step (hsub _ _ _ hz edge)

/-- An update of `x` itself, and of nodes out of reach, leaves `x` in
reach. -/
theorem frame (heq : ∀ z, Reach G r z → z ≠ x → ∀ i, G' z i = G z i)
    (h : Reach G r x) : Reach G' r x := by
  -- On the way to any node, `x` may have been passed already.
  have hany : ∀ {z}, Reach G r z → Reach G' r z ∨ Reach G' r x := by
    intro z hz
    refine hz.induct (P := fun z => Reach G' r z ∨ Reach G' r x) (.inl root)
      fun z i w hreach ih edge => ?_
    rcases ih with hz' | hx
    · by_cases hzx : z = x
      · exact .inr (hzx ▸ hz')
      · exact .inl (hz'.step ((heq z hreach hzx i).trans edge))
    · exact .inr hx
  exact (hany h).elim id id

/-- A graft adds the grafted node at most. -/
theorem graft {i : I} (hleaf : ∀ j, G' y j = none)
    (hsub : ∀ z j w, z ≠ y → G' z j = some w →
      G z j = some w ∨ (z = x ∧ j = i ∧ w = y))
    (h : Reach G' r z) : Reach G r z ∨ z = y := by
  refine h.induct (P := fun z => Reach G r z ∨ z = y) (.inl root)
    fun z j w _ ih edge => ?_
  have hzy : z ≠ y := by
    intro heq
    subst heq
    exact absurd ((hleaf j).symm.trans edge) (by simp)
  rcases hsub z j w hzy edge with hold | ⟨-, -, hnew⟩
  · exact .inl ((ih.resolve_right hzy).step hold)
  · exact .inr hnew

end Reach

/-- What is in reach of `r` is a tree. -/
structure Arborescence (G : N → I → Option N) (r : N) : Prop where
  root_free : ∀ x i, Reach G r x → G x i ≠ some r
  inj : ∀ x i x' i' y, Reach G r x → Reach G r x' →
    G x i = some y → G x' i' = some y → x = x' ∧ i = i'

namespace Arborescence

/-- All ways to a node are equally long. -/
theorem depth_unique (ha : Arborescence G r) (hn : ReachIn G r n x)
    (hm : ReachIn G r m x) : n = m := by
  induction hn generalizing m with
  | root =>
      cases hm with
      | root => rfl
      | step tail edge => exact absurd edge (ha.root_free _ _ ⟨_, tail⟩)
  | step tail edge ih =>
      cases hm with
      | root => exact absurd edge (ha.root_free _ _ ⟨_, tail⟩)
      | step tail' edge' =>
          obtain ⟨rfl, -⟩ := ha.inj _ _ _ _ _ ⟨_, tail⟩ ⟨_, tail'⟩ edge edge'
          rw [ih tail']

theorem cut (ha : Arborescence G r)
    (hsub : ∀ z j w, G' z j = some w → G z j = some w) :
    Arborescence G' r where
  root_free x i hx edge := ha.root_free x i (hx.cut hsub) (hsub _ _ _ edge)
  inj x i x' i' y hx hx' edge edge' :=
    ha.inj x i x' i' y (hx.cut hsub) (hx'.cut hsub) (hsub _ _ _ edge)
      (hsub _ _ _ edge')

theorem graft (ha : Arborescence G r) {i : I}
    (hfresh : ¬ Reach G r y) (hleaf : ∀ j, G' y j = none)
    (hsub : ∀ z j w, z ≠ y → G' z j = some w →
      G z j = some w ∨ (z = x ∧ j = i ∧ w = y)) :
    Arborescence G' r := by
  have hold : ∀ {z j w}, Reach G' r z → G' z j = some w → Reach G r z ∧
      (G z j = some w ∨ (z = x ∧ j = i ∧ w = y)) := by
    intro z j w hz edge
    have hzy : z ≠ y := by
      intro heq
      subst heq
      exact absurd ((hleaf j).symm.trans edge) (by simp)
    exact ⟨(hz.graft hleaf hsub).resolve_right hzy, hsub z j w hzy edge⟩
  constructor
  case root_free =>
    intro z j hz edge
    obtain ⟨hz', hcase⟩ := hold hz edge
    rcases hcase with hedge | ⟨-, -, rfl⟩
    · exact ha.root_free z j hz' hedge
    · exact hfresh .root
  case inj =>
    intro z j z' j' w hz hz' edge edge'
    obtain ⟨hr, hcase⟩ := hold hz edge
    obtain ⟨hr', hcase'⟩ := hold hz' edge'
    rcases hcase with hedge | ⟨rfl, rfl, rfl⟩
    · rcases hcase' with hedge' | ⟨rfl, rfl, rfl⟩
      · exact ha.inj z j z' j' w hr hr' hedge hedge'
      · exact absurd (hr.step hedge) hfresh
    · rcases hcase' with hedge' | ⟨rfl, rfl, -⟩
      · exact absurd (hr'.step hedge') hfresh
      · exact ⟨rfl, rfl⟩

end Arborescence

/-- `Walk H a l b`: the labels `l`, each naming an edge, lead from `a` to
`b`. -/
def Walk (H : N → L → Option N) : N → List L → N → Prop
  | a, [], b => a = b
  | a, s :: l, b => ∃ c, H a s = some c ∧ Walk H c l b

namespace Walk

variable {a b c : N} {l l' : List L} {s : L}

theorem append_iff :
    Walk H a (l ++ l') b ↔ ∃ c, Walk H a l c ∧ Walk H c l' b := by
  induction l generalizing a with
  | nil => simp [Walk]
  | cons s l ih =>
      simp only [List.cons_append, Walk, ih]
      refine ⟨?_, ?_⟩
      · intro hwalk
        obtain ⟨d, hd, c, hl, hl'⟩ := hwalk
        exact ⟨c, ⟨d, hd, hl⟩, hl'⟩
      · intro hwalks
        obtain ⟨c, ⟨d, hd, hl⟩, hl'⟩ := hwalks
        exact ⟨d, hd, c, hl, hl'⟩

theorem snoc_iff :
    Walk H a (l ++ [s]) b ↔ ∃ c, Walk H a l c ∧ H c s = some b := by
  simp [append_iff, Walk]

/-- A walk whose labels name slots stays in reach. -/
theorem reachIn (hsub : ∀ z s w, H z s = some w → ∃ i, G z i = some w)
    (h : Walk H a l b) (ha : ReachIn G r n a) :
    ReachIn G r (n + l.length) b := by
  induction l generalizing a n with
  | nil =>
      obtain rfl : a = b := h
      exact ha
  | cons s l ih =>
      obtain ⟨c, hc, hl⟩ := h
      obtain ⟨i, edge⟩ := hsub _ _ _ hc
      have hlen : n + (s :: l).length = n + 1 + l.length := by
        rw [List.length_cons]
        omega
      rw [hlen]
      exact ih hl (ha.step edge)

/-- In an arborescence an update of the walk's last node, and of nodes out of
reach, leaves the walk as it is. -/
theorem frame (harb : Arborescence G r)
    (hsub : ∀ z s w, H z s = some w → ∃ i, G z i = some w)
    (heq : ∀ z, Reach G r z → z ≠ b → ∀ s, H' z s = H z s)
    (h : Walk H a l b) (ha : ReachIn G r n a) : Walk H' a l b := by
  induction l generalizing a n with
  | nil => exact h
  | cons s l ih =>
      have hb := h.reachIn hsub ha
      obtain ⟨c, hc, hl⟩ := h
      -- `b` is deeper than `a`.
      have hne : a ≠ b := by
        intro heq
        subst heq
        have hlen := harb.depth_unique ha hb
        rw [List.length_cons] at hlen
        omega
      obtain ⟨i, edge⟩ := hsub _ _ _ hc
      exact ⟨c, (heq a ⟨n, ha⟩ hne s).trans hc, ih hl (ha.step edge)⟩

end Walk

end TermOS.Lib
