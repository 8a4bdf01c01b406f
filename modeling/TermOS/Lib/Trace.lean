import Mathlib.Data.List.Basic

/-!
# Traces of a labelled transition system

Every component of the kernel is driven from outside: a caller picks the next
operation and the component answers. `Trace` is that driving, one labelled
step after another, over any state and label type. An invariant of one step is
an invariant of a trace, a simulation of one step is a simulation of a trace,
and a fact that only some labels can end lasts until one of them occurs. A
condition on every step of a trace is a trace of `Along`, and one condition is
exchanged for another where an invariant relates the two. A fact that some
steps keep and others end lasts along exactly the traces of the former. Labels
that a potential pays for occur no more often than it allows.
-/

namespace TermOS.Lib

variable {σ τ κ : Type*}

/-- `Trace T s ks t`: the steps labelled `ks` lead from `s` to `t`. -/
inductive Trace (T : σ → κ → σ → Prop) : σ → List κ → σ → Prop
  | nil (s : σ) : Trace T s [] s
  | cons {s s' t : σ} {k : κ} {ks : List κ} (head : T s k s')
      (tail : Trace T s' ks t) : Trace T s (k :: ks) t

namespace Trace

variable {T : σ → κ → σ → Prop} {U : τ → κ → τ → Prop}

/-- What one step preserves, a whole trace preserves. -/
theorem invariant {I : σ → Prop} (hstep : ∀ s k s', I s → T s k s' → I s')
    {s t : σ} {ks : List κ} (h : Trace T s ks t) (hs : I s) : I t := by
  induction h with
  | nil s => exact hs
  | cons head _ ih => exact ih (hstep _ _ _ hs head)

/-- A forward simulation of one step is one of the whole trace, labels
included. -/
theorem simulate {R : σ → τ → Prop}
    (hstep : ∀ s a k s', R s a → T s k s' → ∃ a', U a k a' ∧ R s' a')
    {s t : σ} {a : τ} {ks : List κ} (h : Trace T s ks t) (hs : R s a) :
    ∃ b, Trace U a ks b ∧ R t b := by
  induction h generalizing a with
  | nil s => exact ⟨a, .nil a, hs⟩
  | cons head _ ih =>
      obtain ⟨a', hu, hr⟩ := hstep _ _ _ _ hs head
      obtain ⟨b, hb, hrb⟩ := ih hr
      exact ⟨b, .cons hu hb, hrb⟩

/-- A fact that every step keeps unless its label is one of `Q` holds at the
end of a trace in which no such label occurs. -/
theorem until_label {P : σ → Prop} {Q : κ → Prop}
    (hstep : ∀ s k s', P s → T s k s' → P s' ∨ Q k)
    {s t : σ} {ks : List κ} (h : Trace T s ks t) (hs : P s) :
    P t ∨ ∃ k ∈ ks, Q k := by
  induction h with
  | nil s => exact .inl hs
  | @cons _ _ _ k _ head _ ih =>
      rcases hstep _ _ _ hs head with hp | hq
      · rcases ih hp with ht | ⟨k', hk', hq'⟩
        · exact .inl ht
        · exact .inr ⟨k', List.mem_cons_of_mem _ hk', hq'⟩
      · exact .inr ⟨k, List.mem_cons_self, hq⟩

theorem append_iff {s t : σ} {ks ls : List κ} :
    Trace T s (ks ++ ls) t ↔ ∃ u, Trace T s ks u ∧ Trace T u ls t := by
  induction ks generalizing s with
  | nil =>
      refine ⟨?_, ?_⟩
      · exact fun h => ⟨s, .nil s, h⟩
      · intro hparts
        obtain ⟨u, ⟨⟩, h⟩ := hparts
        exact h
  | cons k ks ih =>
      refine ⟨?_, ?_⟩
      · intro htrace
        rcases htrace with _ | ⟨head, tail⟩
        obtain ⟨u, hu, ht⟩ := ih.1 tail
        exact ⟨u, .cons head hu, ht⟩
      · intro hparts
        obtain ⟨u, _ | ⟨head, hu⟩, ht⟩ := hparts
        exact .cons head (ih.2 ⟨u, hu, ht⟩)

/-- Where a label determines the step, labels determine the trace. -/
theorem unique (hdet : ∀ s k s' s'', T s k s' → T s k s'' → s' = s'')
    {s t u : σ} {ks : List κ} (ht : Trace T s ks t) (hu : Trace T s ks u) :
    t = u := by
  induction ht with
  | nil s =>
      cases hu
      rfl
  | cons head _ ih =>
      obtain _ | ⟨head', tail'⟩ := hu
      obtain rfl := hdet _ _ _ _ head head'
      exact ih tail'

/-- The steps of `T` of which `Q` holds as well; a trace of it is a trace of
`T` with `Q` at every step. -/
def Along (T Q : σ → κ → σ → Prop) (s : σ) (k : κ) (s' : σ) : Prop :=
  T s k s' ∧ Q s k s'

/-- A condition on steps that yields another, and with it an invariant, yields
the other along a whole trace. -/
theorem along_mono {I : σ → Prop} {Q R : σ → κ → σ → Prop}
    (hstep : ∀ s k s', I s → T s k s' → Q s k s' → R s k s' ∧ I s')
    {s t : σ} {ks : List κ} (hs : I s) (h : Trace (Along T Q) s ks t) :
    Trace (Along T R) s ks t := by
  induction h with
  | nil s => exact .nil s
  | cons head _ ih =>
      obtain ⟨hr, hi⟩ := hstep _ _ _ hs head.1 head.2
      exact .cons ⟨head.1, hr⟩ (ih hi)

/-- Two conditions on steps that agree wherever an invariant holds select the
same traces, if the steps of one keep the invariant. -/
theorem along_congr {I : σ → Prop} {Q R : σ → κ → σ → Prop}
    (hinv : ∀ s k s', I s → T s k s' → Q s k s' → I s')
    (hiff : ∀ s k s', I s → T s k s' → (Q s k s' ↔ R s k s'))
    {s t : σ} {ks : List κ} (hs : I s) :
    Trace (Along T Q) s ks t ↔ Trace (Along T R) s ks t := by
  refine ⟨?_, ?_⟩
  · exact along_mono (fun s k s' hi hk hq =>
      ⟨(hiff s k s' hi hk).1 hq, hinv s k s' hi hk hq⟩) hs
  · exact along_mono (fun s k s' hi hk hr =>
      have hq := (hiff s k s' hi hk).2 hr
      ⟨hq, hinv s k s' hi hk hq⟩) hs

/-- Where every step keeps `J`, and keeps `I` if and only if `R` holds of it,
the traces along which `I` lasts are those with `R` at every step. -/
theorem along_kept_iff {I J : σ → Prop} {R : σ → κ → σ → Prop}
    (hinv : ∀ s k s', J s → T s k s' → J s')
    (hiff : ∀ s k s', J s → I s → T s k s' → (I s' ↔ R s k s'))
    {s t : σ} {ks : List κ} (hj : J s) (hs : I s) :
    Trace (Along T fun _ _ s' => I s') s ks t ↔ Trace (Along T R) s ks t :=
  along_congr (I := fun s => J s ∧ I s)
    (fun s k s' hji hk hi => ⟨hinv s k s' hji.1 hk, hi⟩)
    (fun s k s' hji hk => hiff s k s' hji.1 hji.2 hk) ⟨hj, hs⟩

theorem of_along {Q : σ → κ → σ → Prop} {s t : σ} {ks : List κ}
    (h : Trace (Along T Q) s ks t) : Trace T s ks t := by
  induction h with
  | nil s => exact .nil s
  | cons head _ ih => exact .cons head.1 ih

/-- Where a label determines the step, a condition holds along a trace if and
only if it holds of the step behind every prefix. -/
theorem along_iff {Q : σ → κ → σ → Prop}
    (hdet : ∀ s k s' s'', T s k s' → T s k s'' → s' = s'')
    {s t : σ} {ks : List κ} (h : Trace T s ks t) :
    Trace (Along T Q) s ks t ↔ ∀ pre k post u v, ks = pre ++ k :: post →
      Trace T s pre u → T u k v → Q u k v := by
  refine ⟨?_, ?_⟩
  · rintro hq pre k post u v rfl hpre hk
    obtain ⟨u', hpre', hrest⟩ := append_iff.1 hq
    obtain rfl := unique hdet hpre hpre'.of_along
    obtain _ | ⟨head, -⟩ := hrest
    obtain rfl := hdet _ _ _ _ hk head.1
    exact head.2
  · intro hq
    induction h with
    | nil s => exact .nil s
    | @cons s s' t k ks head _ ih =>
        refine .cons ⟨head, hq [] k ks s s' rfl (.nil s) head⟩ (ih ?_)
        rintro pre l post u v rfl hpre hl
        exact hq (k :: pre) l post u v rfl (.cons head hpre) hl

/-- A potential that pays for the labels of a kind, and that a step may raise
by what it adds to a size, bounds how many of them a trace has on which
nothing comes to `D`. -/
theorem paid {W : σ → Nat → Prop} {D : σ → Prop} {Q : κ → Prop}
    {g : σ → Nat} {p : κ → Bool}
    (hstep : ∀ s k s' n, W s n → Q k → T s k s' → D s' ∨
      ∃ n', W s' n' ∧ n' + [k].countP p + g s ≤ n + g s')
    {s t : σ} {ks : List κ} {n : Nat} (h : Trace T s ks t)
    (hQ : ∀ k ∈ ks, Q k) (hw : W s n) :
    (∃ pre post u, ks = pre ++ post ∧ Trace T s pre u ∧ Trace T u post t ∧
        D u) ∨
      ∃ n', W t n' ∧ n' + ks.countP p + g s ≤ n + g t := by
  induction h generalizing n with
  | nil s => exact .inr ⟨n, hw, Nat.le_refl _⟩
  | @cons s s' t k ks head tail ih =>
      rcases hstep s k s' n hw (hQ k List.mem_cons_self) head with
        hd | ⟨n', hw', hle⟩
      · exact .inl ⟨[k], ks, s', rfl, .cons head (.nil s'), tail, hd⟩
      · rcases ih (fun l hl => hQ l (List.mem_cons_of_mem k hl)) hw' with
          ⟨pre, post, u, rfl, hpre, hpost, hd⟩ | ⟨n'', hw'', hle'⟩
        · exact .inl ⟨k :: pre, post, u, rfl, .cons head hpre, hpost, hd⟩
        · refine .inr ⟨n'', hw'', ?_⟩
          have hcount : (k :: ks).countP p = [k].countP p + ks.countP p := by
            rw [← List.singleton_append, List.countP_append]
          omega

end Trace

end TermOS.Lib
