import Mathlib.Data.List.Nodup
import Mathlib.Data.List.Perm.Basic

/-!
# Pointer rings

A next-pointer function over any type of cells, with `none` for a null
pointer. `Segment next a l b` says that the pointers lead from `a` through the
cells of `l`, in order, to `b`, and a ring is a segment from a cell back to
itself that meets no cell twice. Two operations matter: a ring may be entered
at any of its cells, and a cell may be spliced in behind any other.
-/

namespace TermOS.Lib

variable {α : Type*}

def Segment (next : α → Option α) : α → List α → α → Prop
  | a, [], b => next a = some b
  | a, x :: l, b => next a = some x ∧ Segment next x l b

namespace Segment

variable {next next' : α → Option α} {a b x : α} {l m : List α}

theorem append_cons : Segment next a (l ++ x :: m) b ↔
    Segment next a l x ∧ Segment next x m b := by
  induction l generalizing a with
  | nil => rfl
  | cons y l ih => rw [List.cons_append, Segment, Segment, ih, and_assoc]

/-- A segment reads the pointers of its start and its inner cells only. -/
theorem congr (h : Segment next a l b) (heq : ∀ y ∈ a :: l, next' y = next y) :
    Segment next' a l b := by
  induction l generalizing a with
  | nil =>
      rw [Segment] at h ⊢
      rw [heq a (by simp), h]
  | cons y l ih =>
      rw [Segment] at h ⊢
      refine ⟨by rw [heq a (by simp), h.1], ih h.2 fun z hz => ?_⟩
      exact heq z (List.mem_cons_of_mem _ hz)

/-- The cells of a segment point to the cell behind them, the last one to the
end. -/
theorem next_mem {y : α} (h : Segment next a l b) (hx : x ∈ a :: l)
    (hy : next x = some y) : y ∈ l ++ [b] := by
  induction l generalizing a with
  | nil =>
      obtain rfl := List.mem_singleton.1 hx
      exact List.mem_singleton.2 (Option.some.inj (hy.symm.trans h))
  | cons c l ih =>
      rcases List.mem_cons.1 hx with rfl | hmem
      · rw [Option.some.inj (hy.symm.trans h.1)]
        exact List.mem_cons_self
      · exact List.mem_cons_of_mem c (ih h.2 hmem)

end Segment

/-- The pointers lead from `a` through all of `l` back to `a`, and the cells
are distinct. -/
structure Ring (next : α → Option α) (a : α) (l : List α) : Prop where
  nodup : (a :: l).Nodup
  closed : Segment next a l a

namespace Ring

variable {next next' : α → Option α} {a b x : α} {l m : List α}

theorem single (h : next a = some a) : Ring next a [] :=
  ⟨List.nodup_singleton a, h⟩

theorem congr (h : Ring next a l) (heq : ∀ y ∈ a :: l, next' y = next y) :
    Ring next' a l := ⟨h.nodup, h.closed.congr heq⟩

/-- A ring entered at a later cell. -/
theorem rotate (h : Ring next a (l ++ b :: m)) : Ring next b (m ++ a :: l) := by
  obtain ⟨hl, hm⟩ := Segment.append_cons.1 h.closed
  refine ⟨?_, Segment.append_cons.2 ⟨hm, hl⟩⟩
  have hperm : (a :: (l ++ b :: m)).Perm (b :: (m ++ a :: l)) :=
    @List.perm_append_comm α (a :: l) (b :: m)
  exact hperm.nodup_iff.1 h.nodup

/-- A ring may be entered at any of its cells. -/
theorem enter (h : Ring next a l) (hb : b ∈ a :: l) :
    ∃ m, Ring next b m ∧ ∀ y, y ∈ b :: m ↔ y ∈ a :: l := by
  rcases List.mem_cons.1 hb with rfl | hmem
  · exact ⟨l, h, fun _ => Iff.rfl⟩
  · obtain ⟨l₁, l₂, rfl⟩ := List.append_of_mem hmem
    refine ⟨l₂ ++ a :: l₁, h.rotate, fun y => ?_⟩
    simp only [List.mem_cons, List.mem_append]
    tauto

/-- A fresh cell spliced in behind `a`: `a` points to it and it points to what
`a` pointed to. -/
theorem insert (h : Ring next a l) (hfresh : x ∉ a :: l)
    (ha : next' a = some x) (hx : next' x = next a)
    (hother : ∀ y ∈ l, next' y = next y) : Ring next' a (x :: l) := by
  have hclosed := h.closed
  refine ⟨?_, ha, ?_⟩
  · have hnodup := h.nodup
    simp only [List.mem_cons, not_or] at hfresh
    simp only [List.nodup_cons, List.mem_cons, not_or] at hnodup ⊢
    exact ⟨⟨fun heq => hfresh.1 heq.symm, hnodup.1⟩, hfresh.2, hnodup.2⟩
  · cases l with
    | nil =>
        rw [Segment] at hclosed ⊢
        rw [hx, hclosed]
    | cons y l =>
        rw [Segment] at hclosed ⊢
        exact ⟨by rw [hx, hclosed.1], hclosed.2.congr hother⟩

/-- Read as an indexed cycle: each cell points to the one after it, the last
one to the first. -/
theorem next_getElem (h : Ring next a l) (i : Nat) (hi : i < (a :: l).length)
    (hi' : (i + 1) % (a :: l).length < (a :: l).length) :
    next (a :: l)[i] = some (a :: l)[(i + 1) % (a :: l).length] := by
  have key : ∀ (m : List α) (c : α), Segment next c m a →
      ∀ (j : Nat) (hj : j < (c :: m).length),
        next (c :: m)[j] = if hlt : j + 1 < (c :: m).length
          then some (c :: m)[j + 1] else some a := by
    intro m
    induction m with
    | nil =>
        intro c hc j hj
        have hj0 : j = 0 := by simpa using hj
        subst hj0
        have hlast : next c = some a := hc
        simpa using hlast
    | cons y m ih =>
        intro c hc j hj
        cases j with
        | zero => simpa using hc.1
        | succ j => simpa using ih y hc.2 j (by simpa using hj)
  rw [key l a h.closed i hi]
  by_cases hlt : i + 1 < (a :: l).length
  · rw [dif_pos hlt]
    simp only [Nat.mod_eq_of_lt hlt]
  · have hend : i + 1 = (a :: l).length := by omega
    rw [dif_neg hlt]
    simp only [hend, Nat.mod_self, List.getElem_cons_zero]

end Ring

end TermOS.Lib
