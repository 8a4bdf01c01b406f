import Mathlib.Data.Nat.ModEq
import Mathlib.Logic.Function.Basic
import TermOS.Lib.Trace

/-!
# A bounded queue with a slow consumer

A queue of at most `cap` items. A producer appends an item or, if the queue is
full, drops it. The one consumer takes an item in three steps, between which
the producer may act: it checks that there is one, it reads the first, and it
releases it. Whatever the interleaving, what has been released is what was
accepted first.

Behind it stand the facts about a ring of `N` cells that holds such a queue
from an index `tail` on.
-/

namespace TermOS.Lib

variable {α : Type*}

/-- What happens to a queue, with its outcome. -/
inductive QueueEvent (α : Type*) where
  | push (c : α) (accepted : Bool)
  | check (empty : Bool)
  | read
  | release (c : α)
  deriving DecidableEq, Repr

/-- Where the consumer is. -/
inductive Consumer (α : Type*) where
  | idle
  | checked
  | read (c : α)
  deriving DecidableEq, Repr

/-- The items that were accepted. -/
def accepted (ks : List (QueueEvent α)) : List α :=
  ks.filterMap fun
    | .push c true => some c
    | _ => none

/-- The items that were released. -/
def released (ks : List (QueueEvent α)) : List α :=
  ks.filterMap fun
    | .release c => some c
    | _ => none

theorem mem_accepted {ks : List (QueueEvent α)} {c : α} :
    c ∈ accepted ks ↔ .push c true ∈ ks := by
  rw [accepted, List.mem_filterMap]
  refine ⟨?_, ?_⟩
  · intro h
    obtain ⟨k, hk, hc⟩ := h
    split at hc
    · rwa [← Option.some.inj hc]
    · cases hc
  · exact fun h => ⟨_, h, rfl⟩

structure Queue (α : Type*) where
  items : List α
  consumer : Consumer α

namespace Queue

variable {cap : Nat} {q q' : Queue α} {ks : List (QueueEvent α)}

def empty : Queue α := ⟨[], .idle⟩

def Step (cap : Nat) (q : Queue α) : QueueEvent α → Queue α → Prop
  | .push c true, q' =>
      q.items.length < cap ∧ q' = { q with items := q.items ++ [c] }
  | .push _ false, q' => q.items.length = cap ∧ q' = q
  | .check true, q' => q.consumer = .idle ∧ q.items = [] ∧ q' = q
  | .check false, q' =>
      q.consumer = .idle ∧ q.items ≠ [] ∧ q' = { q with consumer := .checked }
  | .read, q' => q.consumer = .checked ∧ ∃ c rest, q.items = c :: rest ∧
      q' = { q with consumer := .read c }
  | .release c, q' => q.consumer = .read c ∧ ∃ rest, q.items = c :: rest ∧
      q' = ⟨rest, .idle⟩

/-- A consumer that has checked has something to read, and one that has read
has read the first item. -/
def Consistent (q : Queue α) : Prop :=
  match q.consumer with
  | .idle => True
  | .checked => q.items ≠ []
  | .read c => ∃ rest, q.items = c :: rest

/-- The producer appends, and so takes nothing from under the consumer. -/
theorem Consistent.step {k : QueueEvent α} (h : q.Consistent)
    (hstep : q.Step cap k q') : q'.Consistent := by
  cases k with
  | push c ok =>
      cases ok with
      | true =>
          obtain ⟨-, rfl⟩ := hstep
          simp only [Consistent] at h ⊢
          cases hconsumer : q.consumer with
          | idle => trivial
          | checked => exact List.append_ne_nil_of_right_ne_nil _ (by simp)
          | read d =>
              rw [hconsumer] at h
              obtain ⟨rest, hitems⟩ := h
              exact ⟨rest ++ [c], by rw [hitems, List.cons_append]⟩
      | false =>
          obtain ⟨-, rfl⟩ := hstep
          exact h
  | check empty =>
      cases empty with
      | true =>
          obtain ⟨-, -, rfl⟩ := hstep
          exact h
      | false =>
          obtain ⟨-, hne, rfl⟩ := hstep
          exact hne
  | read =>
      obtain ⟨-, c, rest, hitems, rfl⟩ := hstep
      exact ⟨rest, hitems⟩
  | release c =>
      obtain ⟨-, rest, -, rfl⟩ := hstep
      exact trivial

/-- One step moves one item at most from the queue to what is released, or
from what is accepted to the queue. -/
theorem account_step {k : QueueEvent α} (h : q.Step cap k q') :
    q.items ++ accepted [k] = released [k] ++ q'.items := by
  cases k with
  | push c ok =>
      cases ok with
      | true =>
          obtain ⟨-, rfl⟩ := h
          simp [accepted, released]
      | false =>
          obtain ⟨-, rfl⟩ := h
          simp [accepted, released]
  | check empty =>
      cases empty with
      | true =>
          obtain ⟨-, -, rfl⟩ := h
          simp [accepted, released]
      | false =>
          obtain ⟨-, -, rfl⟩ := h
          simp [accepted, released]
  | read =>
      obtain ⟨-, c, rest, -, rfl⟩ := h
      simp [accepted, released]
  | release c =>
      obtain ⟨-, rest, hitems, rfl⟩ := h
      simp [accepted, released, hitems]

/-- What was in the queue and what was accepted is what was released and what
is in the queue. -/
theorem account (h : Trace (Step cap) q ks q') :
    q.items ++ accepted ks = released ks ++ q'.items := by
  induction h with
  | nil q => simp [accepted, released]
  | @cons q q₁ q' k ks head _ ih =>
      have hstep := account_step head
      have hacc : accepted (k :: ks) = accepted [k] ++ accepted ks :=
        List.filterMap_append (l := [k])
      have hrel : released (k :: ks) = released [k] ++ released ks :=
        List.filterMap_append (l := [k])
      calc q.items ++ accepted (k :: ks)
          = released [k] ++ (q₁.items ++ accepted ks) := by
            rw [hacc, ← List.append_assoc, hstep, List.append_assoc]
        _ = released (k :: ks) ++ q'.items := by
            rw [ih, hrel, List.append_assoc]

end Queue

/-! ## The ring -/

/-- The items in `len` cells of a ring of `N`, from the cell `tail` on. -/
def ringItems (N : Nat) (cell : Nat → α) (tail len : Nat) : List α :=
  (List.range len).map fun i => cell ((tail + i) % N)

variable {N tail len : Nat} {cell : Nat → α} {c : α}

theorem ringItems_congr {cell' : Nat → α} (hN : 0 < N)
    (h : ∀ i < N, cell i = cell' i) :
    ringItems N cell tail len = ringItems N cell' tail len :=
  List.map_congr_left fun _ _ => h _ (Nat.mod_lt _ hN)

/-- Different places in a ring that is not longer than it has cells. -/
theorem ring_index_ne {i j : Nat} (hij : i < j) (hj : j < N) :
    (tail + i) % N ≠ (tail + j) % N := by
  intro h
  have hmod : i ≡ j [MOD N] := Nat.ModEq.add_left_cancel' tail h
  exact absurd (hmod.eq_of_lt_of_lt (Nat.lt_trans hij hj) hj) (Nat.ne_of_lt hij)

theorem ringItems_push (hlen : len < N) :
    ringItems N (Function.update cell ((tail + len) % N) c) tail (len + 1) =
      ringItems N cell tail len ++ [c] := by
  rw [ringItems, List.range_succ, List.map_append, List.map_singleton,
    Function.update_self, ringItems]
  congr 1
  refine List.map_congr_left fun i hi => ?_
  exact Function.update_of_ne (ring_index_ne (List.mem_range.1 hi) hlen) _ _

theorem ringItems_pop : ringItems N cell tail (len + 1) =
    cell (tail % N) :: ringItems N cell ((tail + 1) % N) len := by
  rw [ringItems, List.range_succ_eq_map, List.map_cons, List.map_map, ringItems,
    Nat.add_zero]
  congr 1
  refine List.map_congr_left fun i _ => ?_
  show cell ((tail + (i + 1)) % N) = cell (((tail + 1) % N + i) % N)
  rw [Nat.mod_add_mod, Nat.add_assoc, Nat.add_comm 1 i]

/-- Items fewer than the cells of a ring end where they begin only if there
are none. -/
theorem ring_index_eq_iff (htail : tail < N) (hlen : len < N) :
    (tail + len) % N = tail ↔ len = 0 := by
  refine ⟨?_, ?_⟩
  · intro h
    by_contra hne
    have hself : (tail + 0) % N = tail := Nat.mod_eq_of_lt htail
    exact ring_index_ne (Nat.pos_of_ne_zero hne) hlen (hself.trans h.symm)
  · intro h
    rw [h]
    exact Nat.mod_eq_of_lt htail

end TermOS.Lib
