import Mathlib.Data.List.Basic

/-!
# What holds at each element of a list

A law about a sequence of events often speaks of one event and of everything
before it. `AtEach P xs` says that `P` holds of every element of `xs` together
with the elements in front of it. It is what an induction from the end of the
list needs: one more element adds one condition.
-/

namespace TermOS.Lib

variable {α : Type*} {P : List α → α → Prop} {xs : List α} {x : α}

def AtEach (P : List α → α → Prop) (xs : List α) : Prop :=
  ∀ pre x post, xs = pre ++ x :: post → P pre x

namespace AtEach

theorem nil : AtEach P [] := by
  intro pre x post h
  exact absurd h.symm (List.append_ne_nil_of_right_ne_nil pre
    (List.cons_ne_nil x post))

theorem concat_iff : AtEach P (xs ++ [x]) ↔ AtEach P xs ∧ P xs x := by
  refine ⟨?_, ?_⟩
  · intro h
    exact ⟨fun pre y post hxs => h pre y (post ++ [x]) (by simp [hxs]),
      h xs x [] rfl⟩
  · rintro ⟨hxs, hx⟩ pre y post heq
    rcases List.eq_nil_or_concat post with rfl | ⟨post, z, rfl⟩
    · obtain ⟨rfl, hone⟩ := List.append_inj' heq rfl
      obtain rfl := List.singleton_injective hone
      exact hx
    · rw [List.concat_eq_append, ← List.cons_append, ← List.append_assoc] at heq
      exact hxs pre y post (List.append_inj' heq rfl).1

end AtEach

/-- One more element is one more prefix. -/
theorem forall_prefix_concat_iff {Q : List α → Prop} :
    (∀ pre, pre <+: xs ++ [x] → Q pre) ↔
      (∀ pre, pre <+: xs → Q pre) ∧ Q (xs ++ [x]) := by
  refine ⟨?_, ?_⟩
  · intro h
    exact ⟨fun pre hpre => h pre (hpre.trans (List.prefix_append xs [x])),
      h _ (List.prefix_refl _)⟩
  · rintro ⟨hxs, hlast⟩ pre hpre
    rcases List.prefix_concat_iff.1 hpre with rfl | hpre
    · exact hlast
    · exact hxs pre hpre

end TermOS.Lib
