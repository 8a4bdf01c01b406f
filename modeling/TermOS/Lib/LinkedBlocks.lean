import Mathlib.Data.List.Basic

/-!
# Items in linked blocks

A list kept in blocks of several items each, every block with a link to the
next one or to none. The whole list is what the blocks from the first one on
hold, one behind the other; an item may mark its end before the last block is
full.

Whoever looks at the first block alone sees what stands there in front of the
mark and behind it. What that search has to do with a search of the whole list
depends on whether it succeeds in front of the mark.
-/

namespace TermOS.Lib

variable {α β : Type*}

/-- The blocks from one on, up to the one without a link. -/
inductive Linked (next : α → Option α) : α → List α → Prop
  | last {a : α} (h : next a = none) : Linked next a [a]
  | link {a b : α} {as : List α} (h : next a = some b)
      (tail : Linked next b as) : Linked next a (a :: as)

/-- The items begin with those of the first block. -/
theorem Linked.flatMap {next : α → Option α} {a : α} {as : List α}
    (h : Linked next a as) (items : α → List β) :
    ∃ rest, as.flatMap items = items a ++ rest := by
  cases h with
  | last _ => exact ⟨[], by rw [List.flatMap_cons, List.flatMap_nil]⟩
  | link _ _ => exact ⟨_, List.flatMap_cons⟩

section Search

variable {p q : β → Bool} {first : List β} {e : β}

/-- What is found in front of the mark is what is found. -/
theorem find_of_takeWhile_some (h : (first.takeWhile q).find? p = some e)
    (rest : List β) : first.find? p = some e ∧
      ((first ++ rest).takeWhile q).find? p = some e := by
  refine ⟨?_, ?_⟩
  · rw [← @List.takeWhile_append_dropWhile β q first, List.find?_append, h]
    rfl
  · rw [List.takeWhile_append]
    split
    · next hall =>
        rw [List.find?_append, ← @List.takeWhile_append_dropWhile β q first,
          List.find?_append, h]
        rfl
    · exact h

/-- If there is nothing in front of the mark, the first block has nothing at
all, or the whole list has nothing. -/
theorem find_of_takeWhile_none (h : (first.takeWhile q).find? p = none)
    (rest : List β) : first.find? p = none ∨
      ((first ++ rest).takeWhile q).find? p = none := by
  rw [List.takeWhile_append]
  split
  · next hall =>
      have hfirst : first.takeWhile q = first :=
        (List.takeWhile_prefix q).eq_of_length hall
      rw [hfirst] at h
      exact .inl h
  · exact .inr h

/-- A search of the first block finds what a search of the whole list finds if
and only if that stands in front of the mark, or neither finds anything. -/
theorem find_first_iff (first rest : List β) :
    first.find? p = ((first ++ rest).takeWhile q).find? p ↔
      (∃ e ∈ first.takeWhile q, p e = true) ∨
        ((∀ e ∈ first, ¬ p e = true) ∧
          ∀ e ∈ (first ++ rest).takeWhile q, ¬ p e = true) := by
  rw [← List.find?_eq_none, ← List.find?_eq_none]
  cases hfind : (first.takeWhile q).find? p with
  | some e =>
      obtain ⟨hfirst, hwhole⟩ := find_of_takeWhile_some hfind rest
      refine iff_of_true (hfirst.trans hwhole.symm) (.inl ⟨e, ?_, ?_⟩)
      · exact List.mem_of_find?_eq_some hfind
      · exact List.find?_some hfind
  | none =>
      have hnone : ¬ ∃ e ∈ first.takeWhile q, p e = true := by
        rintro ⟨e, hmem, hp⟩
        exact List.find?_eq_none.1 hfind e hmem hp
      rw [or_iff_right hnone]
      refine ⟨?_, ?_⟩
      · intro heq
        rcases find_of_takeWhile_none hfind rest with hfirst | hwhole
        · exact ⟨hfirst, heq.symm.trans hfirst⟩
        · exact ⟨heq.trans hwhole, hwhole⟩
      · intro hboth
        exact hboth.1.trans hboth.2.symm

end Search

end TermOS.Lib
