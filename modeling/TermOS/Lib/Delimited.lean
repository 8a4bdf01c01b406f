import Mathlib.Data.List.Basic

/-!
# Fields behind delimiters

A text that is a field, a delimiter and a rest can be cut in one way only, if
the delimiter is not a character of the field. So a record whose fields are
followed by delimiters that they do not contain is determined by its text, and
so is a list of lines.
-/

namespace TermOS.Lib

variable {α : Type*} {d : α} {x x' y y' : List α}

theorem field_inj (hx : d ∉ x) (hx' : d ∉ x')
    (h : x ++ d :: y = x' ++ d :: y') : x = x' ∧ y = y' := by
  induction x generalizing x' with
  | nil =>
      cases x' with
      | nil => exact ⟨rfl, (List.cons.inj h).2⟩
      | cons a x' =>
          obtain rfl := (List.cons.inj h).1
          exact absurd List.mem_cons_self hx'
  | cons a x ih =>
      cases x' with
      | nil =>
          obtain rfl := (List.cons.inj h).1
          exact absurd List.mem_cons_self hx
      | cons b x' =>
          obtain ⟨rfl, hrest⟩ := List.cons.inj h
          obtain ⟨rfl, rfl⟩ := ih (fun hd => hx (List.mem_cons_of_mem a hd))
            (fun hd => hx' (List.mem_cons_of_mem a hd)) hrest
          exact ⟨rfl, rfl⟩

theorem lines_inj {ls ls' : List (List α)} (hls : ∀ l ∈ ls, d ∉ l)
    (hls' : ∀ l ∈ ls', d ∉ l)
    (h : ls.flatMap (· ++ [d]) = ls'.flatMap (· ++ [d])) : ls = ls' := by
  induction ls generalizing ls' with
  | nil =>
      cases ls' with
      | nil => rfl
      | cons l ls' =>
          rw [List.flatMap_nil, List.flatMap_cons, List.append_assoc] at h
          exact absurd h.symm (List.append_ne_nil_of_right_ne_nil _
            (List.cons_ne_nil _ _))
  | cons l ls ih =>
      cases ls' with
      | nil =>
          rw [List.flatMap_nil, List.flatMap_cons, List.append_assoc] at h
          exact absurd h (List.append_ne_nil_of_right_ne_nil _
            (List.cons_ne_nil _ _))
      | cons l' ls' =>
          rw [List.flatMap_cons, List.flatMap_cons, List.append_assoc,
            List.append_assoc] at h
          obtain ⟨rfl, hrest⟩ := field_inj (hls l List.mem_cons_self)
            (hls' l' List.mem_cons_self) h
          rw [ih (fun k hk => hls k (List.mem_cons_of_mem l hk))
            (fun k hk => hls' k (List.mem_cons_of_mem l hk)) hrest]

end TermOS.Lib
