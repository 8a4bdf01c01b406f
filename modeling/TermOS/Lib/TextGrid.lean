import Mathlib.Data.List.GetD
import Mathlib.Logic.Function.Basic

/-!
# Text in rows, and the rows on a screen

The layout of a text in rows of `w` cells: a newline ends a row, and so does
the item that fills it. A screen of `h` rows is a window on the last `h` rows
of a layout, with blanks where there is no text. What one more item does to
the window is one cell, or one cell and a scroll.

The loops at the end are those of a screen that is a block of cells: filling a
range, copying a range down in place, front first, and copying from elsewhere.
-/

namespace TermOS.Lib

variable {α : Type*}

/-! ## Layout -/

section Layout

variable [DecidableEq α] (w : Nat) (newline : α)

/-- The rows of a text, the first of which already holds `row`. -/
def layoutFrom (row : List α) : List α → List (List α)
  | [] => [row]
  | c :: text =>
      if c = newline then row :: layoutFrom [] text
      else if row.length + 1 = w then (row ++ [c]) :: layoutFrom [] text
      else layoutFrom (row ++ [c]) text

def layout (text : List α) : List (List α) := layoutFrom w newline [] text

variable {w newline}

/-- The last row is the one that more text goes on in, and it is not full. -/
theorem exists_last (hw : 0 < w) (text : List α) {row : List α}
    (hrow : row.length < w) : ∃ before last, last.length < w ∧
      layoutFrom w newline row text = before ++ [last] ∧
      ∀ more, layoutFrom w newline row (text ++ more) =
        before ++ layoutFrom w newline last more := by
  induction text generalizing row with
  | nil => exact ⟨[], row, hrow, rfl, fun _ => rfl⟩
  | cons c text ih =>
      by_cases hc : c = newline
      · obtain ⟨before, last, hlast, hrows, hmore⟩ := @ih [] hw
        refine ⟨row :: before, last, hlast, ?_, fun more => ?_⟩
        · rw [layoutFrom, if_pos hc, hrows, List.cons_append]
        · rw [List.cons_append, layoutFrom, if_pos hc, hmore, List.cons_append]
      · by_cases hfull : row.length + 1 = w
        · obtain ⟨before, last, hlast, hrows, hmore⟩ := @ih [] hw
          refine ⟨(row ++ [c]) :: before, last, hlast, ?_, fun more => ?_⟩
          · rw [layoutFrom, if_neg hc, if_pos hfull, hrows, List.cons_append]
          · rw [List.cons_append, layoutFrom, if_neg hc, if_pos hfull, hmore,
              List.cons_append]
        · have hlen : (row ++ [c]).length < w := by
            rw [List.length_append, List.length_singleton]
            omega
          obtain ⟨before, last, hlast, hrows, hmore⟩ := ih hlen
          refine ⟨before, last, hlast, ?_, fun more => ?_⟩
          · rw [layoutFrom, if_neg hc, if_neg hfull, hrows]
          · rw [List.cons_append, layoutFrom, if_neg hc, if_neg hfull, hmore]

theorem exists_layout (hw : 0 < w) (text : List α) :
    ∃ before last, last.length < w ∧
      layout w newline text = before ++ [last] ∧
      ∀ more, layout w newline (text ++ more) =
        before ++ layoutFrom w newline last more := exists_last hw text hw

/-- More text goes on in the last row. -/
theorem layout_append (hw : 0 < w) {text : List α} {before : List (List α)}
    {last : List α} (h : layout w newline text = before ++ [last])
    (more : List α) : layout w newline (text ++ more) =
      before ++ layoutFrom w newline last more := by
  obtain ⟨before', last', -, hrows, hmore⟩ := exists_layout hw text
  obtain ⟨rfl, hlast⟩ := List.append_inj' (hrows.symm.trans h) rfl
  obtain rfl := List.singleton_inj.1 hlast
  exact hmore more

end Layout

/-! ## Windows -/

section Window

variable {h i j : Nat} {blank c : α} {before : List (List α)} {last : List α}

/-- The cell `(i, j)` of a screen of `h` rows that shows the last of the given
rows. -/
def window (h : Nat) (blank : α) (rows : List (List α)) (i j : Nat) : α :=
  (rows.getD (rows.length - h + i) []).getD j blank

/-- One more item in the last row. -/
theorem getD_write (k : Nat) :
    ((before ++ [last ++ [c]]).getD k []).getD j blank =
      if k = before.length ∧ j = last.length then c
      else ((before ++ [last]).getD k []).getD j blank := by
  rcases Nat.lt_trichotomy k before.length with hlt | heq | hgt
  · rw [List.getD_append _ _ _ _ hlt, List.getD_append _ _ _ _ hlt,
      if_neg fun hboth => by omega]
  · rw [List.getD_append_right _ _ _ _ (by omega),
      List.getD_append_right _ _ _ _ (by omega), heq, Nat.sub_self,
      List.getD_cons_zero, List.getD_cons_zero]
    rcases Nat.lt_trichotomy j last.length with hlt | hj | hgt
    · rw [List.getD_append _ _ _ _ hlt, if_neg fun hboth => by omega]
    · rw [List.getD_append_right _ _ _ _ (by omega), hj, Nat.sub_self,
        List.getD_cons_zero, if_pos ⟨rfl, rfl⟩]
    · rw [if_neg fun hboth => by omega,
        List.getD_eq_default _ _ (by simp; omega),
        List.getD_eq_default _ _ (by omega)]
  · rw [if_neg fun hboth => by omega,
      List.getD_eq_default _ [] (by simp; omega),
      List.getD_eq_default (before ++ [last]) [] (by simp; omega)]

/-- A row without items is not seen. -/
theorem getD_newRow {rows : List (List α)} (k : Nat) :
    ((rows ++ [[]]).getD k []).getD j blank =
      (rows.getD k []).getD j blank := by
  rcases Nat.lt_trichotomy k rows.length with hlt | heq | hgt
  · rw [List.getD_append _ _ _ _ hlt]
  · rw [List.getD_append_right _ _ _ _ (by omega), heq, Nat.sub_self,
      List.getD_cons_zero, List.getD_eq_default rows [] (Nat.le_refl _)]
  · rw [List.getD_eq_default (rows ++ [[]]) [] (by
        rw [List.length_append, List.length_singleton]
        omega),
      List.getD_eq_default rows [] (by omega)]

/-- The same in a window. -/
theorem window_write (hi : i < h) :
    window h blank (before ++ [last ++ [c]]) i j =
      if i = min before.length (h - 1) ∧ j = last.length then c
      else window h blank (before ++ [last]) i j := by
  simp only [window, List.length_append, List.length_singleton]
  rw [getD_write]
  refine if_congr (and_congr_left' ?_) rfl rfl
  omega

/-- A new row at the end. -/
theorem window_newRow (hi : i < h) :
    window h blank (before ++ [last] ++ [[]]) i j =
      if before.length + 1 < h then window h blank (before ++ [last]) i j
      else if i + 1 < h then window h blank (before ++ [last]) (i + 1) j
      else blank := by
  simp only [window, List.length_append, List.length_singleton]
  rw [getD_newRow]
  split
  · next hroom => rw [show before.length + 1 + 1 - h + i =
      before.length + 1 - h + i by omega]
  · split
    · rw [show before.length + 1 + 1 - h + i =
        before.length + 1 - h + (i + 1) by omega]
    · rw [List.getD_eq_default _ [] (by
        rw [List.length_append, List.length_singleton]
        omega)]
      rfl

end Window

/-! ## Loops over cells -/

section Loops

variable {v : Nat → α}

/-- A loop that stores the same in every cell of a range. -/
def fill (v : Nat → α) (start n : Nat) (c : α) : Nat → α :=
  (List.range' start n).foldl (fun v i => Function.update v i c) v

/-- A loop that copies each cell of a range from the one `d` further on. -/
def copyBack (v : Nat → α) (n d : Nat) : Nat → α :=
  (List.range n).foldl (fun v i => Function.update v i (v (i + d))) v

/-- A loop that stores `f i` in each cell `i` from the first on. -/
def tabulate (v : Nat → α) (n : Nat) (f : Nat → α) : Nat → α :=
  (List.range n).foldl (fun v i => Function.update v i (f i)) v

theorem tabulate_apply (v : Nat → α) (n : Nat) (f : Nat → α) (k : Nat) :
    tabulate v n f k = if k < n then f k else v k := by
  induction n with
  | zero => rw [if_neg (Nat.not_lt_zero k), tabulate, List.range_zero,
      List.foldl_nil]
  | succ n ih =>
      have hsucc : tabulate v (n + 1) f =
          Function.update (tabulate v n f) n (f n) := by
        rw [tabulate, List.range_succ, List.foldl_append, List.foldl_cons,
          List.foldl_nil, tabulate]
      rw [hsucc]
      by_cases hk : k = n
      · rw [hk, Function.update_self, if_pos (Nat.lt_succ_self n)]
      · rw [Function.update_of_ne hk, ih]
        by_cases hlt : k < n
        · rw [if_pos hlt, if_pos (by omega)]
        · rw [if_neg hlt, if_neg (by omega)]

theorem fill_apply (v : Nat → α) (start n : Nat) (c : α) (k : Nat) :
    fill v start n c k = if start ≤ k ∧ k < start + n then c else v k := by
  induction n generalizing v start with
  | zero => rw [if_neg (by omega), fill, List.range'_zero, List.foldl_nil]
  | succ n ih =>
      have hfill : fill v start (n + 1) c =
          fill (Function.update v start c) (start + 1) n c := by
        rw [fill, List.range'_succ, List.foldl_cons, fill]
      rw [hfill, ih]
      by_cases hk : k = start
      · subst hk
        rw [if_neg (by omega), if_pos (by omega), Function.update_self]
      · rw [Function.update_of_ne hk]
        by_cases hin : start + 1 ≤ k ∧ k < start + 1 + n
        · rw [if_pos hin, if_pos (by omega)]
        · rw [if_neg hin, if_neg (by omega)]

/-- No cell is read after it has been written: what is copied is what was
there before. -/
theorem copyBack_apply (v : Nat → α) (n : Nat) {d : Nat} (hd : 0 < d)
    (k : Nat) : copyBack v n d k = if k < n then v (k + d) else v k := by
  induction n generalizing k with
  | zero => rw [if_neg (Nat.not_lt_zero k), copyBack, List.range_zero,
      List.foldl_nil]
  | succ n ih =>
      have hcopy : copyBack v (n + 1) d =
          Function.update (copyBack v n d) n (copyBack v n d (n + d)) := by
        rw [copyBack, List.range_succ, List.foldl_append, List.foldl_cons,
          List.foldl_nil, copyBack]
      rw [hcopy]
      by_cases hk : k = n
      · subst hk
        rw [Function.update_self, ih, if_neg (by omega), if_pos (by omega)]
      · rw [Function.update_of_ne hk, ih]
        by_cases hlt : k < n
        · rw [if_pos hlt, if_pos (by omega)]
        · rw [if_neg hlt, if_neg (by omega)]

end Loops

end TermOS.Lib
