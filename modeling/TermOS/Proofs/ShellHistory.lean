import TermOS.Ref.ShellHistory

/-!
# The history keeps what fits its rows

A row has 64 bytes and a line up to 127 characters. A longer line runs on into
the next row, and is whole there until the next line is stored, unless that is
the very text that it ran on with; in the last row it runs out of the array.
When the rows are shifted each copy may run on into the row behind it, which
has been copied before, and the next copy puts the same text there again. So
along a run all lines that are kept are whole if and only if this never
happens: from the tenth line on a line fits its row, and a line that does not
is followed by its own end.
-/

namespace TermOS.Shell

open TermOS.Lib
open TermOS.Storage (Str)

namespace History

variable {m : Nat → UInt8} {s t : Str} {i j fuel : Nat} {h h' : History}
  {ls : List CommandLine} {l : CommandLine}

/-! ## Memory -/

theorem copyString_eq (m : Nat → UInt8) (dest : Nat) (s : Str) :
    copyString m dest s =
      CString.apply m (CString.storesAt dest (s ++ [0])) := by
  have hlen : (s ++ [0]).length = s.length + 1 := List.length_append
  funext a
  rw [copyString]
  by_cases ha : dest ≤ a ∧ a ≤ dest + s.length
  · obtain ⟨k, rfl⟩ : ∃ k, a = dest + k := ⟨a - dest, by omega⟩
    rw [if_pos ha, CString.apply_at m dest (by omega), Nat.add_sub_cancel_left]
    rcases Nat.lt_or_ge k s.length with hk | hk
    · rw [List.getD_append _ _ _ _ hk]
    · have hend : k = s.length := by omega
      rw [hend, List.getD_append_right _ _ _ _ (Nat.le_refl _), Nat.sub_self,
        List.getD_eq_default s _ (Nat.le_refl _)]
      rfl
  · rw [if_neg ha, CString.apply_of_not m (by omega)]

theorem stringAt_eq {a : Nat} (hs : CString.Holds m a s)
    (hfuel : s.length < fuel) : stringAt m fuel a = some s := by
  induction s generalizing a fuel with
  | nil =>
      obtain ⟨n, rfl⟩ : ∃ n, fuel = n + 1 := ⟨fuel - 1, by omega⟩
      have hzero : m a = 0 := hs.2 0 (Nat.zero_le _)
      rw [stringAt, if_pos hzero]
  | cons b s ih =>
      obtain ⟨n, rfl⟩ : ∃ n, fuel = n + 1 := ⟨fuel - 1, by omega⟩
      have hb : m a = b := hs.2 0 (Nat.zero_le _)
      have hne : b ≠ 0 := fun heq => hs.1 (heq ▸ List.mem_cons_self)
      have htail : CString.Holds m (a + 1) s := by
        refine ⟨fun hmem => hs.1 (List.mem_cons_of_mem _ hmem), fun k hk => ?_⟩
        rw [Nat.add_assoc, Nat.add_comm 1, hs.2 (k + 1) (Nat.succ_le_succ hk),
          List.getD_cons_succ]
      rw [stringAt, hb, if_neg hne,
        ih htail (by rw [List.length_cons] at hfuel; omega)]
      rfl

/-- A line stored in row `j` leaves the line in row `i` whole, if it does not
run on into it, and if that has not run on into row `j` or has run on with the
same text. -/
theorem holds_row (ht : CString.Holds m (entrySize * i) t)
    (htlen : t.length ≤ 127) (hslen : s.length ≤ 127) (hne : i ≠ j)
    (hbehind : i = j + 1 → s.length < 64)
    (hfront : i + 1 = j → 64 ≤ t.length → t.drop 64 = s) :
    CString.Holds (CString.apply m (CString.storesAt (entrySize * j) (s ++ [0])))
      (entrySize * i) t := by
  by_cases hrun : i + 1 = j ∧ 64 ≤ t.length
  · obtain ⟨rfl, hlong⟩ := hrun
    have hrow : entrySize * (i + 1) = entrySize * i + 64 := Nat.mul_succ _ _
    rw [hrow, ← hfront rfl hlong, ht.apply_self hlong]
    exact ht
  · refine ht.frame ?_
    rw [List.length_append, List.length_singleton]
    show 64 * i + t.length < 64 * j ∨ 64 * j + (s.length + 1) ≤ 64 * i
    omega

/-! ## The shift -/

/-- Lines for ten rows: what does not fit its row runs on into the next with
the text of that one, and the last one fits. -/
structure Rows (r : Nat → Str) : Prop where
  line : ∀ i < 10, 0 ∉ r i ∧ (r i).length ≤ 127
  runOn : ∀ i < 9, 64 ≤ (r i).length → (r i).drop 64 = r (i + 1)
  last : (r 9).length < 64

/-- The loop that shifts, when the rows in front of `j` have been shifted. -/
theorem shift_rows {r : Nat → Str} (hr : Rows r) (hfuel : 127 < fuel) :
    ∀ k j m, j + k = 9 →
      (∀ i < j, CString.Holds m (entrySize * i) (r (i + 1))) →
      (∀ i, j < i → i < 10 → CString.Holds m (entrySize * i) (r i)) →
      shift fuel (List.range' j k) m =
          some (CString.apply m (shiftStores fuel (List.range' j k) m)) ∧
        (∀ i < 9, CString.Holds
          (CString.apply m (shiftStores fuel (List.range' j k) m))
          (entrySize * i) (r (i + 1))) ∧
        ∀ x ∈ shiftStores fuel (List.range' j k) m, x.1 < 640 := by
  intro k
  induction k with
  | zero =>
      intro j m hj hdone _
      obtain rfl : j = 9 := by omega
      exact ⟨rfl, hdone, fun _ hx => nomatch hx⟩
  | succ k ih =>
      intro j m hj hdone hrest
      obtain ⟨hzero, hlen⟩ := hr.line (j + 1) (by omega)
      have hsource := hrest (j + 1) (by omega) (by omega)
      have hstring : stringAt m fuel (entrySize * (j + 1)) = some (r (j + 1)) :=
        stringAt_eq hsource (by omega)
      have hcopy : CString.strcpyLoop fuel m (entrySize * j)
          (entrySize * (j + 1)) =
            CString.storesAt (entrySize * j) (r (j + 1) ++ [0]) :=
        CString.strcpyLoop_eq hsource
          (by show 64 * j < 64 * (j + 1); omega) (by omega)
      have hshift : shift fuel (List.range' j (k + 1)) m =
          shift fuel (List.range' (j + 1) k)
            (CString.apply m
              (CString.storesAt (entrySize * j) (r (j + 1) ++ [0]))) := by
        rw [List.range'_succ, shift, hstring, ← copyString_eq]
      have hstores : shiftStores fuel (List.range' j (k + 1)) m =
          CString.storesAt (entrySize * j) (r (j + 1) ++ [0]) ++
            shiftStores fuel (List.range' (j + 1) k)
              (CString.apply m
                (CString.storesAt (entrySize * j) (r (j + 1) ++ [0]))) := by
        rw [List.range'_succ, shiftStores, hcopy]
      rw [hshift, hstores, CString.apply_append]
      generalize hm' : CString.apply m
        (CString.storesAt (entrySize * j) (r (j + 1) ++ [0])) = m'
      have hdone' : ∀ i < j + 1,
          CString.Holds m' (entrySize * i) (r (i + 1)) := by
        intro i hi
        rw [← hm']
        rcases Nat.lt_or_eq_of_le (Nat.lt_succ_iff.1 hi) with hlt | rfl
        · have hline := hr.line (i + 1) (by omega)
          refine holds_row (hdone i hlt) hline.2 hlen (by omega)
            (fun heq => by omega) fun heq hlong => ?_
          rw [← heq]
          exact hr.runOn (i + 1) (by omega) hlong
        · exact CString.holds_storesAt _ _ hzero
      have hrest' : ∀ i, j + 1 < i → i < 10 →
          CString.Holds m' (entrySize * i) (r i) := by
        intro i hi hi'
        rw [← hm']
        exact holds_row (hrest i (by omega) hi') (hr.line i hi').2 hlen
          (by omega) (fun heq => by omega) fun heq => by omega
      obtain ⟨hloop, hrows, hinside⟩ := ih (j + 1) m' (by omega) hdone' hrest'
      refine ⟨hloop, hrows, fun x hx => ?_⟩
      rcases List.mem_append.1 hx with hhere | hlater
      · have hrange := (CString.mem_storesAt hhere).2
        rw [List.length_append, List.length_singleton] at hrange
        have hrow : x.1 < 64 * j + ((r (j + 1)).length + 1) := hrange
        omega
      · exact hinside x hlater

end History

/-! ## Lines and what is kept of them -/

/-- The last ten lines, or all. -/
def recent (ls : List CommandLine) : List CommandLine :=
  ls.drop (ls.length - historySize)

/-- The history holds the last of these lines, whole and oldest first. -/
structure History.Records (h : History) (ls : List CommandLine) : Prop where
  count : h.count = min ls.length historySize
  entries : ∀ i l, (recent ls)[i]? = some l →
    CString.Holds h.bytes (entrySize * i) l.val

/-- There is room for a line behind the lines `ls`: from the tenth on it fits
its row, and if the line in front of it does not, it is the end of that. -/
def Room (ls : List CommandLine) (l : CommandLine) : Prop :=
  (9 ≤ ls.length → l.val.length < 64) ∧
    ∀ prev ∈ ls.getLast?, 64 ≤ prev.val.length → prev.val.drop 64 = l.val

/-- There has been room for every line. -/
def AllRoom (lines : List CommandLine) : Prop :=
  ∀ pre l post, lines = pre ++ l :: post → Room pre l

variable {fuel i : Nat} {h h' : History} {ls : List CommandLine}
  {l prev : CommandLine}

theorem allRoom_nil : AllRoom [] := by
  intro pre l post heq
  cases pre <;> cases heq

theorem allRoom_concat : AllRoom (ls ++ [l]) ↔ AllRoom ls ∧ Room ls l := by
  refine ⟨?_, ?_⟩
  · intro hroom
    refine ⟨fun pre x post heq => hroom pre x (post ++ [l]) ?_, hroom ls l [] rfl⟩
    rw [heq, List.append_assoc, List.cons_append]
  · rintro ⟨hall, hlast⟩ pre x post heq
    rcases List.eq_nil_or_concat' post with rfl | ⟨post, y, rfl⟩
    · obtain ⟨rfl, hx⟩ := List.append_inj' heq rfl
      rwa [← List.singleton_inj.1 hx]
    · rw [← List.cons_append, ← List.append_assoc] at heq
      obtain ⟨rfl, -⟩ := List.append_inj' heq rfl
      exact hall pre x post rfl

/-- Where there has been room, the lines from the tenth on fit their rows, and
those that do not fit run on with the next. -/
theorem AllRoom.get (hall : AllRoom ls) (hi : ls[i]? = some prev) :
    (9 ≤ i → prev.val.length < 64) ∧
      ∀ l, ls[i + 1]? = some l → 64 ≤ prev.val.length →
        prev.val.drop 64 = l.val := by
  obtain ⟨hlt, hget⟩ := List.getElem?_eq_some_iff.1 hi
  have hsplit : ls = ls.take i ++ prev :: ls.drop (i + 1) := by
    rw [← hget, List.getElem_cons_drop, List.take_append_drop]
  refine ⟨fun h9 => (hall _ _ _ hsplit).1 ?_, fun l hl hlong => ?_⟩
  · rw [List.length_take]
    omega
  · obtain ⟨hlt', hget'⟩ := List.getElem?_eq_some_iff.1 hl
    have hsplit' : ls = ls.take (i + 1) ++ l :: ls.drop (i + 1 + 1) := by
      rw [← hget', List.getElem_cons_drop, List.take_append_drop]
    refine (hall _ _ _ hsplit').2 prev ?_ hlong
    rw [Option.mem_def, List.getLast?_take, if_neg (Nat.succ_ne_zero i),
      Nat.add_sub_cancel, hi]
    rfl

theorem getElem?_recent :
    (recent ls)[i]? = ls[ls.length - historySize + i]? := List.getElem?_drop

theorem recent_of_le (hle : ls.length ≤ historySize) : recent ls = ls := by
  rw [recent, Nat.sub_eq_zero_of_le hle, List.drop_zero]

theorem History.Records.count_of_le (hrec : h.Records ls)
    (hle : ls.length ≤ historySize) : h.count = ls.length := by
  rw [hrec.count, Nat.min_eq_left hle]

/-! ## One line more -/

/-- The line that is stored last is whole. -/
theorem holds_new (m : Nat → UInt8) (a : Nat) (l : CommandLine) :
    CString.Holds (copyString m a l.val) a l.val := by
  rw [History.copyString_eq]
  exact CString.holds_storesAt m a l.property.2.2

namespace History

/-- While there are free rows the line goes into the first of them. -/
theorem Records.fill (hrec : h.Records ls) (hfree : ls.length < historySize)
    (hroom : Room ls l) :
    Records ⟨copyString h.bytes (entrySize * h.count) l.val, h.count + 1⟩
      (ls ++ [l]) := by
  have hcount := hrec.count_of_le (Nat.le_of_lt hfree)
  have hlen : (ls ++ [l]).length = ls.length + 1 := List.length_append
  refine ⟨?_, fun i x hx => ?_⟩
  · rw [hlen, hcount]
    exact (Nat.min_eq_left hfree).symm
  · rw [recent_of_le (hlen ▸ hfree)] at hx
    rw [hcount]
    rcases Nat.lt_trichotomy i ls.length with hlt | rfl | hgt
    · rw [List.getElem?_append_left hlt] at hx
      have hrow := hrec.entries i x
        (by rw [recent_of_le (Nat.le_of_lt hfree), hx])
      rw [copyString_eq]
      refine holds_row hrow x.property.2.1 l.property.2.1 (by omega)
        (fun heq => by omega) fun heq hlong => hroom.2 x ?_ hlong
      rw [Option.mem_def, List.getLast?_eq_getElem?, ← heq, Nat.add_sub_cancel,
        hx]
    · rw [List.getElem?_concat_length, Option.some.injEq] at hx
      rw [← hx]
      exact holds_new _ _ l
    · rw [List.getElem?_eq_none (by omega)] at hx
      cases hx

/-- The lines in the rows of a full history. -/
def Records.row (ls : List CommandLine) (i : Nat) : Str :=
  ((recent ls)[i]?.map Subtype.val).getD []

theorem Records.row_eq {x : CommandLine} (hx : (recent ls)[i]? = some x) :
    row ls i = x.val := by
  rw [row, hx]
  rfl

theorem Records.exists_row (hfull : historySize ≤ ls.length)
    (hi : i < historySize) : ∃ x, (recent ls)[i]? = some x := by
  have hfull' : 10 ≤ ls.length := hfull
  have hi' : i < 10 := hi
  rw [getElem?_recent]
  exact ⟨_, List.getElem?_eq_getElem (by show ls.length - 10 + i < _; omega)⟩

theorem Records.rows (hall : AllRoom ls) (hfull : historySize ≤ ls.length) :
    Rows (row ls) := by
  have hfull' : 10 ≤ ls.length := hfull
  refine ⟨fun i hi => ?_, fun i hi hlong => ?_, ?_⟩
  · obtain ⟨x, hx⟩ := exists_row hfull hi
    rw [row_eq hx]
    exact ⟨x.property.2.2, x.property.2.1⟩
  · obtain ⟨x, hx⟩ := exists_row hfull (show i < 10 by omega)
    obtain ⟨y, hy⟩ := exists_row hfull (show i + 1 < 10 by omega)
    rw [row_eq hx] at hlong ⊢
    rw [row_eq hy]
    rw [getElem?_recent] at hx hy
    exact (hall.get hx).2 y hy hlong
  · obtain ⟨x, hx⟩ := exists_row hfull (show 9 < 10 by omega)
    rw [row_eq hx]
    rw [getElem?_recent] at hx
    exact (hall.get hx).1 (by show 9 ≤ ls.length - 10 + 9; omega)

/-- When all rows are taken the lines move up, and the new one goes into the
last. -/
theorem Records.shifted (hrec : h.Records ls) (hall : AllRoom ls)
    (hfull : historySize ≤ ls.length) (hfuel : 127 < fuel) :
    ∃ m, shift fuel (List.range (historySize - 1)) h.bytes = some m ∧
      Records ⟨copyString m (entrySize * (historySize - 1)) l.val, h.count⟩
        (ls ++ [l]) ∧
      ∀ x ∈ shiftStores fuel (List.range (historySize - 1)) h.bytes,
        x.1 < 640 := by
  have hfull' : 10 ≤ ls.length := hfull
  have hrows := rows hall hfull
  have hlen : (ls ++ [l]).length = ls.length + 1 := List.length_append
  obtain ⟨hshift, hholds, hinside⟩ := shift_rows hrows hfuel 9 0 h.bytes rfl
    (fun i hi => absurd hi (Nat.not_lt_zero i)) fun i _ hi => by
      obtain ⟨x, hx⟩ := exists_row hfull hi
      rw [row_eq hx]
      exact hrec.entries i x hx
  rw [← List.range_eq_range'] at hshift hholds hinside
  refine ⟨_, hshift, ⟨?_, fun i x hx => ?_⟩, hinside⟩
  · show h.count = _
    rw [hrec.count, Nat.min_eq_right hfull, hlen,
      Nat.min_eq_right (Nat.le_succ_of_le hfull)]
  · rw [getElem?_recent, hlen] at hx
    have hindex : ls.length + 1 - historySize + i =
        ls.length - historySize + (i + 1) := by
      show ls.length + 1 - 10 + i = ls.length - 10 + (i + 1)
      omega
    rw [hindex] at hx
    rcases Nat.lt_trichotomy i 9 with hlt | rfl | hgt
    · rw [List.getElem?_append_left
        (by show ls.length - 10 + (i + 1) < _; omega), ← getElem?_recent] at hx
      have hrow := hholds i hlt
      rw [row_eq hx] at hrow
      rw [copyString_eq]
      refine holds_row hrow x.property.2.1 l.property.2.1 (Nat.ne_of_lt hlt)
        (fun heq => ?_) fun heq hlong => ?_
      · exact absurd heq (by show i ≠ 9 + 1; omega)
      -- The row in front of the new line holds the line before, which fits.
      · obtain rfl : i = 8 := Nat.succ.inj heq
        rw [← row_eq hx] at hlong
        exact absurd hrows.last (Nat.not_lt.2 hlong)
    · have hend : ls.length - historySize + (9 + 1) = ls.length :=
        Nat.sub_add_cancel hfull
      rw [hend, List.getElem?_concat_length, Option.some.injEq] at hx
      rw [← hx]
      exact holds_new _ _ l
    · rw [List.getElem?_eq_none
        (by rw [hlen]; show _ ≤ ls.length - 10 + (i + 1); omega)] at hx
      cases hx

/-- Where there is room for a line, the history has it behind the others. -/
theorem Records.add (hrec : h.Records ls) (hall : AllRoom ls)
    (hroom : Room ls l) (hfuel : 127 < fuel) :
    ∃ h', Step fuel h l h' ∧ h'.Records (ls ++ [l]) ∧
      ∀ x ∈ h.addStores fuel l.val, x.1 < 640 := by
  have hlen : (l.val ++ [0]).length = l.val.length + 1 := List.length_append
  have hmax := l.property.2.1
  rcases Nat.lt_or_ge ls.length historySize with hfree | hfull
  · have hfree' : ls.length < 10 := hfree
    have hcount := hrec.count_of_le (Nat.le_of_lt hfree)
    have hne : h.count ≠ historySize := hcount ▸ Nat.ne_of_lt hfree
    refine ⟨_, ?_, hrec.fill hfree hroom, fun x hx => ?_⟩
    · rw [Step, History.add, if_neg l.property.1, if_neg hne]
    · rw [addStores, if_neg l.property.1, if_neg hne, hcount] at hx
      have hrange := (CString.mem_storesAt hx).2
      rw [hlen] at hrange
      have hrow : x.1 < 64 * ls.length + (l.val.length + 1) := hrange
      by_cases h9 : 9 ≤ ls.length
      · have hshort := hroom.1 h9
        omega
      · omega
  · have hfits := hroom.1 (Nat.le_trans (by decide) hfull)
    have hcount : h.count = historySize := by
      rw [hrec.count, Nat.min_eq_right hfull]
    obtain ⟨m, hshift, hrec', hinside⟩ := hrec.shifted hall hfull hfuel
    refine ⟨_, ?_, hrec', fun x hx => ?_⟩
    · rw [Step, History.add, if_neg l.property.1, if_pos hcount, hshift]
    · rw [addStores, if_neg l.property.1, if_pos hcount] at hx
      rcases List.mem_append.1 hx with hmoved | hnew
      · exact hinside x hmoved
      · have hrange := (CString.mem_storesAt hnew).2
        rw [hlen] at hrange
        have hrow : x.1 < 64 * 9 + (l.val.length + 1) := hrange
        omega

/-- Where the history has a line behind the others, and no byte outside was
written, there has been room. -/
theorem Records.room (hrec : h.Records ls) (hall : AllRoom ls)
    (hstep : Step fuel h l h') (hrec' : h'.Records (ls ++ [l]))
    (hinside : ∀ x ∈ h.addStores fuel l.val, x.1 < 640) : Room ls l := by
  have hlen : (ls ++ [l]).length = ls.length + 1 := List.length_append
  refine ⟨fun h9 => ?_, fun prev hprev hlong => ?_⟩
  -- The terminating zero of a line in the last row.
  · have hend : (64 * 9 + l.val.length, 0) ∈ h.addStores fuel l.val := by
      have hzero := CString.last_mem_storesAt (entrySize * 9) l.val
      rw [addStores, if_neg l.property.1, hrec.count]
      rcases Nat.lt_or_ge ls.length historySize with hfree | hfull
      · obtain hn : ls.length = 9 := Nat.le_antisymm (Nat.lt_succ_iff.1 hfree) h9
        rw [hn]
        exact hzero
      · rw [Nat.min_eq_right hfull, if_pos rfl]
        exact List.mem_append_right _ hzero
    have hlt : 64 * 9 + l.val.length < 640 := hinside _ hend
    omega
  · rw [Option.mem_def, List.getLast?_eq_getElem?] at hprev
    obtain ⟨hlt, -⟩ := List.getElem?_eq_some_iff.1 hprev
    rcases Nat.lt_or_ge ls.length historySize with hfree | hfull
    · have hcount := hrec.count_of_le (Nat.le_of_lt hfree)
      have hbefore : (recent ls)[ls.length - 1]? = some prev := by
        rw [recent_of_le (Nat.le_of_lt hfree), hprev]
      have hafter : (recent (ls ++ [l]))[ls.length - 1]? = some prev := by
        rw [recent_of_le (hlen ▸ hfree), List.getElem?_append_left hlt, hprev]
      have hold := hrec.entries _ _ hbefore
      have hnew := hrec'.entries _ _ hafter
      have hrow : entrySize * ls.length = entrySize * (ls.length - 1) + 64 := by
        show 64 * ls.length = 64 * (ls.length - 1) + 64
        omega
      rw [Step, History.add, if_neg l.property.1,
        if_neg (hcount ▸ Nat.ne_of_lt hfree)] at hstep
      obtain rfl := Option.some.inj hstep
      have hran : CString.Holds (copyString h.bytes (entrySize * h.count) l.val)
          (entrySize * (ls.length - 1)) (prev.val.take 64 ++ l.val) := by
        rw [copyString_eq, hcount, hrow]
        exact hold.overwrite hlong l.property.2.2
      have hsame : prev.val.take 64 ++ prev.val.drop 64 =
          prev.val.take 64 ++ l.val := by
        rw [List.take_append_drop, ← hnew.unique hran]
      exact List.append_cancel_left hsame
    · have hfits := (hall.get hprev).1 (Nat.le_sub_one_of_lt hfull)
      omega

end History

/-! ## Runs -/

theorem History.step_unique (h : History) (l : CommandLine) (h₁ h₂ : History)
    (hs₁ : h.Step fuel l h₁) (hs₂ : h.Step fuel l h₂) : h₁ = h₂ :=
  Option.some.inj (hs₁.symm.trans hs₂)

/-- What an empty history holds. -/
theorem History.records_nil (m : Nat → UInt8) : Records ⟨m, 0⟩ [] :=
  ⟨rfl, fun i _ hl => by cases i <;> cases hl⟩

theorem AllRoom.run (hall : AllRoom ls) (hfuel : 127 < fuel) (m : Nat → UInt8) :
    ∃ h, Trace (History.Step fuel) ⟨m, 0⟩ ls h ∧ h.Records ls := by
  induction ls using List.reverseRecOn with
  | nil => exact ⟨_, .nil _, History.records_nil m⟩
  | append_singleton ls l ih =>
      obtain ⟨hall, hroom⟩ := allRoom_concat.1 hall
      obtain ⟨h, htrace, hrec⟩ := ih hall
      obtain ⟨h', hstep, hrec', -⟩ := hrec.add hall hroom hfuel
      exact ⟨h', Trace.append_iff.2 ⟨h, htrace, .cons hstep (.nil h')⟩, hrec'⟩

/-- After every prefix of the lines the history holds the last of them, and no
byte outside of it has been written, if and only if there is room for each. -/
theorem history_iff (n : Nat) (m : Nat → UInt8) (lines : List CommandLine) :
    (∀ pre post, lines = pre ++ post →
      ∃ h, Trace (History.Step (n + 128)) ⟨m, 0⟩ pre h ∧ h.Records pre ∧
        ∀ l rest, post = l :: rest →
          ∀ x ∈ h.addStores (n + 128) l.val, x.1 < entrySize * historySize) ↔
    AllRoom lines := by
  refine ⟨?_, ?_⟩
  · intro hkept
    induction lines using List.reverseRecOn with
    | nil => exact allRoom_nil
    | append_singleton ls l ih =>
        have hall : AllRoom ls := ih fun pre post heq => by
          obtain ⟨h, htrace, hrec, hinside⟩ :=
            hkept pre (post ++ [l]) (by rw [heq, List.append_assoc])
          refine ⟨h, htrace, hrec, fun x rest hpost => ?_⟩
          exact hinside x (rest ++ [l]) (by rw [hpost, List.cons_append])
        obtain ⟨h, htrace, hrec, hinside⟩ := hkept ls [l] rfl
        obtain ⟨h', htrace', hrec', -⟩ :=
          hkept (ls ++ [l]) [] (List.append_nil _).symm
        obtain ⟨u, hu, hlast⟩ := Trace.append_iff.1 htrace'
        obtain rfl := Trace.unique History.step_unique htrace hu
        obtain _ | ⟨hstep, _ | _⟩ := hlast
        exact allRoom_concat.2 ⟨hall, hrec.room hall hstep hrec'
          (hinside l [] rfl)⟩
  · intro hall pre post heq
    have hpre : AllRoom pre := fun pre' l post' heq' =>
      hall pre' l (post' ++ post) (by rw [heq, heq', List.append_assoc,
        List.cons_append])
    obtain ⟨h, htrace, hrec⟩ := hpre.run (show 127 < n + 128 by omega) m
    refine ⟨h, htrace, hrec, fun l rest hpost => ?_⟩
    obtain ⟨_, _, _, hinside⟩ := hrec.add hpre
      (hall pre l rest (by rw [heq, hpost])) (show 127 < n + 128 by omega)
    exact hinside

/-- As long as a row, so that its zero is in the next. -/
def longLine : CommandLine :=
  ⟨List.replicate 64 97, by decide, by decide, by decide⟩

def shortLine : CommandLine := ⟨[98], by decide, by decide, by decide⟩

/-- The second line ends the first one otherwise; and a line as long as a row
that is the tenth is stored into the byte behind the rows. -/
theorem not_history :
    (∃ h, Trace (History.Step 128) ⟨fun _ => 0, 0⟩ [longLine, shortLine] h ∧
      ¬ h.Records [longLine, shortLine]) ∧
    ∃ h, Trace (History.Step 128) ⟨fun _ => 0, 0⟩
        (List.replicate 9 shortLine) h ∧
      (entrySize * historySize, 0) ∈ h.addStores 128 longLine.val := by
  refine ⟨?_, ?_⟩
  · refine ⟨_, .cons rfl (.cons rfl (.nil _)), fun hrec => ?_⟩
    have hzero := (hrec.entries 0 longLine rfl).2 64 (by decide)
    exact absurd hzero (by decide)
  · refine ⟨_, .cons rfl (.cons rfl (.cons rfl (.cons rfl (.cons rfl (.cons rfl
      (.cons rfl (.cons rfl (.cons rfl (.nil _))))))))), ?_⟩
    exact CString.last_mem_storesAt (entrySize * 9) longLine.val

end TermOS.Shell
