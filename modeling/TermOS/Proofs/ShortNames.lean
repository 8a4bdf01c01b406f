import Mathlib.Data.List.TakeWhile
import TermOS.Proofs.Lookup

/-!
# 8.3 names

What a stored name of eleven characters stands for: a stem of at most eight
and an extension of at most three, in capitals, each filled up with blanks.
`fat_name_match` compares eight characters and reads the string up to its
first dot, so it never sees an extension, nor what a string has behind its
eighth character.
-/

namespace TermOS.Storage

/-! ## The names a string can stand for -/

/-- A character of an 8.3 name: a capital, a digit, one of the signs that are
allowed, or one above 127. -/
def legal (c : UInt8) : Bool :=
  (0x41 ≤ c && c ≤ 0x5A) || (0x30 ≤ c && c ≤ 0x39) || 0x80 ≤ c ||
    (lit "$%'-_@~`!()\x7b\x7d^#&").contains c

/-- A string split at its last dot, stem and extension. -/
def splitName (input : Str) : Str × Str :=
  let s := input.takeWhile (· ≠ 0)
  if dot ∈ s then
    ((s.reverse.dropWhile (· ≠ dot)).tail.reverse,
      (s.reverse.takeWhile (· ≠ dot)).reverse)
  else (s, [])

/-- Capitals, filled up with blanks to `n` characters. -/
def blankPadded (n : Nat) (s : Str) : List UInt8 :=
  s.map upper ++ List.replicate (n - s.length) space

/-- The string is an 8.3 name. -/
structure ValidName (input : Str) : Prop where
  stem : (splitName input).1 ≠ [] ∧ (splitName input).1.length ≤ 8
  extension : (splitName input).2.length ≤ 3
  legal : ∀ c ∈ (splitName input).1 ++ (splitName input).2,
    legal (upper c) = true

/-- The string is an 8.3 name, and `name` is what is stored for it. -/
def IsNameOf (input : Str) (name : Vector UInt8 11) : Prop :=
  ValidName input ∧ name.toList =
    blankPadded 8 (splitName input).1 ++ blankPadded 3 (splitName input).2

/-! ## What a match makes of such a string -/

variable {input s : Str} {name : Vector UInt8 11} {n : Nat}

/-- The two parts, and the dot between them. -/
theorem splitName_cases (input : Str) :
    (splitName input = (input.takeWhile (· ≠ 0), []) ∨
      input.takeWhile (· ≠ 0) =
        (splitName input).1 ++ dot :: (splitName input).2) := by
  rw [splitName]
  generalize input.takeWhile (· ≠ 0) = s
  by_cases hdot : dot ∈ s
  · simp only [if_pos hdot]
    have hwhole := List.takeWhile_append_dropWhile (p := (· ≠ dot))
      (l := s.reverse)
    right
    cases hrest : s.reverse.dropWhile (· ≠ dot) with
    | nil =>
        rw [hrest, List.append_nil] at hwhole
        have hmem : dot ∈ s.reverse.takeWhile (· ≠ dot) := by
          rw [hwhole]
          exact List.mem_reverse.2 hdot
        have hne := List.mem_takeWhile_imp hmem
        exact absurd rfl (of_decide_eq_true hne)
    | cons c rest =>
        have hc : c = dot := by
          have hhead := List.head?_dropWhile_not (p := (· ≠ dot))
            (l := s.reverse)
          rw [hrest] at hhead
          simpa using hhead
        subst hc
        rw [hrest] at hwhole
        have hback := congrArg List.reverse hwhole
        rw [List.reverse_append, List.reverse_cons, List.append_assoc,
          List.reverse_reverse] at hback
        exact hback.symm
  · rw [if_neg hdot]
    exact .inl rfl

/-- Behind a zero nothing is read. -/
theorem padded_takeWhile (n : Nat) (input : Str) :
    padded stopsMatch n (input.takeWhile (· ≠ 0)) = padded stopsMatch n input := by
  induction n generalizing input with
  | zero => rfl
  | succ n ih =>
      cases input with
      | nil => rfl
      | cons c cs =>
          rw [List.takeWhile_cons]
          by_cases hc : c = 0
          · subst hc
            rfl
          · rw [if_pos (by simpa using hc), padded, padded, ih]

/-- A string that does not stop within `n` characters. -/
theorem padded_stem {rest : Str} (hs : ∀ c ∈ s, stopsMatch c = false)
    (hlen : s.length ≤ n) (hrest : rest = [] ∨ ∃ t, rest = dot :: t) :
    padded stopsMatch n (s ++ rest) = blankPadded n s := by
  induction s generalizing n with
  | nil =>
      rw [List.nil_append, blankPadded, List.map_nil, List.nil_append,
        List.length_nil, Nat.sub_zero]
      rcases hrest with rfl | ⟨t, rfl⟩
      · exact padded_nil _ _
      · cases n with
        | zero => rfl
        | succ n => rfl
  | cons c s ih =>
      rw [List.length_cons] at hlen
      obtain ⟨k, rfl⟩ : ∃ k, n = k + 1 := ⟨n - 1, by omega⟩
      have hc := hs c List.mem_cons_self
      rw [List.cons_append, padded, if_neg (by rw [hc]; exact Bool.false_ne_true),
        ih (fun d hd => hs d (List.mem_cons_of_mem c hd)) (by omega),
        blankPadded, blankPadded, List.length_cons, Nat.add_sub_add_right,
        List.map_cons, List.cons_append]

/-- No character of an 8.3 name stops a match. -/
theorem stopsMatch_of_legal {c : UInt8} (h : legal (upper c) = true) :
    stopsMatch c = false := by
  rw [stopsMatch]
  simp only [Bool.or_eq_false_iff, beq_eq_false_iff_ne]
  refine ⟨⟨⟨?_, ?_⟩, ?_⟩, ?_⟩ <;> rintro rfl <;> exact absurd h (by decide)

theorem length_blankPadded (h : s.length ≤ n) :
    (blankPadded n s).length = n := by
  rw [blankPadded, List.length_append, List.length_map, List.length_replicate]
  omega

theorem ValidName.padded (h : ValidName input) :
    padded stopsMatch 8 input = blankPadded 8 (splitName input).1 := by
  have hstops : ∀ c ∈ (splitName input).1, stopsMatch c = false :=
    fun c hc => stopsMatch_of_legal (h.legal c (List.mem_append_left _ hc))
  rw [← padded_takeWhile]
  rcases splitName_cases input with hsplit | hsplit
  · have hstem := padded_stem hstops h.stem.2 (.inl rfl)
    rw [List.append_nil] at hstem
    rw [← hstem, hsplit]
  · rw [hsplit]
    exact padded_stem hstops h.stem.2 (.inr ⟨_, rfl⟩)

/-- A name is that of a valid string if and only if a match accepts it and it
has the string's extension. -/
theorem isNameOf_iff (h : ValidName input) : IsNameOf input name ↔
    fatNameMatch input name = true ∧
      name.toList.drop 8 = blankPadded 3 (splitName input).2 := by
  have hlen := length_blankPadded h.stem.2
  rw [IsNameOf, and_iff_right h, fatNameMatch_iff, h.padded]
  refine ⟨?_, ?_⟩
  · intro heq
    rw [heq]
    exact ⟨List.take_left' hlen, List.drop_left' hlen⟩
  · rintro ⟨htake, hdrop⟩
    rw [← htake, ← hdrop, List.take_append_drop]

/-! ## Where the two agree -/

/-- If the first eight characters of the name are those that the string is
read as, the string is an 8.3 name and its extension is the name's. -/
def MatchesWhole (input : Str) (name : Vector UInt8 11) : Prop :=
  name.toList.take 8 = padded stopsMatch 8 input →
    ValidName input ∧ name.toList.drop 8 = blankPadded 3 (splitName input).2

theorem matchesWhole_iff :
    (fatNameMatch input name = true ↔ IsNameOf input name) ↔
      MatchesWhole input name := by
  rw [MatchesWhole, ← fatNameMatch_iff]
  refine ⟨?_, ?_⟩
  · intro hiff hmatch
    have hname := hiff.1 hmatch
    exact ⟨hname.1, ((isNameOf_iff hname.1).1 hname).2⟩
  · intro hwhole
    refine ⟨?_, ?_⟩
    · intro hmatch
      obtain ⟨hvalid, hdrop⟩ := hwhole hmatch
      exact (isNameOf_iff hvalid).2 ⟨hmatch, hdrop⟩
    · exact fun hname => ((isNameOf_iff hname.1).1 hname).1

/-- A string is a name of one stored name at most. -/
theorem IsNameOf.unique {name' : Vector UInt8 11} (h : IsNameOf input name)
    (h' : IsNameOf input name') : name = name' :=
  Vector.toList_inj.1 (h.2.trans h'.2.symm)

/-- What a lookup takes, whatever else it asks of an entry. -/
theorem name_of_firstSlot {buffer : Sector} {p : DirEntry → Bool}
    (hp : ∀ e, p e = true → fatNameMatch input e.name = true)
    (hwhole : ∀ i, MatchesWhole input (dirEntry buffer i).name) (i : Fin 16)
    (h : (firstSlot fun i => p (dirEntry buffer i)) = some i) :
    IsNameOf input (dirEntry buffer i).name :=
  (matchesWhole_iff.2 (hwhole i)).1 (hp _ (firstSlot_some h))

/-- The stored name with this stem and this extension. -/
def shortName (stem ext : Str) : Vector UInt8 11 :=
  Vector.ofFn fun k =>
    (blankPadded 8 stem ++ blankPadded 3 ext).getD k.val space

/-- A file of this name. -/
def namedFile (stem ext : Str) : DirEntry :=
  { freshFile (lit "a") with name := shortName stem ext }

/-- For every string and every stored name: a match says that the one is the
name of the other if and only if, should their first eight characters agree,
the string is an 8.3 name and has the stored extension. So where that holds of
all entries of a directory, `rm`, `cat` and `cd` take no file but the one whose
name they were given. -/
theorem match_whole_name (input : Str) :
    (∀ name : Vector UInt8 11,
      (fatNameMatch input name = true ↔ IsNameOf input name) ↔
        MatchesWhole input name) ∧
    ∀ buffer : Sector, (∀ i, MatchesWhole input (dirEntry buffer i).name) →
      ∀ i, (rmSlot buffer input = some i ∨ catSlot buffer input = some i ∨
          findFileSlot buffer input = some i) →
        ∀ name, IsNameOf input name ↔ (dirEntry buffer i).name = name := by
  refine ⟨fun name => matchesWhole_iff, fun buffer hwhole i h name => ?_⟩
  have hname : IsNameOf input (dirEntry buffer i).name := by
    rcases h with h | h | h
    · exact name_of_firstSlot (p := fun e => fatNameMatch input e.name)
        (fun _ hp => hp) hwhole i h
    · exact name_of_firstSlot (p := fun e => fatNameMatch input e.name)
        (fun _ hp => hp) hwhole i h
    · exact name_of_firstSlot
        (p := fun e => !e.isFree && fatNameMatch input e.name)
        (fun _ hp => (Bool.and_eq_true_iff.1 hp).2) hwhole i h
  refine ⟨?_, ?_⟩
  · exact hname.unique
  · rintro rfl
    exact hname

/-- With `FILE.TXT` alone in a directory, that is what `rm file.txt` takes. -/
theorem match_whole_name_alone :
    ∃ i, rmSlot (oneEntry (namedFile (lit "FILE") (lit "TXT")))
        (lit "file.txt") = some i ∧
      ∀ name, IsNameOf (lit "file.txt") name ↔
        (dirEntry (oneEntry (namedFile (lit "FILE") (lit "TXT"))) i).name =
          name := by
  have hslot : rmSlot (oneEntry (namedFile (lit "FILE") (lit "TXT")))
      (lit "file.txt") = some 0 := by
    refine firstSlot_zero ?_
    rw [dirEntry_oneEntry]
    decide
  have hlegal : ((splitName (lit "file.txt")).1 ++
      (splitName (lit "file.txt")).2).all (fun c => legal (upper c)) = true := by
    decide
  have hascii : Ascii (lit "file.txt") := by
    have hall : ((lit "file.txt").all fun c => 1 ≤ c && c ≤ 127) = true := by
      decide
    intro c hc
    simpa using List.all_eq_true.1 hall c hc
  have hwhole : ∀ i, MatchesWhole (lit "file.txt")
      (dirEntry (oneEntry (namedFile (lit "FILE") (lit "TXT"))) i).name := by
    intro i hmatch
    by_cases hi : i = slotZero
    · subst hi
      refine ⟨⟨by decide, by decide, List.all_eq_true.1 hlegal⟩, ?_⟩
      rw [oneEntry, dirEntry_setDirEntry_self]
      decide
    · rw [oneEntry, dirEntry_setDirEntry_of_ne _ hi] at hmatch
      have hfree := hascii.isFree_of_match (fatNameMatch_iff.2 hmatch)
      rw [dirEntry_zeroSector] at hfree
      cases hfree
  exact ⟨0, hslot, (match_whole_name (lit "file.txt")).2 _ hwhole 0
    (.inl hslot)⟩

/-! ## Two files with one stem -/

/-- A directory with `FILE.TXT` and `FILE.DOC`. -/
def twoFiles : Sector :=
  setDirEntry (oneEntry (namedFile (lit "FILE") (lit "TXT"))) ⟨1, one_lt_slots⟩
    (namedFile (lit "FILE") (lit "DOC"))

theorem shortName_txt_match :
    fatNameMatch (lit "file.doc") (shortName (lit "FILE") (lit "TXT")) = true := by
  decide

theorem not_isNameOf_txt :
    ¬ IsNameOf (lit "file.doc") (shortName (lit "FILE") (lit "TXT")) := by
  rintro ⟨-, h⟩
  revert h
  decide

theorem documents_match :
    fatNameMatch (lit "documents1") (shortName (lit "DOCUMENT") []) = true := by
  decide

theorem not_isNameOf_documents :
    ¬ IsNameOf (lit "documents1") (shortName (lit "DOCUMENT") []) := by
  rintro ⟨h, -⟩
  exact absurd h.stem.2 (by decide)

theorem slotZero_ne_one : slotZero ≠ ⟨1, one_lt_slots⟩ := by decide

theorem dirEntry_twoFiles_zero :
    dirEntry twoFiles slotZero = namedFile (lit "FILE") (lit "TXT") := by
  rw [twoFiles, dirEntry_setDirEntry_of_ne _ slotZero_ne_one]
  exact dirEntry_oneEntry _

theorem dirEntry_twoFiles_one :
    dirEntry twoFiles ⟨1, one_lt_slots⟩ =
      namedFile (lit "FILE") (lit "DOC") := by
  rw [twoFiles, dirEntry_setDirEntry_self]

theorem rmSlot_twoFiles : rmSlot twoFiles (lit "file.doc") = some slotZero := by
  refine firstSlot_zero ?_
  show fatNameMatch _ (dirEntry twoFiles slotZero).name = true
  rw [dirEntry_twoFiles_zero]
  exact shortName_txt_match

theorem isNameOf_doc :
    IsNameOf (lit "file.doc") (shortName (lit "FILE") (lit "DOC")) := by
  have hlegal : ((splitName (lit "file.doc")).1 ++
      (splitName (lit "file.doc")).2).all (fun c => legal (upper c)) = true := by
    decide
  exact ⟨⟨by decide, by decide, List.all_eq_true.1 hlegal⟩, by decide⟩

/-- A match takes `file.doc` for the stored `FILE.TXT` and `documents1` for
the stored `DOCUMENT`; with `FILE.TXT` in front of `FILE.DOC` in a directory
`rm file.doc` removes the former. -/
theorem match_stem_only :
    ¬ (fatNameMatch (lit "file.doc") (shortName (lit "FILE") (lit "TXT")) =
          true ↔
        IsNameOf (lit "file.doc") (shortName (lit "FILE") (lit "TXT"))) ∧
      ¬ (fatNameMatch (lit "documents1") (shortName (lit "DOCUMENT") []) =
          true ↔
        IsNameOf (lit "documents1") (shortName (lit "DOCUMENT") [])) ∧
      rmSlot twoFiles (lit "file.doc") = some slotZero ∧
      ¬ IsNameOf (lit "file.doc") (dirEntry twoFiles slotZero).name ∧
      IsNameOf (lit "file.doc")
        (dirEntry twoFiles ⟨1, one_lt_slots⟩).name := by
  refine ⟨fun h => not_isNameOf_txt (h.1 shortName_txt_match),
    fun h => not_isNameOf_documents (h.1 documents_match), rmSlot_twoFiles,
    ?_, ?_⟩
  · rw [dirEntry_twoFiles_zero]
    exact not_isNameOf_txt
  · rw [dirEntry_twoFiles_one]
    exact isNameOf_doc

end TermOS.Storage
