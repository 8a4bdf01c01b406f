import TermOS.Lib.Prefixes
import TermOS.Ref.Editor

/-!
# Whether a text fits the editor's buffer

The index is the length of the text so far, so it is never negative, and a store
goes inside the buffer if and only if the text in front of it is shorter than
the buffer. Nothing in the loop sees to that: with 4096 characters the next one
is stored behind the buffer.
-/

namespace TermOS.Console

open TermOS.Lib

/-- The text after a key: a character more, one less, or the same. -/
def edit (text : List UInt8) (c : UInt8) : List UInt8 :=
  if c = backspace then text.dropLast
  else if c = newline ∨ IsPrintable c then text ++ [c]
  else text

def edited (keys : List UInt8) : List UInt8 := keys.foldl edit []

theorem edited_concat (keys : List UInt8) (c : UInt8) :
    edited (keys ++ [c]) = edit (edited keys) c := by
  rw [edited, List.foldl_append]
  rfl

namespace Editor

variable {s : Editor} {text : List UInt8} {c : UInt8} {reads rest : List UInt8}

/-- `buffer[0..pos)`. -/
def bytes (s : Editor) : List UInt8 :=
  (List.range s.pos.toNat).map fun k : Nat => s.buffer k

/-! ## The stores are those of the loop -/

def apply (m : Int → UInt8) (stores : List (Int × UInt8)) : Int → UInt8 :=
  stores.foldl (fun m x => Function.update m x.1 x.2) m

theorem buffer_key (s : Editor) (c : UInt8) :
    (s.key c).buffer = apply s.buffer (s.keyStores c) := by
  rw [key, keyStores]
  split
  · split <;> rfl
  · split
    · rfl
    · split <;> rfl

theorem buffer_loop (s : Editor) (reads : List UInt8) :
    (s.loop reads).1.buffer = apply s.buffer (s.loopStores reads) := by
  induction reads generalizing s with
  | nil => rfl
  | cons c reads ih =>
      rw [loop, loopStores]
      split
      · rfl
      · rw [ih, buffer_key, apply, apply, apply, List.foldl_append]

theorem ended_loop_iff (s : Editor) (reads : List UInt8) :
    (s.loop reads).2 = true ↔ escape ∈ reads := by
  induction reads generalizing s with
  | nil => exact iff_of_false Bool.false_ne_true List.not_mem_nil
  | cons c reads ih =>
      rw [loop, List.mem_cons]
      split
      · next hc => exact iff_of_true rfl (.inl hc.symm)
      · next hc => rw [ih, or_iff_right (Ne.symm hc)]

/-- What is printed at the end is not in the buffer. -/
theorem editorMain_spec (buffer : Int → UInt8) (t : Terminal)
    (reads : List UInt8) :
    (editorMain buffer t reads).1.buffer =
      apply buffer ((start buffer t).loopStores reads) ∧
    (editorMain buffer t reads).1.pos = ((start buffer t).loop reads).1.pos ∧
    ((editorMain buffer t reads).2 = true ↔ escape ∈ reads) := by
  have hbuffer := buffer_loop (start buffer t) reads
  rw [← ended_loop_iff (start buffer t), editorMain]
  rcases hloop : (start buffer t).loop reads with ⟨s, ended⟩
  rw [hloop] at hbuffer
  cases ended with
  | false => exact ⟨hbuffer, rfl, Iff.rfl⟩
  | true => exact ⟨hbuffer, rfl, Iff.rfl⟩

/-! ## One read more -/

theorem loop_append (hesc : escape ∉ reads) :
    s.loop (reads ++ rest) = (s.loop reads).1.loop rest := by
  induction reads generalizing s with
  | nil => rfl
  | cons c reads ih =>
      obtain ⟨hc, hreads⟩ := not_or.1 (mt List.mem_cons.2 hesc)
      rw [List.cons_append, loop, loop, if_neg (Ne.symm hc),
        if_neg (Ne.symm hc)]
      exact ih hreads

/-- Behind the escape nothing is read. -/
theorem loop_append_of_mem (hesc : escape ∈ reads) :
    s.loop (reads ++ rest) = s.loop reads ∧
      s.loopStores (reads ++ rest) = s.loopStores reads := by
  induction reads generalizing s with
  | nil => exact absurd hesc List.not_mem_nil
  | cons c reads ih =>
      rw [List.cons_append, loop, loop, loopStores, loopStores]
      split
      · exact ⟨rfl, rfl⟩
      · next hc =>
          have hreads := (List.mem_cons.1 hesc).resolve_left (Ne.symm hc)
          exact ⟨(ih hreads).1, by rw [(ih hreads).2]⟩

theorem loopStores_append (hesc : escape ∉ reads) :
    s.loopStores (reads ++ rest) =
      s.loopStores reads ++ (s.loop reads).1.loopStores rest := by
  induction reads generalizing s with
  | nil => rfl
  | cons c reads ih =>
      obtain ⟨hc, hreads⟩ := not_or.1 (mt List.mem_cons.2 hesc)
      rw [List.cons_append, loopStores, loopStores, loop, if_neg (Ne.symm hc),
        if_neg (Ne.symm hc), if_neg (Ne.symm hc), ih hreads,
        List.append_assoc]

/-! ## The text in the buffer -/

/-- The buffer holds a text up to the index. -/
structure Keeps (s : Editor) (text : List UInt8) : Prop where
  pos : s.pos = text.length
  bytes : s.bytes = text

theorem Keeps.type (h : s.Keeps text) (c : UInt8) :
    (s.type c).Keeps (text ++ [c]) := by
  have hpos := h.pos
  have hbytes := h.bytes
  have hnext : (s.type c).pos = ((text ++ [c]).length : Int) := by
    rw [Editor.type, List.length_append, List.length_singleton, hpos]
    rfl
  refine ⟨hnext, ?_⟩
  rw [Editor.bytes, hpos, Int.toNat_natCast] at hbytes
  rw [Editor.bytes, hnext, Int.toNat_natCast, List.length_append,
    List.length_singleton, List.range_succ, List.map_append, List.map_singleton]
  have hbuffer : (s.type c).buffer =
      Function.update s.buffer (text.length : Int) c := by
    rw [← hpos]
    rfl
  have hlast : (s.type c).buffer (text.length : Int) = c := by
    rw [hbuffer, Function.update_self]
  have hbefore : (List.range text.length).map
      (fun k : Nat => (s.type c).buffer k) = text := by
    refine Eq.trans (List.map_congr_left fun k hk => ?_) hbytes
    have hlt := List.mem_range.1 hk
    rw [hbuffer, Function.update_of_ne]
    exact fun heq => absurd (Int.ofNat_inj.1 heq) (by omega)
  rw [hlast, hbefore]

/-- A backspace moves the index. -/
theorem Keeps.back (h : s.Keeps text) (hpos : s.pos > 0) (t : Terminal) :
    Keeps { s with pos := s.pos - 1, term := t } text.dropLast := by
  have hlen := h.pos
  have hbytes := h.bytes
  have hprev : s.pos - 1 = ((text.length - 1 : Nat) : Int) := by omega
  refine ⟨?_, ?_⟩
  · show s.pos - 1 = _
    rw [hprev, List.length_dropLast]
  · rw [Editor.bytes, hlen, Int.toNat_natCast] at hbytes
    show (List.range (s.pos - 1).toNat).map (fun k : Nat => s.buffer k) = _
    have hwhole : text.length = text.length - 1 + 1 := by omega
    rw [hprev, Int.toNat_natCast, ← hbytes, List.length_map,
      List.length_range]
    conv => rhs; rw [hwhole, List.range_succ, List.map_append,
      List.map_singleton, List.dropLast_concat]

theorem Keeps.key (h : s.Keeps text) (c : UInt8) :
    (s.key c).Keeps (edit text c) := by
  rw [Editor.key, edit]
  split
  · split
    · next hpos => exact h.back hpos _
    · next hpos =>
        have hlen := h.pos
        have hnil : text = [] := List.eq_nil_of_length_eq_zero (by omega)
        rw [hnil] at h ⊢
        exact h
  · split
    · next hnew =>
        rw [if_pos (.inl hnew), hnew]
        exact h.type newline
    · next hnew =>
        split
        · next hprint =>
            rw [if_pos (.inr hprint)]
            exact h.type c
        · next hprint =>
            rw [if_neg (not_or.2 ⟨hnew, hprint⟩)]
            exact h

theorem keeps_loop (buffer : Int → UInt8) (t : Terminal)
    (hesc : escape ∉ reads) :
    ((start buffer t).loop reads).1.Keeps (edited reads) := by
  induction reads using List.reverseRecOn with
  | nil => exact ⟨rfl, rfl⟩
  | append_singleton reads c ih =>
      obtain ⟨hreads, hc⟩ := not_or.1 (mt List.mem_append.2 hesc)
      have hne : c ≠ escape := fun heq => hc (heq ▸ List.mem_singleton_self c)
      rw [loop_append hreads, edited_concat, loop, if_neg hne]
      exact (ih hreads).key c

/-! ## Bounds -/

def InBuffer (x : Int × UInt8) : Prop := 0 ≤ x.1 ∧ x.1 < maxLen

theorem keyStores_typed (hback : c ≠ backspace)
    (hkey : c = newline ∨ IsPrintable c) : s.keyStores c = [(s.pos, c)] := by
  rw [keyStores, if_neg hback]
  by_cases hnew : c = newline
  · rw [if_pos hnew, hnew]
  · rw [if_neg hnew, if_pos (hkey.resolve_left hnew)]

/-- What the next round may do to a text that has fitted so far. -/
theorem key_in_bounds_iff (h : s.Keeps text) (hlen : text.length ≤ 4096) :
    ((0 ≤ (s.key c).pos ∧ (s.key c).pos ≤ maxLen) ∧
      ∀ x ∈ s.keyStores c, InBuffer x) ↔
    (c = newline ∨ IsPrintable c → text.length < 4096) := by
  have hpos := (h.key c).pos
  have hback : backspace ≠ newline ∧ ¬ IsPrintable backspace := by decide
  rw [hpos, edit]
  by_cases hc : c = backspace
  · rw [keyStores, if_pos hc, if_pos hc, List.length_dropLast]
    refine iff_of_true ⟨⟨by omega, ?_⟩, fun x hx => nomatch hx⟩ ?_
    · show ((text.length - 1 : Nat) : Int) ≤ 4096
      omega
    · rw [hc]
      exact fun hkey => (hkey.elim hback.1 hback.2).elim
  · rw [if_neg hc]
    by_cases hkey : c = newline ∨ IsPrintable c
    · rw [if_pos hkey, keyStores_typed hc hkey, h.pos,
        List.forall_mem_singleton, List.length_append, List.length_singleton]
      refine ⟨?_, ?_⟩
      · rintro ⟨-, -, hlt⟩ -
        have hlt' : (text.length : Int) < 4096 := hlt
        omega
      · intro hlt
        have hlt' := hlt hkey
        refine ⟨⟨by omega, ?_⟩, ?_, ?_⟩
        · show ((text.length + 1 : Nat) : Int) ≤ 4096
          omega
        · show (0 : Int) ≤ text.length
          omega
        · show (text.length : Int) < 4096
          omega
    · obtain ⟨hnew, hprint⟩ := not_or.1 hkey
      rw [keyStores, if_neg hc, if_neg hkey, if_neg hnew, if_neg hprint]
      refine iff_of_true ⟨⟨by omega, ?_⟩, fun x hx => nomatch hx⟩
        fun h => absurd h hkey
      show (text.length : Int) ≤ 4096
      omega

/-- Behind every read the index is from 0 to 4096, and every store goes into
the buffer. -/
structure InBounds (s : Editor) (reads : List UInt8) : Prop where
  pos : ∀ pre, pre <+: reads →
    0 ≤ (s.loop pre).1.pos ∧ (s.loop pre).1.pos ≤ maxLen
  stores : ∀ x ∈ s.loopStores reads, InBuffer x

/-- One read more, before the escape. -/
theorem inBounds_concat_iff (hesc : escape ∉ reads) (hc : c ≠ escape) :
    s.InBounds (reads ++ [c]) ↔ s.InBounds reads ∧
      ((0 ≤ ((s.loop reads).1.key c).pos ∧
          ((s.loop reads).1.key c).pos ≤ maxLen) ∧
        ∀ x ∈ (s.loop reads).1.keyStores c, InBuffer x) := by
  have hloop : (s.loop (reads ++ [c])).1 = (s.loop reads).1.key c := by
    rw [loop_append hesc, loop, if_neg hc]
    rfl
  have hstores : s.loopStores (reads ++ [c]) =
      s.loopStores reads ++ (s.loop reads).1.keyStores c := by
    rw [loopStores_append hesc, loopStores, if_neg hc, loopStores,
      List.append_nil]
  refine ⟨?_, ?_⟩
  · intro h
    obtain ⟨hpos, hlast⟩ := forall_prefix_concat_iff.1 h.pos
    have hall := h.stores
    rw [hstores, List.forall_mem_append] at hall
    rw [hloop] at hlast
    exact ⟨⟨hpos, hall.1⟩, hlast, hall.2⟩
  · rintro ⟨h, hlast, hnew⟩
    refine ⟨forall_prefix_concat_iff.2 ⟨h.pos, ?_⟩, ?_⟩
    · rw [hloop]
      exact hlast
    · rw [hstores, List.forall_mem_append]
      exact ⟨h.stores, hnew⟩

/-- One read more that does nothing. -/
theorem inBounds_concat_idle
    (hloop : (s.loop (reads ++ [c])).1 = (s.loop reads).1)
    (hstores : s.loopStores (reads ++ [c]) = s.loopStores reads) :
    s.InBounds (reads ++ [c]) ↔ s.InBounds reads := by
  refine ⟨?_, ?_⟩
  · intro h
    have hall := h.stores
    rw [hstores] at hall
    exact ⟨(forall_prefix_concat_iff.1 h.pos).1, hall⟩
  · intro h
    refine ⟨forall_prefix_concat_iff.2 ⟨h.pos, ?_⟩, ?_⟩
    · rw [hloop]
      exact h.pos reads (List.prefix_refl reads)
    · rw [hstores]
      exact h.stores

end Editor

open Editor

/-- For every buffer, every terminal and everything that the keyboard delivers:
the index stays from 0 to 4096 and all stores are in the buffer if and only if
a newline or a printable character never comes, in front of the escape, when
the text has 4096 characters. -/
theorem editor_in_bounds_iff (buffer : Int → UInt8) (t : Terminal)
    (reads : List UInt8) : (start buffer t).InBounds reads ↔
      AtEach (fun pre c => escape ∉ pre → c = newline ∨ IsPrintable c →
        (edited pre).length < 4096) reads := by
  induction reads using List.reverseRecOn with
  | nil =>
      refine iff_of_true ⟨?_, fun x hx => nomatch hx⟩ .nil
      intro pre hpre
      rw [List.prefix_nil.1 hpre]
      exact ⟨Int.le_refl 0, (by decide : (0 : Int) ≤ 4096)⟩
  | append_singleton reads c ih =>
      rw [AtEach.concat_iff, ← ih]
      by_cases hesc : escape ∈ reads
      · obtain ⟨hloop, hstores⟩ :=
          @loop_append_of_mem (start buffer t) reads [c] hesc
        rw [inBounds_concat_idle (by rw [hloop]) hstores]
        exact (and_iff_left fun h => absurd hesc h).symm
      · by_cases hc : c = escape
        · have hloop : ((start buffer t).loop (reads ++ [c])).1 =
              ((start buffer t).loop reads).1 := by
            rw [loop_append hesc, loop, if_pos hc]
          have hstores : (start buffer t).loopStores (reads ++ [c]) =
              (start buffer t).loopStores reads := by
            rw [loopStores_append hesc, loopStores, if_pos hc,
              List.append_nil]
          have hidle : ¬ (c = newline ∨ IsPrintable c) := by
            rw [hc]
            decide
          rw [inBounds_concat_idle hloop hstores]
          exact (and_iff_left fun _ h => absurd h hidle).symm
        · rw [inBounds_concat_iff hesc hc]
          refine and_congr_right fun h => ?_
          have hkeeps := keeps_loop buffer t hesc
          have hpos := (h.pos reads (List.prefix_refl reads)).2
          rw [hkeeps.pos] at hpos
          have hlen : (edited reads).length ≤ 4096 := by
            have hpos' : ((edited reads).length : Int) ≤ 4096 := hpos
            omega
          rw [key_in_bounds_iff hkeeps hlen]
          exact ⟨fun h _ => h, fun h => h hesc⟩

/-- Printable characters are the text. -/
theorem edited_replicate (n : Nat) :
    edited (List.replicate n 0x61) = List.replicate n 0x61 := by
  induction n with
  | zero => rfl
  | succ n ih =>
      rw [List.replicate_succ', edited_concat, ih, edit, if_neg (by decide),
        if_pos (.inr (by decide))]

/-- 4097 letters: the last one goes behind the buffer. -/
theorem not_editor_in_bounds_long :
    ¬ (start (fun _ => 0) ⟨fun _ => 0, 0, 0, 0x0F, 0⟩).InBounds
      (List.replicate 4097 0x61) := by
  intro h
  have hesc : ∀ n, escape ∉ List.replicate n (0x61 : UInt8) := by
    intro n hmem
    exact absurd (List.eq_of_mem_replicate hmem) (by decide)
  have hkeeps := keeps_loop (fun _ => 0) ⟨fun _ => 0, 0, 0, 0x0F, 0⟩ (hesc 4097)
  have hpos := (h.pos _ (List.prefix_refl _)).2
  rw [hkeeps.pos, edited_replicate, List.length_replicate] at hpos
  exact absurd hpos (by decide)

end TermOS.Console
