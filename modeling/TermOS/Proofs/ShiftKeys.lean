import Mathlib.Data.Finset.Insert
import Mathlib.Data.Nat.Bitwise
import TermOS.Lib.Prefixes
import TermOS.Proofs.KeyboardFifo

/-!
# Two shift keys and one flag

A keyboard has two shift keys, and `irq1_handler` keeps one flag that follows
whichever of them moved last. The flag agrees with the keys that are down
except in one situation: both were down and one of them has been let go. From
then on, until a shift key moves again, the letters come out unshifted. What
the handler pushes is compared with an ideal decoder that looks at the keys
which are down.
-/

namespace TermOS.Console

open TermOS.Lib

/-! ## A physical keyboard -/

/-- A key goes down or up. A key is named by its make code, and its break code
is 0x80 more. -/
inductive KeyEvent where
  | press (key : UInt8)
  | release (key : UInt8)
  deriving DecidableEq, Repr

namespace KeyEvent

def scancode : KeyEvent → UInt8
  | .press key => key
  | .release key => key + 0x80

def hold (held : Finset UInt8) : KeyEvent → Finset UInt8
  | .press key => insert key held
  | .release key => held.erase key

/-- A key that is down does not go down, one that is up does not go up, and
nothing is pressed together with Ctrl. -/
def Possible (held : Finset UInt8) : KeyEvent → Prop
  | .press key => key.toNat < 0x80 ∧ key ∉ held ∧ 0x1D ∉ held
  | .release key => key ∈ held

def isShift : KeyEvent → Bool
  | .press key => key = 0x2A || key = 0x36
  | .release key => key = 0x2A || key = 0x36

end KeyEvent

/-- The keys that are down, from none. -/
def heldAfter (es : List KeyEvent) : Finset UInt8 := es.foldl KeyEvent.hold ∅

/-- What a keyboard can send. -/
def Physical (es : List KeyEvent) : Prop :=
  AtEach (fun pre e => e.Possible (heldAfter pre)) es

def ShiftDown (held : Finset UInt8) : Prop := 0x2A ∈ held ∨ 0x36 ∈ held

instance (held : Finset UInt8) : Decidable (ShiftDown held) :=
  inferInstanceAs (Decidable (_ ∨ _))

/-! ## The ideal decoder and the handler -/

/-- The character of a key in one of the tables, if there is one. -/
def keyChars (shifted : Bool) (key : UInt8) : List UInt8 :=
  let c := (if shifted then kbdUsShift else kbdUs).getD key.toNat 0
  if c = 0 then [] else [c]

/-- The character of an event, by the keys that are down. -/
def idealChars (held : Finset UInt8) : KeyEvent → List UInt8
  | .press key => keyChars (decide (ShiftDown held)) key
  | .release _ => []

def idealFrom (held : Finset UInt8) : List KeyEvent → List UInt8
  | [] => []
  | e :: es => idealChars held e ++ idealFrom (e.hold held) es

/-- What is passed to `kbd_push`. -/
def KeyAction.chars : KeyAction → List UInt8
  | .push c => [c]
  | _ => []

/-- What the handler passes to `kbd_push` over a sequence of scancodes. -/
def Keys.typed (k : Keys) : List UInt8 → List UInt8
  | [] => []
  | code :: codes =>
      (k.irq1Handler code).2.chars ++ typed (k.irq1Handler code).1 codes

/-- `shift_pressed` and `ctrl_pressed` as they are initialised. -/
def Keys.initial : Keys := ⟨false, false⟩

/-! ## One event -/

theorem and_0x80_eq_zero_iff (code : UInt8) :
    code &&& 0x80 = 0 ↔ code.toNat < 0x80 := by
  have hlt := code.toNat_lt
  rw [← UInt8.toNat_inj, UInt8.toNat_and]
  show code.toNat &&& 2 ^ 7 = 0 ↔ code.toNat < 0x80
  rw [Nat.and_two_pow, Nat.testBit_eq_decide_div_mod_eq]
  by_cases h : code.toNat / 2 ^ 7 % 2 = 1
  · simp
    omega
  · simp
    omega

theorem toNat_release {key : UInt8} (hkey : key.toNat < 0x80) :
    (key + 0x80).toNat = key.toNat + 0x80 := by
  rw [UInt8.toNat_add]
  show (key.toNat + 0x80) % 2 ^ 8 = key.toNat + 0x80
  omega

theorem irq1Handler_fst (k : Keys) (code : UInt8) :
    (k.irq1Handler code).1 = k.track code := by
  rw [Keys.irq1Handler]
  simp only
  split
  · rfl
  · split
    · rfl
    · split
      · split
        · rfl
        · split <;> rfl
      · rfl

/-- No key that does something else has a character. -/
theorem keyChars_special (shifted : Bool) : keyChars shifted 0x49 = [] ∧
    keyChars shifted 0x51 = [] ∧ keyChars shifted 0x2A = [] ∧
    keyChars shifted 0x36 = [] := by
  cases shifted <;> decide

/-- `c > 0`, with a signed `char`. -/
theorem toInt8_pos_iff {c : UInt8} (h : c.toNat < 128) :
    0 < c.toInt8 ↔ c ≠ 0 := by
  have hbits : c.toInt8.toBitVec.toNat = c.toNat := rfl
  have hzero : c = 0 ↔ c.toNat = 0 := UInt8.toNat_inj.symm
  have hint : (0 : Int8).toInt = 0 := rfl
  rw [Int8.lt_iff_toInt_lt, hint, ← Int8.toInt_toBitVec,
    BitVec.toInt_eq_toNat_bmod, hbits, Ne, hzero]
  grind

theorem keyChars_eq (k : Keys) (key : UInt8) :
    keyChars k.shiftPressed key =
      if 0 < (k.char key).toInt8 then [k.char key] else [] := by
  have hpos := toInt8_pos_iff (keys_char_lt k key)
  show (if k.char key = 0 then [] else [k.char key]) = _
  by_cases hzero : k.char key = 0
  · rw [if_pos hzero, if_neg (mt hpos.1 (not_not_intro hzero))]
  · rw [if_neg hzero, if_pos (hpos.2 hzero)]

/-- The shift keys themselves have no character, so it does not matter that the
flag moves before the lookup. -/
theorem keyChars_track (k : Keys) {key : UInt8} (hkey : key.toNat < 0x80) :
    keyChars (k.track key).shiftPressed key = keyChars k.shiftPressed key := by
  by_cases h : key = 0x2A ∨ key = 0x36
  · rcases h with rfl | rfl
    · rw [(keyChars_special _).2.2.1, (keyChars_special _).2.2.1]
    · rw [(keyChars_special _).2.2.2, (keyChars_special _).2.2.2]
  · have hbreak : ¬ (key = 0xAA ∨ key = 0xB6) := by
      rintro (rfl | rfl) <;> exact absurd hkey (by decide)
    rw [Keys.track, if_neg h, if_neg hbreak]

theorem chars_press {k : Keys} {key : UInt8} (hkey : key.toNat < 0x80)
    (hctrl : k.ctrlPressed = false) :
    (k.irq1Handler key).2.chars = keyChars k.shiftPressed key := by
  rw [← keyChars_track k hkey, Keys.irq1Handler]
  simp only
  split
  · next h =>
      rw [h, (keyChars_special _).1]
      rfl
  · split
    · next h =>
        rw [h, (keyChars_special _).2.1]
        rfl
    · rw [if_pos ((and_0x80_eq_zero_iff key).2 hkey)]
      split
      · next h =>
          obtain ⟨hpressed, rfl⟩ := h
          have hkept : (k.track 0x2E).ctrlPressed = k.ctrlPressed := rfl
          rw [hkept, hctrl] at hpressed
          exact absurd hpressed Bool.false_ne_true
      · rw [keyChars_eq]
        split <;> rfl

theorem chars_release {k : Keys} {key : UInt8} (hkey : key.toNat < 0x80) :
    (k.irq1Handler (key + 0x80)).2.chars = [] := by
  have hcode := toNat_release hkey
  have hbit : ¬ ((key + 0x80) &&& 0x80 = 0) := by
    rw [and_0x80_eq_zero_iff]
    omega
  rw [Keys.irq1Handler]
  simp only
  split
  · rfl
  · split
    · rfl
    · rfl

/-! ## The flags after a sequence -/

/-- The flags after a sequence of events. -/
def keysAfter (es : List KeyEvent) : Keys :=
  es.foldl (fun k e => k.track e.scancode) .initial

/-- The last event of a shift key. -/
def lastShift (es : List KeyEvent) : Option KeyEvent :=
  (es.filter KeyEvent.isShift).getLast?

variable {es : List KeyEvent} {e : KeyEvent} {key : UInt8}

theorem heldAfter_concat (es : List KeyEvent) (e : KeyEvent) :
    heldAfter (es ++ [e]) = e.hold (heldAfter es) := by
  rw [heldAfter, List.foldl_append]
  rfl

theorem keysAfter_concat (es : List KeyEvent) (e : KeyEvent) :
    keysAfter (es ++ [e]) = (keysAfter es).track e.scancode := by
  rw [keysAfter, List.foldl_append]
  rfl

theorem lastShift_concat (es : List KeyEvent) (e : KeyEvent) :
    lastShift (es ++ [e]) = if e.isShift then some e else lastShift es := by
  rw [lastShift, List.filter_append, List.filter_singleton]
  cases e.isShift with
  | true => simp
  | false => simp [lastShift]

theorem track_press (k : Keys) (hkey : key.toNat < 0x80) : k.track key =
    ⟨if key = 0x2A ∨ key = 0x36 then true else k.shiftPressed,
      if key = 0x1D then true else k.ctrlPressed⟩ := by
  have hshift : ¬ (key = 0xAA ∨ key = 0xB6) := by
    rintro (rfl | rfl) <;> exact absurd hkey (by decide)
  have hctrl : key ≠ 0x9D := by
    rintro rfl
    exact absurd hkey (by decide)
  rw [Keys.track, if_neg hshift, if_neg hctrl]

theorem track_release (k : Keys) (hkey : key.toNat < 0x80) :
    k.track (key + 0x80) =
      ⟨if key = 0x2A ∨ key = 0x36 then false else k.shiftPressed,
        if key = 0x1D then false else k.ctrlPressed⟩ := by
  have hcode := toNat_release hkey
  have hmake : ∀ c : UInt8, c.toNat < 0x80 → key + 0x80 ≠ c := by
    rintro c hc rfl
    omega
  have hbreak : ∀ c d : UInt8, d = c + 0x80 → (key + 0x80 = d ↔ key = c) := by
    rintro c d rfl
    exact UInt8.add_left_inj 0x80
  have hshift : ¬ (key + 0x80 = 0x2A ∨ key + 0x80 = 0x36) :=
    not_or.2 ⟨hmake _ (by decide), hmake _ (by decide)⟩
  rw [Keys.track, if_neg hshift, if_neg (hmake 0x1D (by decide))]
  simp only [hbreak 0x2A 0xAA rfl, hbreak 0x36 0xB6 rfl, hbreak 0x1D 0x9D rfl]

namespace Physical

theorem concat (h : Physical (es ++ [e])) :
    Physical es ∧ e.Possible (heldAfter es) := AtEach.concat_iff.1 h

theorem nil : Physical [] := AtEach.nil

theorem press (h : Physical es) (hkey : key.toNat < 0x80)
    (hup : key ∉ heldAfter es) (hctrl : 0x1D ∉ heldAfter es) :
    Physical (es ++ [.press key]) :=
  AtEach.concat_iff.2 ⟨h, hkey, hup, hctrl⟩

theorem release (h : Physical es) (hdown : key ∈ heldAfter es) :
    Physical (es ++ [.release key]) :=
  AtEach.concat_iff.2 ⟨h, hdown⟩

theorem held_lt (h : Physical es) (hkey : key ∈ heldAfter es) :
    key.toNat < 0x80 := by
  induction es using List.reverseRecOn with
  | nil => exact absurd hkey (Finset.notMem_empty key)
  | append_singleton es e ih =>
      obtain ⟨hes, he⟩ := h.concat
      rw [heldAfter_concat] at hkey
      cases e with
      | press k =>
          rcases Finset.mem_insert.1 hkey with rfl | hmem
          · exact he.1
          · exact ih hes hmem
      | release k => exact ih hes (Finset.mem_of_mem_erase hkey)

/-- The flag for Ctrl is right. -/
theorem ctrlPressed (h : Physical es) : (keysAfter es).ctrlPressed = true ↔
    0x1D ∈ heldAfter es := by
  induction es using List.reverseRecOn with
  | nil => exact iff_of_false Bool.false_ne_true (Finset.notMem_empty _)
  | append_singleton es e ih =>
      obtain ⟨hes, he⟩ := h.concat
      have hprev := ih hes
      rw [keysAfter_concat, heldAfter_concat]
      cases e with
      | press k =>
          rw [KeyEvent.scancode, track_press _ he.1, KeyEvent.hold,
            Finset.mem_insert, ← hprev]
          by_cases hk : k = 0x1D
          · simp [hk]
          · simp [hk, Ne.symm hk]
      | release k =>
          rw [KeyEvent.scancode, track_release _ (hes.held_lt he),
            KeyEvent.hold, Finset.mem_erase, ← hprev]
          by_cases hk : k = 0x1D
          · simp [hk]
          · simp [hk, Ne.symm hk]

/-- The flag for Shift follows the last event of a shift key. -/
theorem shiftPressed (h : Physical es) : (keysAfter es).shiftPressed = true ↔
    ∃ key, lastShift es = some (.press key) := by
  induction es using List.reverseRecOn with
  | nil => simp [keysAfter, lastShift, Keys.initial]
  | append_singleton es e ih =>
      obtain ⟨hes, he⟩ := h.concat
      have hprev := ih hes
      rw [keysAfter_concat, lastShift_concat]
      cases e with
      | press k =>
          rw [KeyEvent.scancode, track_press _ he.1]
          by_cases hk : k = 0x2A ∨ k = 0x36
          · simp [KeyEvent.isShift, hk]
          · simp [KeyEvent.isShift, hk, hprev]
      | release k =>
          rw [KeyEvent.scancode, track_release _ (hes.held_lt he)]
          by_cases hk : k = 0x2A ∨ k = 0x36
          · simp [KeyEvent.isShift, hk]
          · simp [KeyEvent.isShift, hk, hprev]

/-- The shift key that went down last is down. -/
theorem shiftDown_of_lastShift (h : Physical es)
    (hlast : lastShift es = some (.press key)) :
    (key = 0x2A ∨ key = 0x36) ∧ key ∈ heldAfter es := by
  induction es using List.reverseRecOn with
  | nil => exact absurd hlast (by simp [lastShift])
  | append_singleton es e ih =>
      obtain ⟨hes, he⟩ := h.concat
      rw [lastShift_concat] at hlast
      rw [heldAfter_concat]
      split at hlast
      · next hshift =>
          obtain rfl := Option.some.inj hlast
          exact ⟨by simpa [KeyEvent.isShift] using hshift,
            Finset.mem_insert_self key _⟩
      · next hshift =>
          obtain ⟨hkey, hmem⟩ := ih hes hlast
          refine ⟨hkey, ?_⟩
          cases e with
          | press k => exact Finset.mem_insert_of_mem hmem
          | release k =>
              refine Finset.mem_erase.2 ⟨?_, hmem⟩
              rintro rfl
              exact hshift (by simpa [KeyEvent.isShift] using hkey)

/-- A shift key that is down has gone down. -/
theorem lastShift_ne_none (h : Physical es) (hdown : ShiftDown (heldAfter es)) :
    lastShift es ≠ none := by
  induction es using List.reverseRecOn with
  | nil => simp [ShiftDown, heldAfter] at hdown
  | append_singleton es e ih =>
      obtain ⟨hes, -⟩ := h.concat
      rw [lastShift_concat]
      split
      · exact Option.some_ne_none e
      · next hshift =>
          refine ih hes ?_
          rw [heldAfter_concat] at hdown
          cases e with
          | press k =>
              simp only [KeyEvent.isShift, Bool.or_eq_true, decide_eq_true_eq,
                not_or] at hshift
              simpa [ShiftDown, KeyEvent.hold, eq_comm, hshift] using hdown
          | release k =>
              exact hdown.imp Finset.mem_of_mem_erase Finset.mem_of_mem_erase

end Physical

/-- A shift key is down, but the last one that moved went up. -/
def Stale (es : List KeyEvent) : Prop :=
  ShiftDown (heldAfter es) ∧ ∃ key, lastShift es = some (.release key)

/-- The flag says whether a shift key is down, unless it is stale; then it says
that none is. -/
theorem Physical.shiftPressed_eq (h : Physical es) :
    (Stale es → (keysAfter es).shiftPressed = false) ∧
      (¬ Stale es → (keysAfter es).shiftPressed =
        decide (ShiftDown (heldAfter es))) := by
  have hflag := h.shiftPressed
  refine ⟨?_, ?_⟩
  · rintro ⟨-, key, hlast⟩
    rw [hlast] at hflag
    simpa using hflag
  · intro hstale
    rw [Bool.eq_iff_iff, hflag, decide_eq_true_iff]
    refine ⟨?_, ?_⟩
    · rintro ⟨key, hlast⟩
      obtain ⟨hkey, hmem⟩ := h.shiftDown_of_lastShift hlast
      rcases hkey with rfl | rfl
      · exact .inl hmem
      · exact .inr hmem
    · intro hdown
      cases hlast : lastShift es with
      | none => exact absurd hlast (h.lastShift_ne_none hdown)
      | some e =>
          cases e with
          | press key => exact ⟨key, rfl⟩
          | release key => exact absurd ⟨hdown, key, hlast⟩ hstale

/-! ## The characters -/

/-- The key has one character with Shift and another without. -/
def Differs (key : UInt8) : Prop :=
  kbdUs.getD key.toNat 0 ≠ kbdUsShift.getD key.toNat 0

/-- A key has a character with Shift if it has one without. -/
theorem getD_eq_zero_iff (i : Nat) :
    kbdUs.getD i 0 = 0 ↔ kbdUsShift.getD i 0 = 0 := by
  have hin : ∀ i < 58, kbdUs.getD i 0 = 0 ↔ kbdUsShift.getD i 0 = 0 := by
    decide
  rcases Nat.lt_or_ge i 58 with hlt | hge
  · exact hin i hlt
  · have hlen : kbdUs.length = 58 ∧ kbdUsShift.length = 58 := by decide
    rw [List.getD_eq_default kbdUs 0 (hlen.1 ▸ hge),
      List.getD_eq_default kbdUsShift 0 (hlen.2 ▸ hge)]

theorem length_keyChars (shifted : Bool) (key : UInt8) :
    (keyChars shifted key).length =
      if kbdUsShift.getD key.toNat 0 = 0 then 0 else 1 := by
  have hzero := getD_eq_zero_iff key.toNat
  cases shifted with
  | false =>
      show (if kbdUs.getD key.toNat 0 = 0 then [] else [_]).length = _
      simp only [hzero]
      split <;> rfl
  | true =>
      show (if kbdUsShift.getD key.toNat 0 = 0 then [] else [_]).length = _
      split <;> rfl

theorem keyChars_eq_iff (key : UInt8) :
    keyChars false key = keyChars true key ↔ ¬ Differs key := by
  have hzero := getD_eq_zero_iff key.toNat
  rw [Differs, not_not]
  show (if kbdUs.getD key.toNat 0 = 0 then [] else [kbdUs.getD key.toNat 0]) =
    (if kbdUsShift.getD key.toNat 0 = 0 then []
      else [kbdUsShift.getD key.toNat 0]) ↔ _
  by_cases h : kbdUsShift.getD key.toNat 0 = 0
  · rw [if_pos h, if_pos (hzero.2 h)]
    exact iff_of_true rfl ((hzero.2 h).trans h.symm)
  · rw [if_neg h, if_neg (mt hzero.1 h), List.singleton_inj]

theorem length_chars_eq (h : Physical (es ++ [e])) :
    ((keysAfter es).irq1Handler e.scancode).2.chars.length =
      (idealChars (heldAfter es) e).length := by
  obtain ⟨hes, he⟩ := h.concat
  cases e with
  | press key =>
      have hctrl := mt hes.ctrlPressed.1 he.2.2
      rw [KeyEvent.scancode,
        chars_press he.1 (Bool.eq_false_of_not_eq_true hctrl), idealChars,
        length_keyChars, length_keyChars]
  | release key =>
      rw [KeyEvent.scancode, chars_release (hes.held_lt he)]
      rfl

/-- One event: the handler and the ideal decoder agree. -/
theorem chars_eq_iff (h : Physical (es ++ [e])) :
    ((keysAfter es).irq1Handler e.scancode).2.chars =
        idealChars (heldAfter es) e ↔
      ∀ key, e = .press key → Differs key → ¬ Stale es := by
  obtain ⟨hes, he⟩ := h.concat
  obtain ⟨hstale, hfresh⟩ := hes.shiftPressed_eq
  cases e with
  | press key =>
      have hctrl := mt hes.ctrlPressed.1 he.2.2
      rw [KeyEvent.scancode,
        chars_press he.1 (Bool.eq_false_of_not_eq_true hctrl), idealChars]
      by_cases h : Stale es
      · rw [hstale h, decide_eq_true h.1, keyChars_eq_iff]
        refine ⟨?_, ?_⟩
        · rintro hsame k ⟨⟩ hdiffers
          exact absurd hdiffers hsame
        · exact fun hall hdiffers => hall key rfl hdiffers h
      · rw [hfresh h]
        exact iff_of_true rfl fun _ _ _ => h
  | release key =>
      rw [KeyEvent.scancode, chars_release (hes.held_lt he)]
      exact iff_of_true rfl fun k hk => by cases hk

theorem typed_concat (k : Keys) (codes : List UInt8) (code : UInt8) :
    k.typed (codes ++ [code]) = k.typed codes ++
      ((codes.foldl Keys.track k).irq1Handler code).2.chars := by
  induction codes generalizing k with
  | nil => simp [Keys.typed]
  | cons c codes ih =>
      rw [List.cons_append, Keys.typed, ih, Keys.typed, irq1Handler_fst,
        List.append_assoc]
      rfl

theorem idealFrom_concat (held : Finset UInt8) (es : List KeyEvent)
    (e : KeyEvent) : idealFrom held (es ++ [e]) =
      idealFrom held es ++ idealChars (es.foldl KeyEvent.hold held) e := by
  induction es generalizing held with
  | nil => simp [idealFrom]
  | cons f es ih =>
      rw [List.cons_append, idealFrom, ih, idealFrom, List.append_assoc]
      rfl

theorem typed_events (es : List KeyEvent) (e : KeyEvent) :
    Keys.initial.typed ((es ++ [e]).map KeyEvent.scancode) =
      Keys.initial.typed (es.map KeyEvent.scancode) ++
        ((keysAfter es).irq1Handler e.scancode).2.chars := by
  rw [List.map_append, List.map_singleton, typed_concat, List.foldl_map]
  rfl

/-- For every sequence of events a physical keyboard can produce, Ctrl apart:
`irq1_handler` pushes the characters of the ideal decoder if and only if no key
with two different characters is pressed while one shift key is down and the
other was the last to move, and went up. -/
theorem typed_eq_ideal_iff (es : List KeyEvent) (h : Physical es) :
    Keys.initial.typed (es.map KeyEvent.scancode) = idealFrom ∅ es ↔
      AtEach (fun pre e => ∀ key, e = .press key → Differs key → ¬ Stale pre)
        es := by
  induction es using List.reverseRecOn with
  | nil => exact iff_of_true rfl .nil
  | append_singleton es e ih =>
      have hlen := length_chars_eq h
      rw [AtEach.concat_iff, ← ih h.concat.1, ← chars_eq_iff h, typed_events,
        idealFrom_concat]
      refine ⟨?_, ?_⟩
      · intro heq
        exact List.append_inj' heq hlen
      · intro heq
        exact congrArg₂ _ heq.1 heq.2

/-- The letter A with one shift key down. -/
theorem typed_eq_ideal_iff_letter :
    Keys.initial.typed ([.press 0x2A, .press 0x1E].map KeyEvent.scancode) =
        idealFrom ∅ [.press 0x2A, .press 0x1E] ↔
      AtEach (fun pre e => ∀ key, e = .press key → Differs key → ¬ Stale pre)
        [.press 0x2A, .press 0x1E] := by
  have hshift : Physical [.press 0x2A] :=
    Physical.nil.press (by decide) (by decide) (by decide)
  exact typed_eq_ideal_iff _ (hshift.press (by decide) (by decide) (by decide))

/-- Both shift keys go down, the left one goes up, and then A is pressed. -/
def staleLetter : List KeyEvent :=
  [.press 0x2A, .press 0x36, .release 0x2A, .press 0x1E]

/-- The handler pushes an `a`, and the ideal decoder has an `A`. -/
theorem not_typed_eq_ideal_stale : Physical staleLetter ∧
    Keys.initial.typed (staleLetter.map KeyEvent.scancode) ≠
      idealFrom ∅ staleLetter := by
  have hleft : Physical [.press 0x2A] :=
    Physical.nil.press (by decide) (by decide) (by decide)
  have hboth : Physical [.press 0x2A, .press 0x36] :=
    hleft.press (by decide) (by decide) (by decide)
  have hright : Physical [.press 0x2A, .press 0x36, .release 0x2A] :=
    hboth.release (by decide)
  exact ⟨hright.press (by decide) (by decide) (by decide), by decide⟩

end TermOS.Console
