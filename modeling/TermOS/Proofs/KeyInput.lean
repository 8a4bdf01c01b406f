import TermOS.Proofs.KeyboardFifo
import TermOS.Proofs.LineEditing
import TermOS.Ref.KeyInput

/-!
# What is typed is what is read

The characters that came into the ring are those that the reader has received
and, behind them, those that the ring holds. That lasts over every step of the
reader and every interrupt, wherever it comes, and so does the line that the
characters received make. When an interrupt comes, the reader left to itself
receives all of the ring, or up to a newline. One moment is different: an
interrupt between an empty read and the `hlt` behind it does not end that
`hlt`, and its character waits for the next interrupt.
-/

namespace TermOS.Console

open TermOS.Lib

namespace KeyInput

def Event.heard (keys : Keys) : Event → List UInt8
  | .key scancode _ dropped =>
      if dropped then [] else (pushed keys scancode).toList
  | _ => []

def Event.keys (keys : Keys) : Event → Keys
  | .key scancode _ _ => (keys.irq1Handler scancode).1
  | _ => keys

/-- The characters that come into the ring. -/
def heard (keys : Keys) : List Event → List UInt8
  | [] => []
  | e :: es => e.heard keys ++ heard (e.keys keys) es

def Event.IsInterrupt : Event → Prop
  | .read => False
  | _ => True

def consumer : ReadPoint → Consumer UInt8
  | .pop k => k
  | _ => .idle

/-- The reader has received `received`, and the ring holds `rest`. -/
structure Reads (m : KeyInput) (received rest : List UInt8) : Prop where
  queue : HoldsQueue ⟨m.kbd, consumer m.point⟩ ⟨rest, consumer m.point⟩
  consistent : Queue.Consistent ⟨rest, consumer m.point⟩
  nonzero : 0 ∉ rest
  line : m.point ≠ .ended → newline ∉ received ∧
    CString.firstBytes m.buffer m.i = typed received
  ended : m.point = .ended → ∃ ks, received = ks ++ [newline] ∧
    newline ∉ ks ∧ CString.firstBytes m.buffer m.i = typed ks ∧
    m.buffer m.i = 0

theorem consumer_wake (p : ReadPoint) : consumer (wake p) = consumer p := by
  cases p <;> rfl

theorem wake_eq_ended_iff (p : ReadPoint) : wake p = .ended ↔ p = .ended := by
  cases p <;> simp [wake]

theorem view_keys (v : View) (scancode : UInt8) (beyond : Int → UInt16) :
    (v.irq1Handler scancode beyond).keys = (v.keys.irq1Handler scancode).1 := by
  rw [View.irq1Handler]
  split <;> rfl

/-- The key of a character, or a backspace. -/
theorem firstBytes_key {s : LineInput} {line : List UInt8}
    (h : CString.firstBytes s.buffer s.i = line) (c : UInt8) :
    CString.firstBytes (s.key c).buffer (s.key c).i = typedKey line c := by
  rw [LineInput.key, typedKey]
  by_cases hback : c = backspace
  · rw [if_pos hback, if_pos hback, ← h]
    by_cases hi : s.i > 0
    · rw [if_pos hi]
      obtain ⟨n, hn⟩ : ∃ n, s.i = n + 1 := ⟨s.i - 1, by omega⟩
      show CString.firstBytes s.buffer (s.i - 1) = _
      rw [hn, CString.firstBytes_succ, List.dropLast_concat]
      rfl
    · rw [if_neg hi, show s.i = 0 by omega]
      rfl
  · rw [if_neg hback, if_neg hback, ← h]
    exact CString.firstBytes_push _ _ _

namespace Reads

variable {m m' : KeyInput} {received rest : List UInt8}

/-! ## Interrupts -/

theorem timer (h : Reads m received rest) :
    Reads { m with point := wake m.point } received rest where
  queue := by
    show HoldsQueue ⟨m.kbd, consumer (wake m.point)⟩ _
    rw [consumer_wake]
    exact h.queue
  consistent := by
    show Queue.Consistent ⟨rest, consumer (wake m.point)⟩
    rw [consumer_wake]
    exact h.consistent
  nonzero := h.nonzero
  line := fun hp => h.line (mt (wake_eq_ended_iff _).2 hp)
  ended := fun hp => h.ended ((wake_eq_ended_iff _).1 hp)

theorem pushed_ne_zero {keys : Keys} {scancode c : UInt8}
    (h : pushed keys scancode = some c) : c ≠ 0 := by
  rw [pushed] at h
  split at h
  · next hpush =>
      cases h
      have hpair : keys.irq1Handler scancode =
          ((keys.irq1Handler scancode).1, .push c) := Prod.ext rfl hpush
      have hpos := (pushed_of_irq1Handler hpair).1
      rintro rfl
      exact absurd hpos (by decide)
  · cases h

/-- A character goes to the far end of the ring, unless the ring is full. -/
theorem push (h : Reads m received rest) (c : UInt8) (hc : c ≠ 0) :
    Reads { m with kbd := m.kbd.push c } received
      (rest ++ if m.kbd.accepts then [c] else []) := by
  have hstep : Machine.Step ⟨m.kbd, consumer m.point⟩
      (.push c m.kbd.accepts) ⟨m.kbd.push c, consumer m.point⟩ := ⟨rfl, rfl⟩
  obtain ⟨q, hq, hholds⟩ := h.queue.step h.consistent hstep
  have hconsistent := h.consistent.step hq
  have hitems : q = ⟨rest ++ if m.kbd.accepts then [c] else [],
      consumer m.point⟩ := by
    cases haccepts : m.kbd.accepts with
    | true =>
        rw [haccepts] at hq
        exact hq.2
    | false =>
        rw [haccepts] at hq
        rw [hq.2]
        simp
  rw [hitems] at hholds hconsistent
  refine ⟨hholds, hconsistent, ?_, h.line, h.ended⟩
  intro hzero
  rcases List.mem_append.1 hzero with hzero | hzero
  · exact h.nonzero hzero
  · split at hzero
    · exact hc (List.mem_singleton.1 hzero).symm
    · cases hzero

theorem key (h : Reads m received rest) (scancode : UInt8)
    (beyond : Int → UInt16) :
    Reads (m.key scancode beyond) received
      (rest ++ if ((pushed m.view.keys scancode).isSome &&
        !m.kbd.accepts) then [] else (pushed m.view.keys scancode).toList) := by
  rw [KeyInput.key]
  cases hc : pushed m.view.keys scancode with
  | none =>
      simp only [Option.isSome_none, Bool.false_and, Option.toList_none,
        ite_self, List.append_nil]
      exact { h.timer with }
  | some c =>
      have hpush := (h.push c (pushed_ne_zero hc)).timer
      cases haccepts : m.kbd.accepts with
      | true =>
          rw [haccepts] at hpush
          exact { hpush with }
      | false =>
          rw [haccepts] at hpush
          exact { hpush with }

/-! ## The reader -/

theorem check_empty (h : Reads m received [])
    (hp : m.point = .pop .idle) :
    m.advance = some { m with point := .halt } ∧
      Reads { m with point := .halt } received [] := by
  have hqueue := h.queue
  have hconsistent := h.consistent
  rw [hp] at hqueue hconsistent
  have hring : m.kbd.head = m.kbd.tail := hqueue.empty_iff.2 rfl
  refine ⟨?_, hqueue, hconsistent, h.nonzero, fun _ => h.line ?_, ?_⟩
  · rw [advance, hp]
    exact if_pos hring
  · rw [hp]
    exact ReadPoint.noConfusion
  · exact ReadPoint.noConfusion

theorem check_cons {c : UInt8} (h : Reads m received (c :: rest))
    (hp : m.point = .pop .idle) :
    m.advance = some { m with point := .pop .checked } ∧
      Reads { m with point := .pop .checked } received (c :: rest) := by
  have hqueue := h.queue
  rw [hp] at hqueue
  have hring : m.kbd.head ≠ m.kbd.tail := fun heq =>
    absurd (hqueue.empty_iff.1 heq) (List.cons_ne_nil _ _)
  refine ⟨?_, ⟨hqueue.tail, hqueue.head, hqueue.length, hqueue.items, rfl⟩,
    List.cons_ne_nil _ _, h.nonzero, fun _ => h.line ?_, ?_⟩
  · rw [advance, hp]
    exact if_neg hring
  · rw [hp]
    exact ReadPoint.noConfusion
  · exact ReadPoint.noConfusion

theorem read (h : Reads m received rest) (hp : m.point = .pop .checked) :
    ∃ c, m.advance = some { m with point := .pop (.read c) } ∧
      Reads { m with point := .pop (.read c) } received rest := by
  have hqueue := h.queue
  have hconsistent := h.consistent
  rw [hp] at hqueue hconsistent
  obtain ⟨c, rest', hrest⟩ := List.exists_cons_of_ne_nil
    (show rest ≠ [] from hconsistent)
  have hfirst : m.kbd.buffer m.kbd.tail = c := (hqueue.cons hrest).1
  refine ⟨c, ?_, ⟨hqueue.tail, hqueue.head, hqueue.length, hqueue.items, rfl⟩,
    ⟨rest', hrest⟩, h.nonzero, fun _ => h.line ?_, ?_⟩
  · rw [advance, hp, ← hfirst]
  · rw [hp]
    exact ReadPoint.noConfusion
  · exact ReadPoint.noConfusion

/-- A character is received. -/
theorem release {c : UInt8} (h : Reads m received rest)
    (hp : m.point = .pop (.read c)) :
    ∃ rest', rest = c :: rest' ∧
      m.advance = some (receive { m with kbd := m.kbd.advance } c) ∧
      Reads (receive { m with kbd := m.kbd.advance } c) (received ++ [c])
        rest' ∧
      (receive { m with kbd := m.kbd.advance } c).point =
        if c = newline then .ended else .pop .idle := by
  have hqueue := h.queue
  have hconsistent := h.consistent
  rw [hp] at hqueue hconsistent
  obtain ⟨rest', hrest⟩ : ∃ rest', rest = c :: rest' := hconsistent
  obtain ⟨-, hafter⟩ := hqueue.cons hrest
  obtain ⟨hnew, hbytes⟩ := h.line (by rw [hp]; exact ReadPoint.noConfusion)
  have hzero : c ≠ 0 := by
    rintro rfl
    exact h.nonzero (hrest ▸ List.mem_cons_self ..)
  have hnonzero : 0 ∉ rest' := fun hmem =>
    h.nonzero (hrest ▸ List.mem_cons_of_mem _ hmem)
  have hadvance : m.advance =
      some (receive { m with kbd := m.kbd.advance } c) := by
    rw [advance, hp]
  refine ⟨rest', hrest, hadvance, ?_⟩
  rw [receive, if_neg hzero]
  by_cases hc : c = newline
  · simp only [if_pos hc]
    refine ⟨⟨hafter, trivial, hnonzero, fun hne => absurd rfl hne,
      fun _ => ⟨received, by rw [hc], hnew, ?_, ?_⟩⟩, trivial⟩
    · exact (CString.firstBytes_update _ _ _).trans hbytes
    · exact Function.update_self _ _ _
  · simp only [if_neg hc]
    refine ⟨⟨hafter, trivial, hnonzero, fun _ => ⟨?_, ?_⟩,
      ReadPoint.noConfusion⟩, trivial⟩
    · intro hmem
      rcases List.mem_append.1 hmem with hmem | hmem
      · exact hnew hmem
      · exact hc (List.mem_singleton.1 hmem).symm
    · rw [LineInput.typed_concat]
      exact firstBytes_key (s := ⟨m.buffer, m.i, m.view.term⟩) hbytes c

theorem halt (h : Reads m received rest) (hp : m.point = .halt) :
    m.advance = some { m with point := .halted } ∧
      Reads { m with point := .halted } received rest := by
  have hqueue := h.queue
  have hconsistent := h.consistent
  rw [hp] at hqueue hconsistent
  refine ⟨by rw [advance, hp], hqueue, hconsistent, h.nonzero,
    fun _ => h.line (by rw [hp]; exact ReadPoint.noConfusion),
    ReadPoint.noConfusion⟩

/-! ## A run -/

theorem keys_advance (h : m.advance = some m') : m'.view.keys = m.view.keys := by
  rw [advance] at h
  split at h
  · split at h <;> cases h <;> rfl
  · cases h
    rfl
  · cases h
    rw [receive]
    split <;> rfl
  · cases h
    rfl
  · cases h
  · cases h

/-- Whatever comes next. -/
theorem step {e : Event} (h : Reads m received rest) (hstep : Step m e m') :
    ∃ received' rest', Reads m' received' rest' ∧
      received' ++ rest' = received ++ rest ++ e.heard m.view.keys ∧
      m'.view.keys = e.keys m.view.keys := by
  cases e with
  | key scancode beyond dropped =>
      obtain ⟨rfl, rfl⟩ := hstep
      exact ⟨_, _, h.key scancode beyond, (List.append_assoc ..).symm,
        view_keys _ _ _⟩
  | timer =>
      obtain rfl := hstep
      exact ⟨_, _, h.timer, (List.append_nil _).symm, rfl⟩
  | read =>
      have hstep : m.advance = some m' := hstep
      refine (?_ : ∃ received' rest', Reads m' received' rest' ∧
        received' ++ rest' = received ++ rest ++ [] ∧
        m'.view.keys = m.view.keys)
      rw [List.append_nil]
      have hkeys := keys_advance hstep
      cases hp : m.point with
      | pop k =>
          cases k with
          | idle =>
              cases rest with
              | nil =>
                  obtain ⟨hnext, hreads⟩ := h.check_empty hp
                  obtain rfl := Option.some.inj (hnext.symm.trans hstep)
                  exact ⟨_, _, hreads, rfl, hkeys⟩
              | cons c rest =>
                  obtain ⟨hnext, hreads⟩ := h.check_cons hp
                  obtain rfl := Option.some.inj (hnext.symm.trans hstep)
                  exact ⟨_, _, hreads, rfl, hkeys⟩
          | checked =>
              obtain ⟨c, hnext, hreads⟩ := h.read hp
              obtain rfl := Option.some.inj (hnext.symm.trans hstep)
              exact ⟨_, _, hreads, rfl, hkeys⟩
          | read c =>
              obtain ⟨rest', rfl, hnext, hreads, -⟩ := h.release hp
              obtain rfl := Option.some.inj (hnext.symm.trans hstep)
              exact ⟨_, _, hreads, List.append_cons .. |>.symm, hkeys⟩
      | halt =>
          obtain ⟨hnext, hreads⟩ := h.halt hp
          obtain rfl := Option.some.inj (hnext.symm.trans hstep)
          exact ⟨_, _, hreads, rfl, hkeys⟩
      | halted =>
          rw [advance, hp] at hstep
          cases hstep
      | ended =>
          rw [advance, hp] at hstep
          cases hstep

theorem run {es : List Event} (h : Reads m received rest)
    (hrun : Trace Step m es m') :
    ∃ received' rest', Reads m' received' rest' ∧
      received' ++ rest' = received ++ rest ++ heard m.view.keys es := by
  induction hrun generalizing received rest with
  | nil m => exact ⟨_, _, h, (List.append_nil _).symm⟩
  | cons head _ ih =>
      obtain ⟨received₁, rest₁, h₁, hchars₁, hkeys⟩ := h.step head
      obtain ⟨received₂, rest₂, h₂, hchars₂⟩ := ih h₁
      refine ⟨_, _, h₂, ?_⟩
      rw [hchars₂, hchars₁, hkeys, heard, List.append_assoc]

/-! ## Left to itself -/

/-- The steps that the reader takes to the next character at most. -/
def stage : ReadPoint → Nat
  | .pop .idle => 2
  | .pop .checked => 1
  | _ => 0

/-- From inside `kbd_pop` the reader comes to the end of the line, or to its
`hlt` with an empty ring. -/
theorem settles (h : Reads m received rest) (hp : ∃ k, m.point = .pop k) :
    ∃ n m' received' rest', Trace Step m (List.replicate n .read) m' ∧
      Reads m' received' rest' ∧ received' ++ rest' = received ++ rest ∧
      (m'.point = .ended ∨ m'.point = .halted ∧ rest' = []) := by
  induction hsize : 3 * rest.length + stage m.point using Nat.strong_induction_on
    generalizing m received rest with
  | h size ih =>
      subst hsize
      obtain ⟨k, hp⟩ := hp
      cases k with
      | idle =>
          cases rest with
          | nil =>
              obtain ⟨hnext, hreads⟩ := h.check_empty hp
              obtain ⟨hnext', hreads'⟩ := hreads.halt rfl
              exact ⟨2, _, _, _, .cons hnext (.cons hnext' (.nil _)), hreads',
                rfl, .inr ⟨rfl, rfl⟩⟩
          | cons c rest =>
              obtain ⟨hnext, hreads⟩ := h.check_cons hp
              obtain ⟨n, m', received', rest', hrun, hafter⟩ :=
                ih _ (by rw [hp]; simp [stage]) hreads ⟨_, rfl⟩ rfl
              exact ⟨n + 1, m', received', rest', .cons hnext hrun, hafter⟩
      | checked =>
          obtain ⟨c, hnext, hreads⟩ := h.read hp
          obtain ⟨n, m', received', rest', hrun, hafter⟩ :=
            ih _ (by rw [hp]; simp [stage]) hreads ⟨_, rfl⟩ rfl
          exact ⟨n + 1, m', received', rest', .cons hnext hrun, hafter⟩
      | read c =>
          obtain ⟨rest₁, rfl, hnext, hreads, hpoint⟩ := h.release hp
          by_cases hc : c = newline
          · rw [if_pos hc] at hpoint
            exact ⟨1, _, _, _, .cons hnext (.nil _), hreads,
              List.append_cons .. |>.symm, .inl hpoint⟩
          · rw [if_neg hc] at hpoint
            obtain ⟨n, m', received', rest', hrun, hafter, hchars, hend⟩ :=
              ih _ (by rw [hpoint, hp]; simp [stage]; omega) hreads
                ⟨_, hpoint⟩ rfl
            refine ⟨n + 1, m', received', rest', .cons hnext hrun, hafter, ?_,
              hend⟩
            rw [hchars]
            exact (List.append_cons ..).symm

end Reads

variable {view : View} {kbd : Kbd} {buffer : Nat → UInt8} {es : List Event}
  {m : KeyInput} {queued : List UInt8}

theorem reads_start (hring : HoldsQueue ⟨kbd, .idle⟩ ⟨queued, .idle⟩)
    (hqueued : 0 ∉ queued) : Reads (start view kbd buffer) [] queued where
  queue := hring
  consistent := trivial
  nonzero := hqueued
  line _ := ⟨List.not_mem_nil, rfl⟩
  ended := ReadPoint.noConfusion

theorem point_interrupt {m₁ : KeyInput} {e : Event} (he : e.IsInterrupt)
    (hstep : Step m e m₁) : m₁.point = wake m.point := by
  cases e with
  | key scancode beyond dropped =>
      obtain ⟨-, rfl⟩ := hstep
      rfl
  | timer =>
      obtain rfl := hstep
      rfl
  | read => cases he

/-- `>> buffer` is called with characters already in the ring, and keys and
timer ticks come between any two of its steps. When it has ended, it has read
the characters that came into the ring up to the first newline: the buffer has
the line that they make, and the ring has the rest. And wherever the reader is,
but for the moment behind an empty read: when an interrupt has come, it goes on
by itself to the end of the line, if a newline has come, and else to its `hlt`
with all characters received. -/
theorem line_of_keys (hring : HoldsQueue ⟨kbd, .idle⟩ ⟨queued, .idle⟩)
    (hqueued : 0 ∉ queued)
    (hrun : Trace Step (start view kbd buffer) es m) :
    (m.point = .ended → ∃ ks rest,
      queued ++ heard view.keys es = ks ++ newline :: rest ∧ newline ∉ ks ∧
        CString.firstBytes m.buffer m.i = typed ks ∧ m.buffer m.i = 0 ∧
        HoldsQueue ⟨m.kbd, .idle⟩ ⟨rest, .idle⟩) ∧
    (m.point ≠ .halt → ∀ e m₁, e.IsInterrupt → Step m e m₁ →
      ∃ n m₂, Trace Step m₁ (List.replicate n .read) m₂ ∧
        if newline ∈ queued ++ heard view.keys (es ++ [e]) then
          m₂.point = .ended
        else
          m₂.point = .halted ∧ CString.firstBytes m₂.buffer m₂.i =
            typed (queued ++ heard view.keys (es ++ [e]))) := by
  obtain ⟨received, rest, hreads, hchars⟩ :=
    (reads_start hring hqueued).run hrun
  rw [List.nil_append] at hchars
  refine ⟨fun hend => ?_, fun hhalt e m₁ he hstep => ?_⟩
  · obtain ⟨ks, rfl, hnew, hbytes, hzero⟩ := hreads.ended hend
    have hqueue := hreads.queue
    rw [hend] at hqueue
    refine ⟨ks, rest, ?_, hnew, hbytes, hzero, hqueue⟩
    rw [← show _ = queued ++ heard view.keys es from hchars,
      List.append_assoc]
    rfl
  · obtain ⟨received₁, rest₁, hreads₁, hchars₁⟩ :=
      (reads_start hring hqueued).run (Trace.append_iff.2
        ⟨m, hrun, .cons hstep (.nil _)⟩)
    rw [List.nil_append, show (start view kbd buffer).view = view from rfl]
      at hchars₁
    have hpoint : (∃ k, m₁.point = .pop k) ∨ m₁.point = .ended := by
      rw [point_interrupt he hstep]
      cases hp : m.point with
      | pop k => exact .inl ⟨k, rfl⟩
      | halt => exact absurd hp hhalt
      | halted => exact .inl ⟨.idle, rfl⟩
      | ended => exact .inr rfl
    obtain ⟨n, m₂, received₂, rest₂, hrun₂, hreads₂, hchars₂, hend⟩ :
        ∃ n m₂ received₂ rest₂, Trace Step m₁ (List.replicate n .read) m₂ ∧
          Reads m₂ received₂ rest₂ ∧ received₂ ++ rest₂ = received₁ ++ rest₁ ∧
          (m₂.point = .ended ∨ m₂.point = .halted ∧ rest₂ = []) := by
      rcases hpoint with hpop | hend
      · exact hreads₁.settles hpop
      · exact ⟨0, _, _, _, .nil _, hreads₁, rfl, .inl hend⟩
    refine ⟨n, m₂, hrun₂, ?_⟩
    rw [← hchars₁, ← hchars₂]
    rcases hend with hend | ⟨hhalted, rfl⟩
    · obtain ⟨ks, rfl, -⟩ := hreads₂.ended hend
      rw [if_pos (by simp)]
      exact hend
    · have hne : m₂.point ≠ .ended := by
        rw [hhalted]
        exact ReadPoint.noConfusion
      obtain ⟨hnew, hbytes⟩ := hreads₂.line hne
      rw [List.append_nil, if_neg hnew]
      exact ⟨hhalted, hbytes⟩

/-- Return is pressed behind an empty read. The reader halts all the same, and
the timer has it go on to the end of the line. -/
theorem line_of_keys_late : ∃ m m₁ n m₂,
    Trace Step (start (View.start ⟨fun _ => 0, 0, 0, 0, 0⟩) .initial fun _ => 0)
      [.read, .key 0x1C (fun _ => 0) false, .read] m ∧
    m.point = .halted ∧ Step m .timer m₁ ∧
    Trace Step m₁ (List.replicate n .read) m₂ ∧ m₂.point = .ended := by
  obtain ⟨m, hrun, hhalted⟩ : ∃ m,
      Trace Step
        (start (View.start ⟨fun _ => 0, 0, 0, 0, 0⟩) .initial fun _ => 0)
        [.read, .key 0x1C (fun _ => 0) false, .read] m ∧ m.point = .halted :=
    ⟨_, .cons rfl (.cons ⟨rfl, rfl⟩ (.cons rfl (.nil _))), rfl⟩
  obtain ⟨n, m₂, hrun₂, hend⟩ := (line_of_keys HoldsQueue.initial
    List.not_mem_nil hrun).2 (by rw [hhalted]; exact ReadPoint.noConfusion)
    .timer _ trivial rfl
  exact ⟨m, _, n, m₂, hrun, hhalted, rfl, hrun₂, hend⟩

end KeyInput

end TermOS.Console
