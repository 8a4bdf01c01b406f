import TermOS.Ref.Keyboard

/-!
# The keyboard ring is a queue

The ring of 256 cells holds the queue of the characters between `kbd_tail` and
`kbd_head`. One cell stays empty, so that a full ring and an empty one are
told apart, and that makes it a queue of at most 255. `kbd_push` writes only
the cell at `kbd_head`, which is none of the queue, and the consumer moves
only `kbd_tail`: a push between two steps of `kbd_pop` makes the queue longer
at the far end.
-/

namespace TermOS.Console

open TermOS.Lib

/-! ## What the handler pushes -/

theorem keys_char_lt (k : Keys) (scancode : UInt8) :
    (k.char scancode).toNat < 128 := by
  have htable : [kbdUs, kbdUsShift].all
      (fun t => t.all fun c => decide (c.toNat < 128)) = true := by decide
  simp only [List.all_eq_true, decide_eq_true_eq] at htable
  rw [Keys.char]
  have hgetD : ∀ (t : List UInt8), (∀ c ∈ t, c.toNat < 128) →
      (t.getD scancode.toNat 0).toNat < 128 := by
    intro t ht
    rw [List.getD_eq_getElem?_getD]
    cases hget : t[scancode.toNat]? with
    | none => exact Nat.succ_pos _
    | some c => exact ht c (List.mem_of_getElem? hget)
  split
  · exact hgetD _ (htable _ (by simp))
  · exact hgetD _ (htable _ (by simp))

/-- `irq1_handler` pushes characters from 1 to 127. -/
theorem pushed_of_irq1Handler {k k' : Keys} {scancode c : UInt8}
    (h : k.irq1Handler scancode = (k', .push c)) : 0 < c.toNat ∧ c.toNat < 128 := by
  rw [Keys.irq1Handler] at h
  simp only at h
  split at h
  · cases h
  · split at h
    · cases h
    · split at h
      · split at h
        · cases h
        · split at h
          · next hpos =>
              obtain ⟨-, hc⟩ := Prod.mk.inj h
              obtain rfl := KeyAction.push.inj hc
              refine ⟨Nat.pos_of_ne_zero fun hzero => ?_, keys_char_lt _ _⟩
              have hchar : (k.track scancode).char scancode = 0 :=
                UInt8.toNat_inj.1 hzero
              rw [hchar] at hpos
              exact absurd hpos (by decide)
          · cases h
      · cases h

/-! ## The queue in the ring -/

/-- `kbd_pop` is its three steps, when nothing comes in between. -/
theorem pop_steps (k : Kbd) :
    (k.head = k.tail ∧ Trace Machine.Step ⟨k, .idle⟩ [.check true] ⟨k, .idle⟩ ∧
        k.pop = (0, k)) ∨
      (k.head ≠ k.tail ∧ Trace Machine.Step ⟨k, .idle⟩
        [.check false, .read, .release k.pop.1] ⟨k.pop.2, .idle⟩) := by
  by_cases h : k.head = k.tail
  · refine .inl ⟨h, .cons ⟨rfl, ?_, rfl⟩ (.nil _), if_pos h⟩
    simp [h]
  · refine .inr ⟨h, ?_⟩
    rw [Kbd.pop, if_neg h]
    refine .cons ⟨rfl, ?_, rfl⟩ (.cons ⟨rfl, rfl⟩ (.cons ⟨rfl, rfl⟩ (.nil _)))
    simp [h]

/-- The ring holds the queue, and the consumers are at the same place. -/
structure HoldsQueue (m : Machine) (q : Queue UInt8) : Prop where
  tail : m.kbd.tail.toNat < 256
  head : m.kbd.head.toNat = (m.kbd.tail.toNat + q.items.length) % 256
  length : q.items.length < 256
  items : ringItems 256 (fun i => m.kbd.buffer (UInt32.ofNat i))
    m.kbd.tail.toNat q.items.length = q.items
  consumer : m.consumer = q.consumer

theorem toNat_succ_mod (x : UInt32) (h : x.toNat < 256) :
    ((x + 1) % 256).toNat = (x.toNat + 1) % 256 := by
  have hadd : (x + 1).toNat = x.toNat + 1 := by
    rw [UInt32.toNat_add]
    show (x.toNat + 1) % 2 ^ 32 = x.toNat + 1
    omega
  rw [UInt32.toNat_mod, hadd]
  rfl

namespace HoldsQueue

variable {m m' : Machine} {q : Queue UInt8} {c : UInt8}

theorem head_lt (h : HoldsQueue m q) : m.kbd.head.toNat < 256 := by
  rw [h.head]
  exact Nat.mod_lt _ (by decide)

theorem empty_iff (h : HoldsQueue m q) :
    m.kbd.head = m.kbd.tail ↔ q.items = [] := by
  rw [← UInt32.toNat_inj, h.head, ring_index_eq_iff h.tail h.length,
    List.length_eq_zero_iff]

theorem accepts_iff (h : HoldsQueue m q) :
    m.kbd.accepts = true ↔ q.items.length < 255 := by
  have htail := h.tail
  have hlen := h.length
  have hsucc := toNat_succ_mod m.kbd.head h.head_lt
  rw [h.head] at hsucc
  rw [Kbd.accepts, bne_iff_ne, Ne, ← UInt32.toNat_inj, hsucc]
  omega

/-- A character that is accepted is the last of the queue. -/
theorem push (h : HoldsQueue m q) (haccepts : m.kbd.accepts = true) (c : UInt8) :
    HoldsQueue { m with kbd := m.kbd.push c } { q with items := q.items ++ [c] } := by
  have hlen := h.accepts_iff.1 haccepts
  have hhead := toNat_succ_mod m.kbd.head h.head_lt
  have hcells : ∀ i < 256, Function.update m.kbd.buffer m.kbd.head c
      (UInt32.ofNat i) = Function.update (fun i => m.kbd.buffer (UInt32.ofNat i))
        ((m.kbd.tail.toNat + q.items.length) % 256) c i := by
    intro i hi
    rw [← h.head]
    by_cases hih : i = m.kbd.head.toNat
    · rw [hih, UInt32.ofNat_toNat, Function.update_self, Function.update_self]
    · have hne : UInt32.ofNat i ≠ m.kbd.head := by
        intro heq
        rw [← heq, UInt32.toNat_ofNat'] at hih
        omega
      rw [Function.update_of_ne hne, Function.update_of_ne hih]
  constructor
  case tail =>
    rw [Kbd.push, if_pos haccepts]
    exact h.tail
  case head =>
    simp only [Kbd.push, if_pos haccepts, hhead, h.head, List.length_append,
      List.length_singleton]
    omega
  case length =>
    rw [List.length_append, List.length_singleton]
    omega
  case items =>
    simp only [Kbd.push, if_pos haccepts, List.length_append,
      List.length_singleton]
    rw [ringItems_congr (by decide) hcells, ringItems_push h.length, h.items]
  case consumer => exact h.consumer

/-- The character at `kbd_tail` is the first of the queue, and behind it lies
the rest. -/
theorem cons {rest : List UInt8} (h : HoldsQueue m q)
    (hitems : q.items = c :: rest) : m.kbd.buffer m.kbd.tail = c ∧
      HoldsQueue ⟨m.kbd.advance, .idle⟩ ⟨rest, .idle⟩ := by
  have hlen := h.length
  have hcells := h.items
  have hhead := h.head
  have htail := toNat_succ_mod m.kbd.tail h.tail
  rw [hitems, List.length_cons] at hlen hcells hhead
  rw [ringItems_pop, List.cons.injEq, Nat.mod_eq_of_lt h.tail,
    UInt32.ofNat_toNat] at hcells
  refine ⟨hcells.1, ?_, ?_, Nat.lt_of_succ_lt hlen, ?_, rfl⟩
  · rw [Kbd.advance, htail]
    exact Nat.mod_lt _ (by decide)
  · simp only [Kbd.advance, htail, hhead]
    omega
  · simp only [Kbd.advance, htail]
    exact hcells.2

/-- What the ring does, a queue of at most 255 does. -/
theorem step {k : QueueEvent UInt8} (h : HoldsQueue m q) (hq : q.Consistent)
    (hstep : m.Step k m') : ∃ q', q.Step 255 k q' ∧ HoldsQueue m' q' := by
  cases k with
  | push c ok =>
      obtain ⟨hok, rfl⟩ := hstep
      cases ok with
      | true => exact ⟨_, ⟨h.accepts_iff.1 hok.symm, rfl⟩, h.push hok.symm c⟩
      | false =>
          have hfull : ¬ m.kbd.accepts = true := by rw [← hok]; decide
          have hlen := mt h.accepts_iff.2 hfull
          have hlt := h.length
          refine ⟨q, ⟨by omega, rfl⟩, ?_⟩
          rw [Kbd.push, if_neg hfull]
          exact h
  | check empty =>
      obtain ⟨hidle, hempty, rfl⟩ := hstep
      cases empty with
      | true =>
          have hnil := h.empty_iff.1 (beq_iff_eq.1 hempty.symm)
          exact ⟨q, ⟨h.consumer ▸ hidle, hnil, rfl⟩, h⟩
      | false =>
          have hne := mt h.empty_iff.2 (beq_eq_false_iff_ne.1 hempty.symm)
          exact ⟨{ q with consumer := .checked },
            ⟨h.consumer ▸ hidle, hne, rfl⟩,
            ⟨h.tail, h.head, h.length, h.items, rfl⟩⟩
  | read =>
      obtain ⟨hchecked, rfl⟩ := hstep
      rw [h.consumer] at hchecked
      rw [Queue.Consistent, hchecked] at hq
      obtain ⟨c, rest, hitems⟩ := List.exists_cons_of_ne_nil hq
      refine ⟨{ q with consumer := .read c },
        ⟨hchecked, c, rest, hitems, rfl⟩, h.tail, h.head, h.length, h.items, ?_⟩
      rw [(h.cons hitems).1]
  | release c =>
      obtain ⟨hread, rfl⟩ := hstep
      rw [h.consumer] at hread
      rw [Queue.Consistent, hread] at hq
      obtain ⟨rest, hitems⟩ := hq
      exact ⟨⟨rest, .idle⟩, ⟨hread, rest, hitems, rfl⟩, (h.cons hitems).2⟩

theorem initial : HoldsQueue .initial (.empty : Queue UInt8) :=
  ⟨by decide, rfl, by decide, rfl, rfl⟩

/-- The ring after any run, and the queue it holds. -/
theorem run {ks : List (QueueEvent UInt8)}
    (h : Trace Machine.Step .initial ks m) : ∃ q,
      Trace (Queue.Step 255) .empty ks q ∧ HoldsQueue m q ∧ q.Consistent := by
  refine h.simulate (R := fun m q => HoldsQueue m q ∧ q.Consistent) ?_
    ⟨initial, trivial⟩
  intro m q k m' hmq hstep
  obtain ⟨q', hq', hm'⟩ := hmq.1.step hmq.2 hstep
  exact ⟨q', hq', hm', hmq.2.step hq'⟩

end HoldsQueue

/-- Every character that was pushed is one that `irq1_handler` pushes. -/
def PushedByHandler (ks : List (QueueEvent UInt8)) : Prop :=
  ∀ c ok, .push c ok ∈ ks → ∃ k k' scancode,
    Keys.irq1Handler k scancode = (k', .push c)

/-- The keyboard ring is a lossless queue of 255. After any interleaving of
pushes with the steps of a consumer, the indices are in range and what was
popped is what was accepted first; then a push is dropped only if 255 accepted
characters have not been released, a pop that finds nothing has everything
accepted released, and, if `irq1_handler` did the pushes, no other pop returns
a zero. -/
theorem kbd_fifo {ks : List (QueueEvent UInt8)} {m : Machine}
    (hrun : Trace Machine.Step .initial ks m) :
    m.kbd.head.toNat < 256 ∧ m.kbd.tail.toNat < 256 ∧
      released ks <+: accepted ks ∧
      (∀ c m', m.Step (.push c false) m' →
        (accepted ks).length = (released ks).length + 255) ∧
      (∀ m', m.Step (.check true) m' → accepted ks = released ks) ∧
      (PushedByHandler ks → ∀ m', ¬ m.Step (.release 0) m') := by
  obtain ⟨q, hq, hm, hconsistent⟩ := HoldsQueue.run hrun
  have haccount : accepted ks = released ks ++ q.items := by
    simpa [Queue.empty] using Queue.account hq
  refine ⟨hm.head_lt, hm.tail, ⟨q.items, haccount.symm⟩, ?_, ?_, ?_⟩
  · intro c m' hpush
    have hfull := mt hm.accepts_iff.2 (by rw [← hpush.1]; decide)
    have hlen := hm.length
    rw [haccount, List.length_append]
    omega
  · intro m' hcheck
    have hnil := hm.empty_iff.1 (beq_iff_eq.1 hcheck.2.1.symm)
    rw [haccount, hnil, List.append_nil]
  · intro hpushed m' hrelease
    have hread := hm.consumer.symm.trans hrelease.1
    rw [Queue.Consistent, hread] at hconsistent
    obtain ⟨rest, hitems⟩ := hconsistent
    have hmem : 0 ∈ accepted ks := by
      rw [haccount, hitems]
      exact List.mem_append_right _ List.mem_cons_self
    obtain ⟨k, k', scancode, hirq⟩ := hpushed 0 true (mem_accepted.1 hmem)
    exact absurd (pushed_of_irq1Handler hirq).1 (Nat.lt_irrefl 0)

/-- An `a` that arrives between the check and the read of a pop of an `l`. -/
theorem kbd_fifo_interrupted : ∃ m : Machine,
    Trace Machine.Step .initial [.push 0x6C true, .check false, .push 0x61 true,
        .read, .release 0x6C] m ∧
      m.kbd.head.toNat < 256 ∧ m.kbd.tail.toNat < 256 ∧
      ([0x6C] : List UInt8) <+: [0x6C, 0x61] := by
  have hrun : ∃ m : Machine, Trace Machine.Step .initial [.push 0x6C true,
      .check false, .push 0x61 true, .read, .release 0x6C] m :=
    ⟨_, .cons ⟨rfl, rfl⟩ (.cons ⟨rfl, rfl, rfl⟩ (.cons ⟨rfl, rfl⟩
      (.cons ⟨rfl, rfl⟩ (.cons ⟨rfl, rfl⟩ (.nil _)))))⟩
  obtain ⟨m, hm⟩ := hrun
  obtain ⟨hhead, htail, hprefix, -⟩ := kbd_fifo hm
  exact ⟨m, hm, hhead, htail, hprefix⟩

end TermOS.Console
