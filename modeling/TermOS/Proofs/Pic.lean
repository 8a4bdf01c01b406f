import TermOS.Lib.Trace
import TermOS.Proofs.GenericFrame
import TermOS.Ref.Pic

/-!
# The timer and the keyboard at the controllers

`PIC::init` and `PIC::unmask` leave the same state as `PIC::remap`, whatever
was there before. From then on two lines matter. What each of them is, waiting
or in service, can be read off the events alone, because the first write of
every handler ends what is in service: so nothing is in service between two
interrupts, unless the timer's handler has left for another task. Then neither
line gets through until some other handler has written.
-/

namespace TermOS.Arch

open TermOS.Lib
open TermOS.Ata (PortWrite)

/-- The controllers after `Interrupts::init`. -/
def kernelPics : Pics where
  master :=
    { irr := fun _ => false
      isr := fun _ => false
      imr := 0xFC
      offset := 0x20
      cascade := 0x04
      autoEoi := false
      awaits := .nothing }
  slave :=
    { irr := fun _ => false
      isr := fun _ => false
      imr := 0xFF
      offset := 0x28
      cascade := 0x02
      autoEoi := false
      awaits := .nothing }

namespace Pics

variable (p : Pics) (value : UInt8)

theorem write_masterCommand : p.write (.outb 0x20 value) =
    ⟨p.master.command value, p.slave⟩ := rfl

theorem write_masterData : p.write (.outb 0x21 value) =
    ⟨p.master.data value, p.slave⟩ := rfl

theorem write_slaveCommand : p.write (.outb 0xA0 value) =
    ⟨p.master, p.slave.command value⟩ := rfl

theorem write_slaveData : p.write (.outb 0xA1 value) =
    ⟨p.master, p.slave.data value⟩ := rfl

end Pics

/-- The initialisation of a chip, in any state, even one in the middle of
another initialisation. -/
theorem Chip.init_eq (c : Chip) (offset cascade mask : UInt8) :
    ((((c.command 0x11).data offset).data cascade).data 0x01).data mask =
      { irr := fun _ => false
        isr := fun _ => false
        imr := mask
        offset := offset &&& 0xF8
        cascade := cascade
        autoEoi := false
        awaits := .nothing } := rfl

theorem init_eq (p : Pics) : (PIC.init 0x20 0x28).foldl Pics.write p =
    ⟨{ kernelPics.master with imr := 0xFF }, kernelPics.slave⟩ := by
  simp only [PIC.init, List.foldl_cons, List.foldl_nil, Pics.write_masterCommand,
    Pics.write_masterData, Pics.write_slaveCommand, Pics.write_slaveData,
    Chip.init_eq]
  rfl

theorem interruptsInit_eq (p : Pics) : p.interruptsInit = kernelPics := by
  rw [Pics.interruptsInit, init_eq]
  rfl

/-- `PIC::remap` is the same. -/
theorem remap_eq (p : Pics) : PIC.remap.foldl Pics.write p = kernelPics := by
  simp only [PIC.remap, List.foldl_cons, List.foldl_nil,
    Pics.write_masterCommand, Pics.write_masterData, Pics.write_slaveCommand,
    Pics.write_slaveData, Chip.init_eq]
  rfl

/-! ## One chip -/

namespace Chip

variable {c : Chip}

/-- Only the first two inputs are let through. -/
theorem next_eq (himr : c.imr = 0xFC) (hisr : ∀ n, 2 ≤ n → c.isr n = false) :
    c.next =
      if c.isr 0 then none
      else if c.irr 0 then some 0
      else if c.isr 1 then none
      else if c.irr 1 then some 1
      else none := by
  have hmasked : ∀ n, c.masked n = (0xFC : UInt8).toNat.testBit n := by
    intro n
    rw [masked, himr]
  have hrange : List.range 8 = [0, 1, 2, 3, 4, 5, 6, 7] := rfl
  simp only [next, hrange, List.find?_cons, hmasked, hisr 2 (by decide),
    hisr 3 (by decide), hisr 4 (by decide), hisr 5 (by decide),
    hisr 6 (by decide), hisr 7 (by decide)]
  cases h₀ : c.isr 0 <;> cases h₁ : c.irr 0 <;> cases h₂ : c.isr 1 <;>
    cases h₃ : c.irr 1 <;> cases c.irr 2 <;> simp [h₀, h₂, Nat.testBit]

theorem endOfInterrupt_of_idle (h : c.isr = fun _ => false) :
    c.endOfInterrupt = c := by
  have hnone : (List.range 8).find? c.isr = none := by
    rw [h]
    rfl
  rw [endOfInterrupt, hnone]

/-- What is in service is over, if it is one input. -/
theorem endOfInterrupt_of_one {n : Nat} (hn : n < 8)
    (h : c.isr = fun k => decide (k = n)) :
    c.endOfInterrupt = { c with isr := fun _ => false } := by
  have hsome : (List.range 8).find? c.isr = some n := by
    rw [h]
    refine List.find?_range_eq_some.2 ⟨decide_eq_true rfl,
      List.mem_range.2 hn, fun j hj => ?_⟩
    rw [decide_eq_false (Nat.ne_of_lt hj)]
    rfl
  rw [endOfInterrupt, hsome, h]
  simp only
  congr 1
  funext k
  by_cases hk : k = n
  · rw [hk, Function.update_self]
  · rw [Function.update_of_ne hk, decide_eq_false hk]

end Chip

/-! ## What the events say -/

/-- A line of the master. -/
structure Line where
  waits : Bool
  inService : Bool
  deriving DecidableEq, Repr

namespace Line

def track (irq : Nat) (l : Line) : Service.Event → Line
  | .raise k => if k = irq then { l with waits := true } else l
  | .lower k => if k = irq then { l with waits := false } else l
  | .accept vector =>
      if vector = 0x20 + UInt8.ofNat irq then ⟨false, true⟩ else l
  | .write => { l with inService := false }
  | _ => l

/-- The line after the events: it waits from a rise until it is accepted or
falls, and it is in service until something is written. -/
def after (irq : Nat) (events : List Service.Event) : Line :=
  events.foldl (track irq) ⟨false, false⟩

end Line

/-- The timer and the keyboard. -/
structure Lines where
  timer : Line
  keyboard : Line

namespace Lines

def track (l : Lines) (e : Service.Event) : Lines :=
  ⟨l.timer.track 0 e, l.keyboard.track 1 e⟩

/-- The vector that gets through. -/
def presented (l : Lines) : Option UInt8 :=
  if l.timer.inService then none
  else if l.timer.waits then some 0x20
  else if l.keyboard.waits then some 0x21
  else none

theorem eq_after {events : List Service.Event} {l l' : Lines}
    (h : Trace (fun (l : Lines) e l' => l' = l.track e) l events l') :
    l' = ⟨events.foldl (Line.track 0) l.timer,
      events.foldl (Line.track 1) l.keyboard⟩ := by
  induction h with
  | nil l => rfl
  | cons head tail ih =>
      rw [ih, head]
      rfl

end Lines

/-! ## The invariant -/

namespace Service

/-- Nothing but these two writes is still to come from a handler. -/
def IsEoi (w : PortWrite) : Prop := w = .outb 0x20 0x20 ∨ w = .outb 0xA0 0x20

/-- The state of the machine, and what the events say of it. -/
structure Tracks (m : Service) (l : Lines) : Prop where
  imr : m.pics.master.imr = 0xFC
  offset : m.pics.master.offset = 0x20
  cascade : m.pics.master.cascade = 0x04
  autoEoi : m.pics.master.autoEoi = false
  timerWaits : m.pics.master.irr 0 = l.timer.waits
  keyboardWaits : m.pics.master.irr 1 = l.keyboard.waits
  isr : m.pics.master.isr = fun n =>
    decide (n = 0) && l.timer.inService || decide (n = 1) && l.keyboard.inService
  one : l.timer.inService = true → l.keyboard.inService = false
  slaveIsr : m.pics.slave.isr = fun _ => false
  /-- No handler has written yet that came behind what is in service. -/
  fresh : (l.timer.inService || l.keyboard.inService) = true →
    ∀ h ∈ m.handlers, h.2 = h.1.acknowledges
  /-- The keyboard's handler does not leave. -/
  stays : l.keyboard.inService = true → ∃ h ∈ m.handlers, h.1 = .irq33
  known : ∀ h ∈ m.handlers, h.1 ≠ .isrYield ∧ ∀ w ∈ h.2, IsEoi w

theorem tracks_kernelPics : Tracks ⟨kernelPics, []⟩ ⟨⟨false, false⟩,
    ⟨false, false⟩⟩ where
  imr := rfl
  offset := rfl
  cascade := rfl
  autoEoi := rfl
  timerWaits := rfl
  keyboardWaits := rfl
  isr := by
    funext n
    simp [kernelPics]
  one := by simp
  slaveIsr := rfl
  fresh := by simp
  stays := by simp
  known := by simp

theorem first_write {isr : Isr} (h : isr ≠ .isrYield) :
    ∃ ws, isr.acknowledges = .outb 0x20 0x20 :: ws ∧
      ∀ w ∈ isr.acknowledges, IsEoi w := by
  cases isr with
  | irq32 => exact ⟨_, rfl, by simp [Isr.acknowledges, IsEoi]⟩
  | irq33 => exact ⟨_, rfl, by simp [Isr.acknowledges, PIC.sendEoi, IsEoi]⟩
  | isrGeneric =>
      exact ⟨_, rfl, by simp [Isr.acknowledges, PIC.sendEoi, IsEoi]⟩
  | isrYield => exact absurd rfl h

variable {m m' : Service} {l : Lines} {links : IsrLinks} {idt : Idt}

/-- The routine behind a gate. -/
theorem enters_iff (hlinks : Function.Injective links.address) {vector : UInt8}
    (hvector : vector < 0x80) {isr : Isr} :
    Enters links idt vector isr ↔ isr =
      if vector = 0x21 then .irq33 else if vector = 0x20 then .irq32
      else .isrGeneric := by
  have h80 : vector ≠ 0x80 := fun h => absurd hvector (by rw [h]; decide)
  have h81 : vector ≠ 0x81 := fun h => absurd hvector (by rw [h]; decide)
  have haddress : ∀ r, links.address r = links.address isr ↔ isr = r :=
    fun r => ⟨fun h => (hlinks h).symm, fun h => by rw [h]⟩
  rw [Enters, isr_init, if_neg h81, if_neg h80]
  by_cases h33 : vector = 33
  · rw [if_pos h33, if_pos h33]
    exact haddress .irq33
  · rw [if_neg h33, if_neg h33]
    by_cases h32 : vector = 32
    · rw [if_pos h32, if_pos h32]
      exact haddress .irq32
    · rw [if_neg h32, if_neg h32]
      exact haddress .isrGeneric

namespace Tracks

theorem keyboard_idle (h : Tracks m l) (hidle : m.handlers = []) :
    l.keyboard.inService = false := by
  by_contra hne
  obtain ⟨x, hx, -⟩ := h.stays (by simpa using hne)
  rw [hidle] at hx
  cases hx

theorem linked_eq (h : Tracks m l) {n : Nat} (hn : n < 2) :
    m.pics.linked n = false := by
  rw [Pics.linked, h.cascade]
  obtain rfl | rfl : n = 0 ∨ n = 1 := by omega
  · rfl
  · rfl

/-- What the controllers ask for, if no handler is running. -/
theorem next_eq (h : Tracks m l) (hidle : m.handlers = []) :
    m.pics.front.next =
      if l.timer.inService then none
      else if l.timer.waits then some 0
      else if l.keyboard.waits then some 1
      else none := by
  have hfront := @Chip.next_eq m.pics.front h.imr (by
    intro n hn
    show m.pics.master.isr n = false
    rw [h.isr]
    simp
    omega)
  have hirr : ∀ n < 2, m.pics.front.irr n = m.pics.master.irr n :=
    fun n hn => if_neg (by rw [h.linked_eq hn]; exact Bool.false_ne_true)
  have hi₀ : m.pics.front.isr 0 = l.timer.inService := by
    show m.pics.master.isr 0 = _
    rw [h.isr]
    simp
  have hi₁ : m.pics.front.isr 1 = false := by
    show m.pics.master.isr 1 = _
    rw [h.isr, h.keyboard_idle hidle]
    simp
  rw [hfront, hirr 0 (by decide), hirr 1 (by decide), h.timerWaits,
    h.keyboardWaits, hi₀, hi₁]
  simp

/-- A level on a line. -/
theorem drive (h : Tracks m l) (irq : Nat) (level : Bool) :
    Tracks { m with pics := m.pics.drive irq level }
      ⟨if irq = 0 then { l.timer with waits := level } else l.timer,
        if irq = 1 then { l.keyboard with waits := level }
        else l.keyboard⟩ := by
  have htimer : (if irq = 0 then { l.timer with waits := level }
      else l.timer).inService = l.timer.inService := by
    split <;> rfl
  have hkeyboard : (if irq = 1 then { l.keyboard with waits := level }
      else l.keyboard).inService = l.keyboard.inService := by
    split <;> rfl
  have hirr : ∀ n < 8, (m.pics.drive irq level).master.irr n =
      if irq = n then level else m.pics.master.irr n := by
    intro n hn
    rw [Pics.drive]
    by_cases hirq : irq < 8
    · rw [if_pos hirq]
      by_cases heq : irq = n
      · rw [heq, if_pos rfl]
        exact Function.update_self _ _ _
      · rw [if_neg heq]
        exact Function.update_of_ne (Ne.symm heq) _ _
    · rw [if_neg hirq, if_neg (by omega)]
  have hsame : (m.pics.drive irq level).master =
      { m.pics.master with irr := (m.pics.drive irq level).master.irr } ∧
      (m.pics.drive irq level).slave.isr = m.pics.slave.isr := by
    rw [Pics.drive]
    split <;> exact ⟨rfl, rfl⟩
  obtain ⟨hmaster, hslave⟩ := hsame
  constructor
  case imr =>
    show (m.pics.drive irq level).master.imr = _
    rw [hmaster]
    exact h.imr
  case offset =>
    show (m.pics.drive irq level).master.offset = _
    rw [hmaster]
    exact h.offset
  case cascade =>
    show (m.pics.drive irq level).master.cascade = _
    rw [hmaster]
    exact h.cascade
  case autoEoi =>
    show (m.pics.drive irq level).master.autoEoi = _
    rw [hmaster]
    exact h.autoEoi
  case timerWaits =>
    show (m.pics.drive irq level).master.irr 0 = _
    rw [hirr 0 (by decide), h.timerWaits]
    split <;> rfl
  case keyboardWaits =>
    show (m.pics.drive irq level).master.irr 1 = _
    rw [hirr 1 (by decide), h.keyboardWaits]
    split <;> rfl
  case isr =>
    show (m.pics.drive irq level).master.isr = _
    rw [hmaster]
    simp only [htimer, hkeyboard]
    exact h.isr
  case one =>
    simp only [htimer, hkeyboard]
    exact h.one
  case slaveIsr => exact hslave.trans h.slaveIsr
  case fresh =>
    simp only [htimer, hkeyboard]
    exact h.fresh
  case stays =>
    simp only [hkeyboard]
    exact h.stays
  case known => exact h.known

/-- Another handler begins. -/
theorem enter (h : Tracks m l) {isr : Isr} (hisr : isr ≠ .isrYield) :
    Tracks { m with handlers := (isr, isr.acknowledges) :: m.handlers } l :=
  { h with
    fresh := fun hin => by
      simpa using h.fresh hin
    stays := fun hin => by
      obtain ⟨x, hx, heq⟩ := h.stays hin
      exact ⟨x, List.mem_cons_of_mem _ hx, heq⟩
    known := by
      obtain ⟨ws, -, heoi⟩ := first_write hisr
      intro x hx
      rcases List.mem_cons.1 hx with rfl | hx
      · exact ⟨hisr, heoi⟩
      · exact h.known x hx }

/-- What is in service is over with the first write behind it. -/
theorem write {isr : Isr} {w : PortWrite} {ws : List PortWrite}
    {rest : List (Isr × List PortWrite)} (h : Tracks m l)
    (htop : m.handlers = (isr, w :: ws) :: rest) :
    Tracks ⟨m.pics.write w, (isr, ws) :: rest⟩
      ⟨{ l.timer with inService := false },
        { l.keyboard with inService := false }⟩ := by
  have hmem : (isr, w :: ws) ∈ m.handlers := by
    rw [htop]
    exact List.mem_cons_self ..
  obtain ⟨hyield, heoi⟩ := h.known _ hmem
  have hmaster : (m.pics.write w).master =
        { m.pics.master with isr := fun _ => false } ∧
      (m.pics.write w).slave = m.pics.slave := by
    by_cases hin : (l.timer.inService || l.keyboard.inService) = true
    · obtain ⟨ws', hfirst, -⟩ := first_write hyield
      have hw : w :: ws = isr.acknowledges := h.fresh hin _ hmem
      obtain ⟨rfl, -⟩ := List.cons.inj (hw.trans hfirst)
      refine ⟨?_, rfl⟩
      show m.pics.master.endOfInterrupt = _
      cases ht : l.timer.inService with
      | true =>
          refine Chip.endOfInterrupt_of_one (n := 0) (by decide) ?_
          rw [h.isr, ht, h.one ht]
          simp
      | false =>
          rw [ht, Bool.false_or] at hin
          refine Chip.endOfInterrupt_of_one (n := 1) (by decide) ?_
          rw [h.isr, ht, hin]
          simp
    · obtain ⟨ht, hk⟩ : l.timer.inService = false ∧
          l.keyboard.inService = false := by simpa using hin
      have hnone : m.pics.master.isr = fun _ => false := by
        rw [h.isr, ht, hk]
        simp
      rcases heoi w (List.mem_cons_self ..) with rfl | rfl
      · refine ⟨?_, rfl⟩
        show m.pics.master.endOfInterrupt = _
        rw [Chip.endOfInterrupt_of_idle hnone, ← hnone]
      · refine ⟨?_, Chip.endOfInterrupt_of_idle h.slaveIsr⟩
        show m.pics.master = _
        rw [← hnone]
  obtain ⟨hmaster, hslave⟩ := hmaster
  constructor
  case imr => rw [hmaster]; exact h.imr
  case offset => rw [hmaster]; exact h.offset
  case cascade => rw [hmaster]; exact h.cascade
  case autoEoi => rw [hmaster]; exact h.autoEoi
  case timerWaits => rw [hmaster]; exact h.timerWaits
  case keyboardWaits => rw [hmaster]; exact h.keyboardWaits
  case isr => rw [hmaster]; simp
  case one => exact fun _ => rfl
  case slaveIsr => rw [hslave]; exact h.slaveIsr
  case fresh => exact fun hin => absurd hin (by simp)
  case stays => exact fun hin => absurd hin (by simp)
  case known =>
    intro x hx
    rcases List.mem_cons.1 hx with rfl | hx
    · exact ⟨hyield, fun w' hw' => heoi w' (List.mem_cons_of_mem _ hw')⟩
    · exact h.known x (by rw [htop]; exact List.mem_cons_of_mem _ hx)

/-- A handler with nothing left to write is not one that began behind what is
in service. -/
theorem back {isr : Isr} {rest : List (Isr × List PortWrite)} (h : Tracks m l)
    (htop : m.handlers = (isr, []) :: rest) :
    Tracks { m with handlers := rest } l := by
  have hmem : (isr, []) ∈ m.handlers := by
    rw [htop]
    exact List.mem_cons_self ..
  have hnone : ¬ (l.timer.inService || l.keyboard.inService) = true := by
    intro hin
    obtain ⟨ws, hfirst, -⟩ := first_write (h.known _ hmem).1
    have hnil : [] = isr.acknowledges := h.fresh hin _ hmem
    rw [hfirst] at hnil
    cases hnil
  exact { h with
    fresh := fun hin => absurd hin hnone
    stays := fun hin => absurd (by rw [hin, Bool.or_true]) hnone
    known := fun x hx => h.known x (by rw [htop]; exact List.mem_cons_of_mem _ hx) }

theorem leave (h : Tracks m l)
    (htop : m.handlers = [(.irq32, Isr.irq32.acknowledges)]) :
    Tracks { m with handlers := [] } l :=
  { h with
    fresh := fun _ x hx => absurd hx (List.not_mem_nil)
    stays := fun hin => by
      obtain ⟨x, hx, heq⟩ := h.stays hin
      rw [htop, List.mem_singleton] at hx
      rw [hx] at heq
      cases heq
    known := fun x hx => absurd hx (List.not_mem_nil) }

/-- A request of the master's own is taken into service. -/
theorem take (h : Tracks m l) (hidle : m.handlers = []) {n : Nat} (hn : n < 2)
    (ht : l.timer.inService = false) {isr : Isr} (hisr : isr ≠ .isrYield)
    (hkeyboard : n = 1 → isr = .irq33) :
    Tracks ⟨⟨m.pics.master.take n, m.pics.slave⟩, [(isr, isr.acknowledges)]⟩
      ⟨if n = 0 then ⟨false, true⟩ else l.timer,
        if n = 1 then ⟨false, true⟩ else l.keyboard⟩ := by
  obtain ⟨-, -, heoi⟩ := first_write hisr
  have hk := h.keyboard_idle hidle
  have hone : (m.pics.master.take n).isr = fun k => decide (k = n) := by
    rw [Chip.take, h.autoEoi, h.isr, ht, hk]
    funext k
    by_cases hkn : k = n
    · rw [hkn]
      simp
    · simp [hkn]
  have hirr : ∀ k, (m.pics.master.take n).irr k =
      if k = n then false else m.pics.master.irr k := fun k =>
    Function.update_apply _ _ _ _
  constructor
  case imr => exact h.imr
  case offset => exact h.offset
  case cascade => exact h.cascade
  case autoEoi => exact h.autoEoi
  case timerWaits =>
    show (m.pics.master.take n).irr 0 = _
    rw [hirr, h.timerWaits]
    obtain rfl | rfl : n = 0 ∨ n = 1 := by omega
    · rfl
    · rfl
  case keyboardWaits =>
    show (m.pics.master.take n).irr 1 = _
    rw [hirr, h.keyboardWaits]
    obtain rfl | rfl : n = 0 ∨ n = 1 := by omega
    · rfl
    · rfl
  case isr =>
    show (m.pics.master.take n).isr = _
    rw [hone]
    obtain rfl | rfl : n = 0 ∨ n = 1 := by omega
    · simp [hk]
    · simp [ht]
  case one =>
    obtain rfl | rfl : n = 0 ∨ n = 1 := by omega
    · exact fun _ => hk
    · exact fun hin => absurd (ht.symm.trans hin) Bool.false_ne_true
  case slaveIsr => exact h.slaveIsr
  case fresh =>
    intro _ x hx
    rw [List.mem_singleton.1 hx]
  case stays =>
    intro hin
    obtain rfl | rfl : n = 0 ∨ n = 1 := by omega
    · exact absurd (hk.symm.trans hin) Bool.false_ne_true
    · exact ⟨_, List.mem_singleton.2 rfl, hkeyboard rfl⟩
  case known =>
    intro x hx
    rw [List.mem_singleton.1 hx]
    exact ⟨hisr, heoi⟩

theorem accept_none (h : Tracks m l) (hnext : m.pics.front.next = none) :
    m.pics.request = none ∧ m.pics.accept = (0x27, m.pics) := by
  rw [Pics.request, Pics.accept, hnext, h.offset]
  exact ⟨rfl, rfl⟩

theorem accept_some (h : Tracks m l) {n : Nat} (hn : n < 2)
    (hnext : m.pics.front.next = some n) :
    m.pics.request = some (0x20 + UInt8.ofNat n) ∧
      m.pics.accept =
        (0x20 + UInt8.ofNat n, ⟨m.pics.master.take n, m.pics.slave⟩) := by
  have hrequest : m.pics.request = some (0x20 + UInt8.ofNat n) := by
    rw [Pics.request, hnext, Option.map_some, h.linked_eq hn, h.offset]
    rfl
  refine ⟨hrequest, ?_⟩
  rw [Pics.accept, hnext, hrequest]
  simp only [h.linked_eq hn]
  rfl

/-- What the CPU is asked for, and what it gets. -/
theorem request_eq (h : Tracks m l) (hidle : m.handlers = []) :
    m.pics.request = l.presented ∧
      m.pics.accept.1 = l.presented.getD 0x27 := by
  have hnext := h.next_eq hidle
  rw [Lines.presented]
  by_cases ht : l.timer.inService = true
  · rw [if_pos ht] at hnext ⊢
    obtain ⟨hrequest, haccept⟩ := h.accept_none hnext
    rw [hrequest, haccept]
    exact ⟨rfl, rfl⟩
  · rw [if_neg ht] at hnext ⊢
    by_cases hw : l.timer.waits = true
    · rw [if_pos hw] at hnext ⊢
      obtain ⟨hrequest, haccept⟩ := h.accept_some (by decide) hnext
      rw [hrequest, haccept]
      exact ⟨rfl, rfl⟩
    · rw [if_neg hw] at hnext ⊢
      by_cases hk : l.keyboard.waits = true
      · rw [if_pos hk] at hnext ⊢
        obtain ⟨hrequest, haccept⟩ := h.accept_some (by decide) hnext
        rw [hrequest, haccept]
        exact ⟨rfl, rfl⟩
      · rw [if_neg hk] at hnext ⊢
        obtain ⟨hrequest, haccept⟩ := h.accept_none hnext
        rw [hrequest, haccept]
        exact ⟨rfl, rfl⟩

theorem accept {isr : Isr} (h : Tracks m l)
    (hlinks : Function.Injective links.address) (hidle : m.handlers = [])
    (hisr : Enters links idt m.pics.accept.1 isr) :
    Tracks ⟨m.pics.accept.2, [(isr, isr.acknowledges)]⟩
      (l.track (.accept m.pics.accept.1)) := by
  have hnext := h.next_eq hidle
  have hspurious : m.pics.front.next = none →
      Tracks ⟨m.pics.accept.2, [(isr, isr.acknowledges)]⟩
        (l.track (.accept m.pics.accept.1)) := by
    intro hnone
    obtain ⟨-, haccept⟩ := h.accept_none hnone
    rw [haccept] at hisr ⊢
    have hvector : Enters links idt 0x27 isr := hisr
    have hgeneric : isr = .isrGeneric :=
      (enters_iff hlinks (by decide)).1 hvector
    have hyield : isr ≠ .isrYield := by
      rw [hgeneric]
      exact Isr.noConfusion
    have henter := h.enter hyield
    rw [hidle] at henter
    exact henter
  have htaken : ∀ n < 2, m.pics.front.next = some n →
      l.timer.inService = false →
      Tracks ⟨m.pics.accept.2, [(isr, isr.acknowledges)]⟩
        (l.track (.accept m.pics.accept.1)) := by
    intro n hn hsome ht
    obtain ⟨-, haccept⟩ := h.accept_some hn hsome
    rw [haccept] at hisr ⊢
    obtain rfl | rfl : n = 0 ∨ n = 1 := by omega
    · have hvector : Enters links idt 0x20 isr := hisr
      have htimer : isr = .irq32 := (enters_iff hlinks (by decide)).1 hvector
      rw [htimer]
      exact h.take hidle hn ht Isr.noConfusion fun h => absurd h (by decide)
    · have hvector : Enters links idt 0x21 isr := hisr
      have hkeyboard : isr = .irq33 :=
        (enters_iff hlinks (by decide)).1 hvector
      rw [hkeyboard]
      exact h.take hidle hn ht Isr.noConfusion fun _ => rfl
  by_cases ht : l.timer.inService = true
  · rw [if_pos ht] at hnext
    exact hspurious hnext
  · rw [if_neg ht] at hnext
    have ht : l.timer.inService = false := by simpa using ht
    by_cases hw : l.timer.waits = true
    · rw [if_pos hw] at hnext
      exact htaken 0 (by decide) hnext ht
    · rw [if_neg hw] at hnext
      by_cases hk : l.keyboard.waits = true
      · rw [if_pos hk] at hnext
        exact htaken 1 (by decide) hnext ht
      · rw [if_neg hk] at hnext
        exact hspurious hnext

theorem step {e : Event} (h : Tracks m l)
    (hlinks : Function.Injective links.address)
    (hstep : Step links idt m e m') : Tracks m' (l.track e) := by
  cases e with
  | raise irq =>
      obtain rfl := hstep
      exact h.drive irq true
  | lower irq =>
      obtain rfl := hstep
      exact h.drive irq false
  | accept vector =>
      obtain ⟨hidle, rfl, isr, hisr, rfl⟩ := hstep
      exact h.accept hlinks hidle hisr
  | fault vector =>
      obtain ⟨hvector, isr, hisr, rfl⟩ := hstep
      refine h.enter ?_
      have hlow : vector < 0x80 := UInt8.lt_trans hvector (by decide)
      rw [(enters_iff hlinks hlow).1 hisr]
      split
      · exact Isr.noConfusion
      · split <;> exact Isr.noConfusion
  | write =>
      obtain ⟨isr, w, ws, rest, htop, rfl⟩ := hstep
      exact h.write htop
  | back =>
      obtain ⟨isr, rest, htop, rfl⟩ := hstep
      exact h.back htop
  | leave =>
      obtain ⟨htop, rfl⟩ := hstep
      exact h.leave htop

end Tracks

/-- From `Interrupts::init` on, in any state of the controllers, and after any
events: if no handler is running, the CPU is asked to take the timer if it
waits, and else the keyboard if that waits, and nothing else; with the timer in
service, whose handler then has left for another task, it is asked for
nothing. What it takes is what it was asked for, or the spurious interrupt of
the master, and enters through the gate of that. -/
theorem request_after (hlinks : Function.Injective links.address) {p : Pics}
    {events : List Event}
    (hrun : Trace (Step links idt) ⟨p.interruptsInit, []⟩ events m)
    (hidle : m.handlers = []) :
    m.pics.request =
        (Lines.mk (Line.after 0 events) (Line.after 1 events)).presented ∧
      (Line.after 1 events).inService = false ∧
      ∀ vector m', Step links idt m (.accept vector) m' →
        vector = m.pics.request.getD 0x27 ∧
          m'.handlers = [if vector = 0x21 then (.irq33, PIC.sendEoi 1)
            else if vector = 0x20 then (.irq32, [.outb 0x20 0x20])
            else (.isrGeneric, PIC.sendEoi 0 ++ PIC.sendEoi 8)] := by
  rw [interruptsInit_eq] at hrun
  obtain ⟨l, hlines, htracks⟩ := hrun.simulate
    (U := fun (l : Lines) e l' => l' = l.track e) (R := Tracks)
    (fun m l e m' h hstep => ⟨_, rfl, h.step hlinks hstep⟩) tracks_kernelPics
  obtain rfl := Lines.eq_after hlines
  obtain ⟨hrequest, haccept⟩ := htracks.request_eq hidle
  refine ⟨hrequest, htracks.keyboard_idle hidle, ?_⟩
  rintro vector m' ⟨-, rfl, isr, hisr, rfl⟩
  rw [hrequest]
  refine ⟨haccept, ?_⟩
  have hlow : m.pics.accept.1 < 0x80 := by
    rw [haccept, Lines.presented]
    split
    · decide
    · split
      · decide
      · split <;> decide
  rw [(enters_iff hlinks hlow).1 hisr]
  by_cases h33 : m.pics.accept.1 = 0x21
  · rw [if_pos h33, if_pos h33]
    rfl
  · rw [if_neg h33, if_neg h33]
    by_cases h32 : m.pics.accept.1 = 0x20
    · rw [if_pos h32, if_pos h32]
      rfl
    · rw [if_neg h32, if_neg h32]
      rfl

/-- The timer's handler has left, and a key is not heard. -/
theorem request_after_left : ∃ m : Service,
    Trace (Step ⟨1, 2, 3, 4, 5⟩ fun _ => ⟨0, 0, 0, 0, 0, 0, 0⟩)
      ⟨kernelPics.interruptsInit, []⟩
      [.raise 0, .accept 0x20, .leave, .raise 1] m ∧
    m.pics.request = none := by
  have hlinks : Function.Injective (IsrLinks.address ⟨1, 2, 3, 4, 5⟩) := by
    intro a b hab
    cases a <;> cases b <;> first | rfl | exact absurd hab (by decide)
  obtain ⟨m, hrun, hidle⟩ : ∃ m : Service,
      Trace (Step ⟨1, 2, 3, 4, 5⟩ fun _ => ⟨0, 0, 0, 0, 0, 0, 0⟩)
        ⟨kernelPics.interruptsInit, []⟩
        [.raise 0, .accept 0x20, .leave, .raise 1] m ∧ m.handlers = [] := by
    rw [interruptsInit_eq]
    refine ⟨_, .cons rfl (.cons ⟨rfl, rfl, .irq32, ?_, rfl⟩
      (.cons ⟨rfl, rfl⟩ (.cons rfl (.nil _)))), rfl⟩
    exact (enters_iff hlinks (by decide)).2 rfl
  exact ⟨m, hrun, (request_after hlinks hrun hidle).1⟩

end Service

end TermOS.Arch
