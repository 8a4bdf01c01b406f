import TermOS.Ref.AtaBus
import TermOS.Ref.Idt

/-!
# The interrupt controllers (`pic.cpp`, `idt.cpp`)

What the kernel writes to the two 8259A, and the two chips. A chip latches the
rising edge of an input until it is accepted or the input falls again, and it
gives way to what is in service. Of the words it takes, those that rotate
priorities and those that choose what a read of the command port gives are left
out; the kernel writes none of them.

On top are the handlers that run: one is entered through the gate of a vector,
makes its writes one by one, and returns. A gate turns interrupts off, so only
an exception comes while one is running. The timer's handler may never return:
`schedule` goes on in another task.
-/

namespace TermOS.Arch

open TermOS.Ata (PortWrite)

/-! ## The driver -/

namespace PIC

def init (offsetMaster offsetSlave : UInt8) : List PortWrite :=
  [.outb 0x20 0x11, .outb 0xA0 0x11,
    .outb 0x21 offsetMaster, .outb 0xA1 offsetSlave,
    .outb 0x21 0x04, .outb 0xA1 0x02,
    .outb 0x21 0x01, .outb 0xA1 0x01,
    .outb 0x21 0xFF, .outb 0xA1 0xFF]

def sendEoi (irq : UInt8) : List PortWrite :=
  (if irq ≥ 8 then [.outb 0xA0 0x20] else []) ++ [.outb 0x20 0x20]

def remap : List PortWrite :=
  [.outb 0x20 0x11, .outb 0xA0 0x11,
    .outb 0x21 0x20, .outb 0xA1 0x28,
    .outb 0x21 0x04, .outb 0xA1 0x02,
    .outb 0x21 0x01, .outb 0xA1 0x01,
    .outb 0x21 0xFD, .outb 0xA1 0xFF,
    .outb 0x21 0xFC]

end PIC

/-- What the routines behind the gates write, `isr_yield` included. -/
def Isr.acknowledges : Isr → List PortWrite
  | .irq32 => [.outb 0x20 0x20]
  | .irq33 => PIC.sendEoi 1
  | .isrGeneric => PIC.sendEoi 0 ++ PIC.sendEoi 8
  | .isrYield => []

/-! ## A chip -/

/-- The word of its initialisation that a chip waits for. -/
inductive Awaits where
  | icw2 (single : Bool) (icw4 : Bool)
  | icw3 (icw4 : Bool)
  | icw4
  | nothing
  deriving DecidableEq, Repr

structure Chip where
  irr : Nat → Bool
  isr : Nat → Bool
  imr : UInt8
  offset : UInt8
  cascade : UInt8
  autoEoi : Bool
  awaits : Awaits

namespace Chip

def masked (c : Chip) (n : Nat) : Bool := c.imr.toNat.testBit n

/-- The input that a chip asks for: unmasked, and with nothing in service that
goes before it. -/
def next (c : Chip) : Option Nat :=
  match (List.range 8).find? fun n => c.isr n || c.irr n && !c.masked n with
  | some n => if c.isr n then none else some n
  | none => none

/-- The request is taken into service. -/
def take (c : Chip) (n : Nat) : Chip :=
  { c with
    irr := Function.update c.irr n false
    isr := if c.autoEoi then c.isr else Function.update c.isr n true }

/-- The end of what is in service before everything else. -/
def endOfInterrupt (c : Chip) : Chip :=
  match (List.range 8).find? c.isr with
  | some n => { c with isr := Function.update c.isr n false }
  | none => c

def command (c : Chip) (value : UInt8) : Chip :=
  if value &&& 0x10 ≠ 0 then
    { c with
      irr := fun _ => false
      isr := fun _ => false
      imr := 0
      autoEoi := false
      awaits := .icw2 (value &&& 0x02 != 0) (value &&& 0x01 != 0) }
  else if value &&& 0x08 = 0 then
    if value &&& 0xE0 = 0x20 then c.endOfInterrupt
    else if value &&& 0xE0 = 0x60 then
      { c with isr := Function.update c.isr (value &&& 7).toNat false }
    else c
  else c

def data (c : Chip) (value : UInt8) : Chip :=
  match c.awaits with
  | .icw2 single icw4 =>
      { c with
        offset := value &&& 0xF8
        awaits :=
          if single then if icw4 then .icw4 else .nothing else .icw3 icw4 }
  | .icw3 icw4 =>
      { c with cascade := value, awaits := if icw4 then .icw4 else .nothing }
  | .icw4 => { c with autoEoi := value &&& 0x02 != 0, awaits := .nothing }
  | .nothing => { c with imr := value }

end Chip

/-! ## Both -/

structure Pics where
  master : Chip
  slave : Chip

namespace Pics

def outb (p : Pics) (port : UInt16) (value : UInt8) : Pics :=
  if port = 0x20 then { p with master := p.master.command value }
  else if port = 0x21 then { p with master := p.master.data value }
  else if port = 0xA0 then { p with slave := p.slave.command value }
  else if port = 0xA1 then { p with slave := p.slave.data value }
  else p

/-- Of the command ports nothing is read. -/
def inb (p : Pics) (port : UInt16) : UInt8 :=
  if port = 0x21 then p.master.imr
  else if port = 0xA1 then p.slave.imr
  else 0

def write (p : Pics) : PortWrite → Pics
  | .outb port value => p.outb port value
  | .outw _ _ => p

/-- `PIC::unmask`. -/
def unmask (p : Pics) (irq : UInt8) : Pics :=
  let port := if irq < 8 then 0x21 else 0xA1
  p.outb port (p.inb port &&& ~~~(1 <<< (irq % 8)))

/-- What `Interrupts::init` does to the controllers. -/
def interruptsInit (p : Pics) : Pics :=
  (((PIC.init 0x20 0x28).foldl write p).unmask 0).unmask 1

/-- The input of the master that the slave is on. -/
def linked (p : Pics) (n : Nat) : Bool :=
  p.master.cascade.toNat.testBit n && (p.slave.cascade &&& 7).toNat == n

/-- The master with the slave's request on its input. -/
def front (p : Pics) : Chip :=
  { p.master with
    irr := fun n => if p.linked n then p.slave.next.isSome else p.master.irr n }

/-- The vector that the CPU is asked to take. -/
def request (p : Pics) : Option UInt8 :=
  p.front.next.map fun n =>
    if p.linked n then
      p.slave.offset + UInt8.ofNat (p.slave.next.getD 7)
    else p.master.offset + UInt8.ofNat n

/-- The CPU takes an interrupt, and gets a vector even if the request is gone
by then. -/
def accept (p : Pics) : UInt8 × Pics :=
  match p.front.next with
  | none => (p.master.offset + 7, p)
  | some n =>
      (p.request.getD 0,
        { master := p.master.take n
          slave :=
            if p.linked n then
              match p.slave.next with
              | some k => p.slave.take k
              | none => p.slave
            else p.slave })

/-- The level of an input. -/
def drive (p : Pics) (irq : Nat) (level : Bool) : Pics :=
  if irq < 8 then
    { p with
      master := { p.master with irr := Function.update p.master.irr irq level } }
  else
    { p with
      slave := { p.slave with
        irr := Function.update p.slave.irr (irq - 8) level } }

end Pics

/-! ## The handlers -/

def IsrLinks.address (links : IsrLinks) : Isr → UInt64
  | .irq32 => links.irq32
  | .irq33 => links.irq33
  | .isrGeneric => links.isrGeneric
  | .isrYield => links.isrYield

/-- The controllers and the handlers that have not returned, the innermost
first, with what they have still to write. -/
structure Service where
  pics : Pics
  handlers : List (Isr × List PortWrite)

namespace Service

inductive Event where
  | raise (irq : Nat)
  | lower (irq : Nat)
  | accept (vector : UInt8)
  /-- An exception. -/
  | fault (vector : UInt8)
  | write
  | back
  /-- `schedule` switches to another task. -/
  | leave
  deriving DecidableEq, Repr

/-- A handler is entered through the gate of the vector. -/
def Enters (links : IsrLinks) (idt : Idt) (vector : UInt8) (isr : Isr) : Prop :=
  (Interrupts.init links idt vector).isr = links.address isr

def Step (links : IsrLinks) (idt : Idt) (m : Service) :
    Event → Service → Prop
  | .raise irq, m' => m' = { m with pics := m.pics.drive irq true }
  | .lower irq, m' => m' = { m with pics := m.pics.drive irq false }
  | .accept vector, m' =>
      m.handlers = [] ∧ vector = m.pics.accept.1 ∧
        ∃ isr, Enters links idt vector isr ∧
          m' = ⟨m.pics.accept.2, [(isr, isr.acknowledges)]⟩
  | .fault vector, m' =>
      vector < 32 ∧ ∃ isr, Enters links idt vector isr ∧
        m' = { m with handlers := (isr, isr.acknowledges) :: m.handlers }
  | .write, m' =>
      ∃ isr w ws rest, m.handlers = (isr, w :: ws) :: rest ∧
        m' = ⟨m.pics.write w, (isr, ws) :: rest⟩
  | .back, m' =>
      ∃ isr rest, m.handlers = (isr, []) :: rest ∧
        m' = { m with handlers := rest }
  | .leave, m' =>
      m.handlers = [(.irq32, Isr.irq32.acknowledges)] ∧
        m' = { m with handlers := [] }

end Service

end TermOS.Arch
