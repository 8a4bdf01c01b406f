import TermOS.Ref.Stubs

/-!
# The interrupt descriptor table (`idt.cpp`)

`Interrupts::init` points every gate at `isr_generic` and then four of them at
routines of their own; what it does to the interrupt controller and to `idtr`
is left out. A gate holds the address of its routine in three pieces, which the
CPU puts together again when it goes through the gate.

The CPU pushes the same five words for every vector. On top of them it pushes
an error code, but only for an exception and only for some of them. An external
interrupt and an `int n` push none, whatever their vector.
-/

namespace TermOS.Arch

open TermOS.Lib (wordAt)

/-- `idt_entry_t` -/
structure IdtEntry where
  isrLow : UInt16
  kernelCs : UInt16
  ist : UInt8
  attributes : UInt8
  isrMid : UInt16
  isrHigh : UInt32
  reserved : UInt32
  deriving DecidableEq, Repr

/-- The table `idt`, by vector. -/
abbrev Idt := UInt8 → IdtEntry

def idtSetDescriptor (idt : Idt) (vector : UInt8) (isr : UInt64)
    (flags : UInt8) : Idt :=
  Function.update idt vector
    { isrLow := (isr &&& 0xFFFF).toUInt16
      kernelCs := 0x18
      ist := 0
      attributes := flags
      isrMid := ((isr >>> 16) &&& 0xFFFF).toUInt16
      isrHigh := ((isr >>> 32) &&& 0xFFFFFFFF).toUInt32
      reserved := 0 }

/-- The addresses the linker gives to the stubs. -/
structure IsrLinks where
  isrGeneric : UInt64
  irq32 : UInt64
  irq33 : UInt64
  isrSyscall : UInt64
  isrYield : UInt64
  deriving DecidableEq, Repr

namespace Interrupts

/-- The loop of `Interrupts::init`, with `n` rounds to go at index `i`. -/
def initLoop (isrGeneric : UInt64) : Nat → Nat → Idt → Idt
  | 0, _, idt => idt
  | n + 1, i, idt =>
      initLoop isrGeneric n (i + 1)
        (idtSetDescriptor idt (UInt8.ofNat i) isrGeneric 0x8E)

/-- `Interrupts::init`, over whatever the table held before. -/
def init (links : IsrLinks) (idt : Idt) : Idt :=
  let idt := initLoop links.isrGeneric 256 0 idt
  let idt := idtSetDescriptor idt 32 links.irq32 0x8E
  let idt := idtSetDescriptor idt 33 links.irq33 0x8E
  let idt := idtSetDescriptor idt 0x80 links.isrSyscall (0x8E ||| 0x60)
  idtSetDescriptor idt 0x81 links.isrYield 0x8E

end Interrupts

/-- The address the CPU reads out of a gate. -/
def IdtEntry.isr (gate : IdtEntry) : UInt64 :=
  gate.isrLow.toUInt64 ||| gate.isrMid.toUInt64 <<< 16 |||
    gate.isrHigh.toUInt64 <<< 32

/-- What sends the CPU through a gate. -/
inductive Cause where
  | exception (errorCode : UInt64)
  /-- An external interrupt, or an `int n`. -/
  | interrupt
  deriving DecidableEq, Repr

/-- The exceptions that have an error code: `#DF`, `#TS`, `#NP`, `#SS`, `#GP`,
`#PF`, `#AC`, `#CP`, `#VC` and `#SX`. -/
def errorCodeVectors : List UInt8 := [8, 10, 11, 12, 13, 14, 17, 21, 29, 30]

def Cause.errorCode (vector : UInt8) : Cause → Option UInt64
  | .exception errorCode =>
      if vector ∈ errorCodeVectors then some errorCode else none
  | .interrupt => none

namespace Cpu

/-- The delivery through a vector's gate, error code included. -/
def raise (c : Cpu) (idt : Idt) (vector : UInt8) (cause : Cause) : Cpu :=
  let entered :=
    c.deliver (idt vector).isr (idt vector).kernelCs.toUInt64
  match cause.errorCode vector with
  | some errorCode => entered.pushWord errorCode
  | none => entered

/-- Where the CPU pushes the `rip` of the code it interrupts. -/
def ripSlot (c : Cpu) : UInt64 := (c.rsp &&& 0xFFFFFFFFFFFFFFF0) - 5 * 8

/-- `generic_handler`, entered at `b`, has returned, and `c` is the machine
behind the call. It does not use its argument, so of the words above the return
address it leaves the frame alone too: the lowest `n` of them. -/
structure GenericReturned (n : Nat) (b c : Cpu) : Prop where
  rip : c.rip = b.mem b.rsp
  rsp : c.rsp = b.rsp + 8
  calleeSaved : ∀ r ∈ calleeSaved, c.regs r = b.regs r
  stack : ∀ i < n, c.mem (wordAt c.rsp i) = b.mem (wordAt c.rsp i)

end Cpu

end TermOS.Arch
