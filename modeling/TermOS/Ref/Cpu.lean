import Mathlib.Data.UInt
import Mathlib.Logic.Function.Basic

/-!
# The processor, as far as the stubs use it

The fifteen general-purpose registers the stubs save, the registers of the
interrupt frame, and a memory of 64-bit words: every access below is to a
multiple of eight, because the CPU aligns `rsp` when it delivers an interrupt.
Code is a list of instructions. The addresses the linker gives to code appear
only where the code itself can see them, in a `call` and in `rip` when control
arrives from outside.

Two things the hardware decides are parameters. `admits` is the outcome of the
checks `iretq` makes of a frame (descriptors, privilege, canonical addresses),
and a frame that fails them is a fault, `none`. The words of an admitted frame
are loaded as they are.
-/

namespace TermOS.Arch

inductive Reg where
  | rax | rcx | rdx | rbx | rbp | rsi | rdi
  | r8 | r9 | r10 | r11 | r12 | r13 | r14 | r15
  deriving DecidableEq, Repr

/-- What the CPU pushes for an interrupt and `iretq` pops. -/
structure IretFrame where
  rip : UInt64
  cs : UInt64
  rflags : UInt64
  rsp : UInt64
  ss : UInt64
  deriving DecidableEq, Repr

structure Cpu where
  regs : Reg → UInt64
  rip : UInt64
  cs : UInt64
  rflags : UInt64
  rsp : UInt64
  ss : UInt64
  mem : UInt64 → UInt64
  /-- The port writes so far, the last one first. -/
  ports : List (UInt8 × UInt8)

inductive Instr where
  | push (r : Reg)
  | pop (r : Reg)
  /-- `mov [r], rsp` -/
  | storeRsp (r : Reg)
  /-- `mov rsp, r` -/
  | loadRsp (r : Reg)
  /-- `mov r, rsp` -/
  | readRsp (r : Reg)
  | add (r : Reg) (imm : UInt64)
  | movAl (imm : UInt8)
  | outAl (port : UInt8)
  /-- A call of the code at `f` from just before `back`. -/
  | call (f back : UInt64)
  | iretq
  deriving DecidableEq, Repr

namespace Cpu

def setReg (c : Cpu) (r : Reg) (v : UInt64) : Cpu :=
  { c with regs := Function.update c.regs r v }

def store (c : Cpu) (a v : UInt64) : Cpu :=
  { c with mem := Function.update c.mem a v }

def pushWord (c : Cpu) (v : UInt64) : Cpu :=
  { c.store (c.rsp - 8) v with rsp := c.rsp - 8 }

/-- The low byte of `rax`. -/
def al (c : Cpu) : UInt8 := (c.regs .rax).toUInt8

def frame (c : Cpu) : IretFrame where
  rip := c.mem c.rsp
  cs := c.mem (c.rsp + 8)
  rflags := c.mem (c.rsp + 16)
  rsp := c.mem (c.rsp + 24)
  ss := c.mem (c.rsp + 32)

def exec (c : Cpu) : Instr → Cpu
  | .push r => c.pushWord (c.regs r)
  | .pop r => { c.setReg r (c.mem c.rsp) with rsp := c.rsp + 8 }
  | .storeRsp r => c.store (c.regs r) c.rsp
  | .loadRsp r => { c with rsp := c.regs r }
  | .readRsp r => c.setReg r c.rsp
  | .add r imm => c.setReg r (c.regs r + imm)
  | .movAl imm =>
      c.setReg .rax ((c.regs .rax &&& 0xFFFFFFFFFFFFFF00) ||| imm.toUInt64)
  | .outAl port => { c with ports := (port, c.al) :: c.ports }
  | .call f back => { c.pushWord back with rip := f }
  | .iretq =>
      { c with
        rip := c.frame.rip, cs := c.frame.cs, rflags := c.frame.rflags,
        rsp := c.frame.rsp, ss := c.frame.ss }

/-- Run a routine's text until control leaves it: into a called function, to
the interrupted code, or off the end. -/
def run (admits : IretFrame → Bool) : List Instr → Cpu → Option Cpu
  | [], c => some c
  | .call f back :: _, c => some (c.exec (.call f back))
  | .iretq :: _, c => if admits c.frame then some (c.exec .iretq) else none
  | i :: is, c => run admits is (c.exec i)

/-- Run a routine's text up to its `iretq`. -/
def toIretq : List Instr → Cpu → Cpu
  | [], c => c
  | .iretq :: _, c => c
  | i :: is, c => toIretq is (c.exec i)

/-- The flags an interrupt gate clears: `VM`, `RF`, `NT`, `IF` and `TF`. -/
def gateFlags : UInt64 := 0x34300

/-- The delivery of an interrupt through a gate to the code at `isr` in the
segment `kernelCs`, without a change of privilege. -/
def deliver (c : Cpu) (isr kernelCs : UInt64) : Cpu :=
  let aligned := { c with rsp := c.rsp &&& 0xFFFFFFFFFFFFFFF0 }
  let pushed := ((((aligned.pushWord c.ss).pushWord c.rsp).pushWord
    c.rflags).pushWord c.cs).pushWord c.rip
  { pushed with
    rip := isr, cs := kernelCs, rflags := c.rflags &&& ~~~gateFlags }

end Cpu

end TermOS.Arch
