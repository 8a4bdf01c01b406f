import TermOS.Lib.WordStack
import TermOS.Ref.Cpu

/-!
# The assembly routines (`interrupts.asm`, `yield_asm.asm`, `task_asm.asm`)

The listings, instruction by instruction. Every stub saves the registers in
the same order and restores them in the opposite one, and so does `do_switch`.
A stub's arguments are the address of the C function it calls and the address
of its own instruction behind the call.
-/

namespace TermOS.Arch

def pushAll : List Instr :=
  [.push .rax, .push .rcx, .push .rdx, .push .rbx, .push .rbp, .push .rsi,
    .push .rdi, .push .r8, .push .r9, .push .r10, .push .r11, .push .r12,
    .push .r13, .push .r14, .push .r15]

def popAll : List Instr :=
  [.pop .r15, .pop .r14, .pop .r13, .pop .r12, .pop .r11, .pop .r10, .pop .r9,
    .pop .r8, .pop .rdi, .pop .rsi, .pop .rbp, .pop .rbx, .pop .rdx, .pop .rcx,
    .pop .rax]

def irq32 (scheduleWrapper back : UInt64) : List Instr :=
  pushAll ++ .call scheduleWrapper back :: popAll ++
    [.movAl 0x20, .outAl 0x20, .iretq]

def irq33 (irq1Handler back : UInt64) : List Instr :=
  pushAll ++ .call irq1Handler back :: popAll ++ [.iretq]

def isrGeneric (genericHandler back : UInt64) : List Instr :=
  pushAll ++ .readRsp .rdi :: .add .rdi (15 * 8) ::
    .call genericHandler back :: popAll ++ [.iretq]

def isrYield (scheduleWrapper back : UInt64) : List Instr :=
  pushAll ++ .call scheduleWrapper back :: popAll ++ [.iretq]

/-- `do_switch(old_stack_ptr, new_stack)`, with its arguments in `rdi` and
`rsi`. -/
def doSwitch : List Instr :=
  .storeRsp .rdi :: .loadRsp .rsi :: popAll ++ [.iretq]

/-- The stubs that call `schedule_wrapper`. -/
inductive Stub where
  | irq32
  | isrYield
  deriving DecidableEq, Repr

def Stub.code : Stub → UInt64 → UInt64 → List Instr
  | .irq32 => Arch.irq32
  | .isrYield => Arch.isrYield

/-- The stubs that call a C function and return with `iretq`. -/
inductive Isr where
  | irq32
  | irq33
  | isrGeneric
  | isrYield
  deriving DecidableEq, Repr

def Isr.code : Isr → UInt64 → UInt64 → List Instr
  | .irq32 => Arch.irq32
  | .irq33 => Arch.irq33
  | .isrGeneric => Arch.isrGeneric
  | .isrYield => Arch.isrYield

/-- A stub's code from its instruction behind the call. -/
def behindCall : List Instr → List Instr
  | [] => []
  | .call _ _ :: is => is
  | _ :: is => behindCall is

/-- The registers the System V ABI has a function restore. -/
def calleeSaved : List Reg := [.rbx, .rbp, .r12, .r13, .r14, .r15]

/-- A C function entered at `b` has returned, and `c` is the machine behind the
call. Of the stack only the words the stub has pushed count: to the frame above
them `generic_handler` gets a pointer. -/
structure Cpu.Returned (b c : Cpu) : Prop where
  rip : c.rip = b.mem b.rsp
  rsp : c.rsp = b.rsp + 8
  calleeSaved : ∀ r ∈ calleeSaved, c.regs r = b.regs r
  stack : ∀ i < 15, c.mem (Lib.wordAt c.rsp i) = b.mem (Lib.wordAt c.rsp i)

/-- `idt[vector].kernel_cs`. -/
def kernelCs : UInt64 := 0x18

end TermOS.Arch
