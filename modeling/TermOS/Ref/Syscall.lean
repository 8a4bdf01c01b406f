import TermOS.Ref.Stubs

/-!
# System calls (`syscall_asm.asm`, `syscall.cpp`, `edit.cpp`)

`int 0x80` enters `isr_syscall`, which saves the registers like the other stubs
and hands their address to `syscall_handler_regs`. That function reads the
call's number and arguments out of the saved registers and writes the result
back among them. What `syscall_dispatcher` does is a parameter: from its
arguments and the memory it finds it may return a value and leave another
memory, or not return at all.
-/

namespace TermOS.Arch

open TermOS.Lib (wordAt)

def isrSyscall (syscallHandlerRegs back : UInt64) : List Instr :=
  pushAll ++ .readRsp .rdi :: .call syscallHandlerRegs back :: popAll ++
    [.iretq]

/-- `syscall_dispatcher(syscall_no, arg1, arg2)` in a memory. -/
abbrev SyscallDispatcher :=
  UInt64 → UInt64 → UInt64 → (UInt64 → UInt64) →
    Option (UInt64 × (UInt64 → UInt64))

/-- `syscall_handler_regs`; `rsp[i]` is the word at `wordAt rsp i`. -/
def syscallHandlerRegs (syscallDispatcher : SyscallDispatcher) (rsp : UInt64)
    (mem : UInt64 → UInt64) : Option (UInt64 → UInt64) :=
  let syscallNo := mem (wordAt rsp 14)
  let arg1 := mem (wordAt rsp 8)
  let arg2 := mem (wordAt rsp 9)
  match syscallDispatcher syscallNo arg1 arg2 mem with
  | none => none
  | some (ret, mem) => some (Function.update mem (wordAt rsp 14) ret)

/-- In this memory the dispatcher leaves the `n` words from `sp` up alone: they
belong to a caller that has given it no pointer to them. -/
def SyscallDispatcher.Spares (syscallDispatcher : SyscallDispatcher)
    (mem : UInt64 → UInt64) (sp : UInt64) (n : Nat) : Prop :=
  ∀ syscallNo arg1 arg2 ret mem',
    syscallDispatcher syscallNo arg1 arg2 mem = some (ret, mem') →
    ∀ i < n, mem' (wordAt sp i) = mem (wordAt sp i)

/-- `syscall_handler_regs`, entered at `b`, has returned, and `c` is the machine
behind the call: the registers a function need not restore hold anything, and
the `n` words above the return address are as the function has left them. -/
structure Cpu.SyscallReturned (syscallDispatcher : SyscallDispatcher) (n : Nat)
    (b c : Cpu) : Prop where
  rip : c.rip = b.mem b.rsp
  rsp : c.rsp = b.rsp + 8
  calleeSaved : ∀ r ∈ calleeSaved, c.regs r = b.regs r
  stack : ∃ mem,
    syscallHandlerRegs syscallDispatcher (b.regs .rdi) b.mem = some mem ∧
      ∀ i < n, c.mem (wordAt c.rsp i) = mem (wordAt c.rsp i)

/-- `syscall0(no)`: what the compiler is told of its `int 0x80`, from the
machine `a` before it to `e` behind it. -/
structure Syscall0 (no ret : UInt64) (a e : Cpu) : Prop where
  input : a.regs .rax = no
  output : e.regs .rax = ret
  unclobbered : ∀ r, r ∉ [Reg.rax, .rcx, .r11] → e.regs r = a.regs r

/-- `syscall1(no, arg1)`. -/
structure Syscall1 (no arg1 ret : UInt64) (a e : Cpu) : Prop
    extends Syscall0 no ret a e where
  input1 : a.regs .rdi = arg1

end TermOS.Arch
