import TermOS.Ref.Stubs
import TermOS.Ref.Task

/-!
# Interrupts, the scheduler and the interrupt controller together

An interrupt gate keeps interrupts out of a stub up to its `iretq`. So a step
of the board leads from one instruction of a task to the next that some task
executes, and all of a stub lies in one step: its pushes, `schedule_wrapper`,
and then either the rest of the stub or the rest of `do_switch`. What
`schedule` does to the scheduler's data is `Sched.schedule`. To the processor
it does what its calling convention allows; `task.cpp` writes to no port.
-/

namespace TermOS.Arch

open TermOS.Tasking (Sched Op)

/-- The addresses the linker gives. -/
structure Links where
  entry : Stub → UInt64
  back : Stub → UInt64
  scheduleWrapper : UInt64

/-- `outb(MASTER_COMMAND, EOI)`. -/
def eoi : UInt8 × UInt8 := (0x20, 0x20)

structure Board where
  cpu : Cpu
  sched : Sched
  /-- IRQ0 in the in-service register of the master. It has the highest
  priority, so an `EOI` is for it if it is set. -/
  inService : Bool

namespace Board

inductive Event where
  /-- IRQ0. -/
  | timer
  /-- `int 0x81` -/
  | yield
  /-- Another operation of the scheduler, called by a task. -/
  | op (op : Op)
  /-- Instructions of the task's own. -/
  | work
  deriving DecidableEq, Repr

/-- `schedule`, called at `b`, has switched to another task, and `d` is the
machine at the entry of `do_switch`. -/
structure Switches (s s' : Sched) (b d : Cpu) : Prop where
  tasks : ∃ prev next, s.currentTask = some prev ∧
    s'.currentTask = some next ∧ prev ≠ next ∧
    (s'.taskPool prev).stackTop = d.rsp ∧
    d.regs .rsi = (s.taskPool next).stackTop
  ports : d.ports = b.ports

/-- From the entry of `schedule_wrapper` at `b` to the next instruction of a
task at `e`; `rest` is the rest of the stub. -/
def Scheduled (admits : IretFrame → Bool) (rest : List Instr) (s s' : Sched)
    (b e : Cpu) : Prop :=
  (s'.currentTask = s.currentTask ∧ ∃ c, b.Returned c ∧ c.ports = b.ports ∧
    Cpu.run admits rest c = some e) ∨
  ∃ d, Switches s s' b d ∧ Cpu.run admits doSwitch d = some e

/-- An interrupt through one of the stubs that call `schedule_wrapper`. -/
def Interrupt (admits : IretFrame → Bool) (links : Links) (stub : Stub)
    (b b' : Board) : Prop :=
  ∃ fuel rsp c, b.sched.schedule fuel rsp = some b'.sched ∧
    Cpu.run admits (stub.code links.scheduleWrapper (links.back stub))
      (b.cpu.deliver (links.entry stub) kernelCs) = some c ∧
    Scheduled admits
      (behindCall (stub.code links.scheduleWrapper (links.back stub)))
      b.sched b'.sched c b'.cpu

/-- What happens to the processor and the scheduler. -/
def Effect (admits : IretFrame → Bool) (links : Links) (b b' : Board) :
    Event → Prop
  | .timer => Interrupt admits links .irq32 b b'
  | .yield => Interrupt admits links .isrYield b b'
  | .op op => b.sched.Step op b'.sched ∧
      ((b'.sched.currentTask = b.sched.currentTask ∧
          b'.cpu.ports = b.cpu.ports) ∨
        ∃ d, Switches b.sched b'.sched b.cpu d ∧
          Cpu.run admits doSwitch d = some b'.cpu)
  | .work => b'.sched = b.sched

/-- A step. The timer interrupts a task that has interrupts enabled, and not
while the controller waits for the end of the last timer interrupt. -/
structure Step (admits : IretFrame → Bool) (links : Links) (b : Board)
    (e : Event) (b' : Board) : Prop where
  accepted : e = .timer → b.inService = false ∧ b.cpu.rflags &&& 0x200 ≠ 0
  effect : Effect admits links b b' e
  controller : ∃ written, b'.cpu.ports = written ++ b.cpu.ports ∧
    b'.inService = ((decide (e = .timer) || b.inService) &&
      !written.contains eoi)

end Board

end TermOS.Arch
