import Mathlib.Data.Fintype.Basic
import Mathlib.Data.UInt
import Mathlib.Logic.Function.Basic

/-!
# The scheduler (`task.cpp`)

The static variables of `namespace Tasking` and the functions over them. A
`Task*` is an index into `task_pool`, with `none` for `nullptr`; a stack
pointer is a 64-bit address, with `0` for `nullptr`, and the words
`create_task` pushes go to a memory of 64-bit cells. The one thing the C++
code does not compute is the value of `rsp` at which `do_switch` saves the
outgoing task; it is an argument of everything that calls `schedule`.

A function that may dereference a null pointer or loop for ever answers
`none` there. The search loop of `schedule` takes fuel, one unit for each
state it inspects, and `none` is also what it answers when that runs out.
-/

namespace TermOS.Tasking

/-- `TaskState`. -/
inductive TaskState where
  | running
  | blocked
  | zombie
  deriving DecidableEq, Repr

/-- A non-null `Task*`: one of the sixteen slots of `task_pool`. -/
abbrev TaskPtr := Fin 16

/-- `struct Task`. -/
structure Task where
  pid : UInt64
  stackTop : UInt64
  stackBase : UInt64
  stackSize : UInt64
  state : TaskState
  next : Option TaskPtr

/-- Where the linker put `task_stacks`, sixteen rows of 4096 bytes. -/
structure StackArray where
  addr : UInt64
  fits : addr.toNat + 16 * 4096 ≤ 2 ^ 64

/-- The static variables of `namespace Tasking`, and the memory behind the
stacks. -/
structure Sched where
  currentTask : Option TaskPtr
  taskList : Option TaskPtr
  nextPid : UInt64
  taskPool : TaskPtr → Task
  taskPoolIdx : Nat
  taskStacks : StackArray
  taskStackIdx : Nat
  foregroundTask : Option TaskPtr
  mem : UInt64 → UInt64

namespace Sched

/-- The state before any code has run: the statics' initialisers, and zeroes
for the rest. -/
def initial (rows : StackArray) (mem : UInt64 → UInt64) : Sched where
  currentTask := none
  taskList := none
  nextPid := 1
  taskPool := fun _ => ⟨0, 0, 0, 0, .running, none⟩
  taskPoolIdx := 0
  taskStacks := rows
  taskStackIdx := 0
  foregroundTask := none
  mem := mem

/-- The pool with the fields of one slot rewritten. -/
def modifyTask (s : Sched) (t : TaskPtr) (f : Task → Task) : Sched :=
  { s with taskPool := Function.update s.taskPool t (f (s.taskPool t)) }

def setState (s : Sched) (t : TaskPtr) (st : TaskState) : Sched :=
  s.modifyTask t fun task => { task with state := st }

def setNext (s : Sched) (t : TaskPtr) (n : Option TaskPtr) : Sched :=
  s.modifyTask t fun task => { task with next := n }

def allocTask (s : Sched) : Option TaskPtr × Sched :=
  if h : s.taskPoolIdx < 16 then
    let t : TaskPtr := ⟨s.taskPoolIdx, h⟩
    (some t,
      { s.modifyTask t fun task =>
          { task with
            stackTop := 0, stackBase := 0, stackSize := 0,
            state := .running, next := none }
        with taskPoolIdx := s.taskPoolIdx + 1 })
  else (none, s)

/-- The address of `task_stacks[i]`. -/
def stackAddr (s : Sched) (i : Nat) : UInt64 :=
  s.taskStacks.addr + UInt64.ofNat (4096 * i)

def allocStack (s : Sched) : Option UInt64 × Sched :=
  if s.taskStackIdx < 16 then
    (some (s.stackAddr s.taskStackIdx),
      { s with taskStackIdx := s.taskStackIdx + 1 })
  else (none, s)

def setForegroundTask (s : Sched) (t : Option TaskPtr) : Sched :=
  { s with foregroundTask := t }

def getForegroundTask (s : Sched) : Option TaskPtr := s.foregroundTask

def killTask (s : Sched) : Option TaskPtr → Sched
  | some t => s.setState t .zombie
  | none => s

def init (s : Sched) : Sched :=
  match s.allocTask with
  | (none, s) => s
  | (some kernelTask, s) =>
      { s.modifyTask kernelTask fun _ =>
          { pid := s.nextPid, stackTop := 0, stackBase := 0, stackSize := 0,
            state := .running, next := some kernelTask }
        with
        nextPid := s.nextPid + 1
        currentTask := some kernelTask
        taskList := some kernelTask }

/-- `*--sp = v`, for each value in turn. -/
def pushWords : List UInt64 → UInt64 × (UInt64 → UInt64) →
    UInt64 × (UInt64 → UInt64)
  | [], r => r
  | v :: vs, (sp, mem) => pushWords vs (sp - 8, Function.update mem (sp - 8) v)

/-- The frame `create_task` builds, in the order it is pushed: `ss`, `rsp`,
`rflags`, `cs` and `rip` for `iretq`, then zeroes for `rax, rcx, rdx, rbx, rbp,
rsi, rdi, r8..r15`. -/
def initialFrame (spInitial entry : UInt64) : List UInt64 :=
  [0x10, spInitial, 0x202, 0x08, entry] ++ List.replicate 15 0

/-- `create_task`; the inner `none` is its `nullptr`. -/
def createTask (s : Sched) (entry : UInt64) :
    Option (Option TaskPtr × Sched) :=
  match s.allocStack with
  | (none, s) => some (none, s)
  | (some stack, s) =>
      let spInitial := stack + 4096
      let (sp, mem) := pushWords (initialFrame spInitial entry)
        (spInitial, s.mem)
      match { s with mem := mem }.allocTask with
      | (none, s) => some (none, s)
      | (some task, s) =>
          let s :=
            { s.modifyTask task fun t =>
                { t with
                  pid := s.nextPid, stackTop := sp, stackBase := stack,
                  stackSize := 4096, state := .running }
              with nextPid := s.nextPid + 1 }
          match s.taskList with
          | none => none
          | some head =>
              let s := s.setNext task (s.taskPool head).next
              some (some task, s.setNext head (some task))

/-- The `while` loop of `schedule`, from `next` on. The answer `some none` is
the `return` inside the loop. -/
def searchLoop (s : Sched) (current : TaskPtr) :
    Nat → TaskPtr → Option (Option TaskPtr)
  | 0, _ => none
  | fuel + 1, next =>
      if (s.taskPool next).state = .running then some (some next)
      else
        match (s.taskPool next).next with
        | none => none
        | some n => if n = current then some none else searchLoop s current fuel n

/-- `current_task = next` and the store of `do_switch` into
`prev->stack_top`. -/
def switchTo (s : Sched) (prev next : TaskPtr) (rsp : UInt64) : Sched :=
  { s.modifyTask prev fun t => { t with stackTop := rsp }
    with currentTask := some next }

def schedule (fuel : Nat) (s : Sched) (rsp : UInt64) : Option Sched :=
  match s.currentTask with
  | none => some s
  | some current =>
      match (s.taskPool current).next with
      | none => none
      | some first =>
          match s.searchLoop current fuel first with
          | none => none
          | some none => some s
          | some (some next) =>
              if next = current then some s
              else some (s.switchTo current next rsp)

def blockCurrent (fuel : Nat) (s : Sched) (rsp : UInt64) : Option Sched :=
  match s.currentTask with
  | none => none
  | some current => (s.setState current .blocked).schedule fuel rsp

def unblock (s : Sched) (t : TaskPtr) : Sched := s.setState t .running

def exitCurrent (fuel : Nat) (s : Sched) (rsp : UInt64) : Option Sched :=
  match s.currentTask with
  | none => none
  | some current => (s.setState current .zombie).schedule fuel rsp

end Sched

/-- The operations of the scheduler. -/
inductive Op where
  | createTask (entry : UInt64)
  | schedule (rsp : UInt64)
  | blockCurrent (rsp : UInt64)
  | exitCurrent (rsp : UInt64)
  | unblock (t : TaskPtr)
  | killTask (t : TaskPtr)
  deriving DecidableEq, Repr

/-- One operation that returns. The loop is given whatever fuel it needs, and a
`Task*` is that of an allocated task. -/
def Sched.Step (s : Sched) : Op → Sched → Prop
  | .createTask entry, s' => ∃ t, s.createTask entry = some (t, s')
  | .schedule rsp, s' => ∃ fuel, s.schedule fuel rsp = some s'
  | .blockCurrent rsp, s' => ∃ fuel, s.blockCurrent fuel rsp = some s'
  | .exitCurrent rsp, s' => ∃ fuel, s.exitCurrent fuel rsp = some s'
  | .unblock t, s' => t.val < s.taskPoolIdx ∧ s' = s.unblock t
  | .killTask t, s' => t.val < s.taskPoolIdx ∧ s' = s.killTask (some t)

end TermOS.Tasking
