import TermOS.Lib.Trace
import TermOS.Ref.Task

/-!
# The scheduler between two instructions

The keyboard interrupt may kill a task at any point, also while another
operation is half way through. Here `schedule` is cut at each of its reads of
a task's state and before its store to `current_task`, and `block_current` and
`exit_current` are cut between their own store and the call. What is left is a
machine with a control point, on which `kill_task` can land everywhere and the
other operations begin where the task's own code runs. `create_task` stays
whole: a kill inside it touches the state of an older task, and it reads none.
-/

namespace TermOS.Tasking

/-- The control point. `scan` is the head of the search loop, and `picked` is
behind it, with `next` a task other than the current one. -/
inductive Point where
  | task
  | enter (rsp : UInt64)
  | scan (next : TaskPtr) (rsp : UInt64)
  | picked (next : TaskPtr) (rsp : UInt64)
  deriving DecidableEq, Repr

structure Machine where
  sched : Sched
  point : Point

/-- What may happen next. `advance` runs the scheduler on to its next cut. -/
inductive Event where
  | killTask (t : TaskPtr)
  | createTask (entry : UInt64)
  | unblock (t : TaskPtr)
  | schedule (rsp : UInt64)
  | blockCurrent (rsp : UInt64)
  | exitCurrent (rsp : UInt64)
  | advance
  deriving DecidableEq, Repr

namespace Machine

/-- `current_task->state = st; schedule();` up to the call. -/
def leave (s : Sched) (st : TaskState) (rsp : UInt64) : Option Machine :=
  match s.currentTask with
  | none => none
  | some current => some ⟨s.setState current st, .enter rsp⟩

/-- One cut of `schedule` to the next. -/
def advance (s : Sched) : Point → Option Machine
  | .task => none
  | .enter rsp =>
      match s.currentTask with
      | none => some ⟨s, .task⟩
      | some current =>
          match (s.taskPool current).next with
          | none => none
          | some first => some ⟨s, .scan first rsp⟩
  | .scan next rsp =>
      if (s.taskPool next).state = .running then
        if s.currentTask = some next then some ⟨s, .task⟩
        else some ⟨s, .picked next rsp⟩
      else
        match (s.taskPool next).next with
        | none => none
        | some n =>
            if s.currentTask = some n then some ⟨s, .task⟩
            else some ⟨s, .scan n rsp⟩
  | .picked next rsp =>
      match s.currentTask with
      | none => none
      | some prev => some ⟨s.switchTo prev next rsp, .task⟩

/-- The machine's step; a `Task*` is that of an allocated task, and only
`kill_task` interrupts a `schedule` in progress. -/
def step (m : Machine) : Event → Option Machine
  | .killTask t =>
      if t.val < m.sched.taskPoolIdx then
        some { m with sched := m.sched.killTask (some t) }
      else none
  | .advance => advance m.sched m.point
  | .createTask entry =>
      if m.point = .task then
        (m.sched.createTask entry).map fun r => ⟨r.2, .task⟩
      else none
  | .unblock t =>
      if m.point = .task ∧ t.val < m.sched.taskPoolIdx then
        some ⟨m.sched.unblock t, .task⟩
      else none
  | .schedule rsp =>
      if m.point = .task then some ⟨m.sched, .enter rsp⟩ else none
  | .blockCurrent rsp =>
      if m.point = .task then leave m.sched .blocked rsp else none
  | .exitCurrent rsp =>
      if m.point = .task then leave m.sched .zombie rsp else none

def Step (m : Machine) (e : Event) (m' : Machine) : Prop := m.step e = some m'

end Machine

end TermOS.Tasking
