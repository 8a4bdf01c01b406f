import TermOS.Proofs.TaskRing

/-!
# Out of tasks, or out of stacks

`create_task` takes a stack first and a task slot behind it, and there are
sixteen of each; but `init` has taken a slot and no stack. How many of either
are gone is a matter of how often `create_task` has been called. So the one
call that fails half way is the sixteenth: it uses up the last stack for a task
that it has no slot for.
-/

namespace TermOS.Tasking

open TermOS.Lib
open TermOS.Lib.Trace (Along)

/-- Whether the operation is a `create_task`. -/
def Op.creates : Op → Bool
  | .createTask _ => true
  | _ => false

namespace Sched

variable {s s' : Sched} {ops : List Op} {n : Nat}

/-- Nothing that `create_task` works on has changed: the two indices, the next
pid, the ring, and all fields of all tasks. -/
structure Unchanged (s s' : Sched) : Prop where
  poolIdx : s'.taskPoolIdx = s.taskPoolIdx
  stackIdx : s'.taskStackIdx = s.taskStackIdx
  nextPid : s'.nextPid = s.nextPid
  list : s'.taskList = s.taskList
  pool : s'.taskPool = s.taskPool

/-- If the step is a `create_task` that answers `nullptr`, it has changed
nothing. -/
def Atomic (s : Sched) (op : Op) (s' : Sched) : Prop :=
  ∀ entry, op = .createTask entry → s.createTask entry = some (none, s') →
    s.Unchanged s'

/-! ## What is gone after a number of calls -/

/-- The invariant, `n` calls of `create_task` after `init`. -/
structure CreatedN (s : Sched) (n : Nat) : Prop where
  inv : RingInv s
  poolIdx : s.taskPoolIdx = min 16 (n + 1)
  stackIdx : s.taskStackIdx = min 16 n

theorem CreatedN.init (rows : StackArray) (mem : UInt64 → UInt64) :
    CreatedN (initial rows mem).init 0 :=
  ⟨RingInv.init rows mem, rfl, rfl⟩

theorem CreatedN.createTask (h : CreatedN s n) {entry : UInt64}
    {t : Option TaskPtr} (hcreate : s.createTask entry = some (t, s')) :
    CreatedN s' (n + 1) := by
  have hpool := h.poolIdx
  have hstack := h.stackIdx
  have hstep : Step s (.createTask entry) s' := ⟨t, hcreate⟩
  have hinv := h.inv.step hstep
  rcases createTask_cases hcreate with
    ⟨hspent, -, rfl⟩ | ⟨hroom, ⟨hfull, -, rfl⟩ | hsome⟩
  · exact ⟨hinv, by omega, by omega⟩
  · exact ⟨hinv, show s.taskPoolIdx = _ by omega,
      show s.taskStackIdx + 1 = _ by omega⟩
  · obtain ⟨u, head, -, hu, rfl⟩ := hsome
    have hlt := u.isLt
    exact ⟨hinv, show s.taskPoolIdx + 1 = _ by omega,
      show s.taskStackIdx + 1 = _ by omega⟩

/-- A `schedule` takes nothing. -/
theorem CreatedN.of_schedule (h : CreatedN s n) {fuel : Nat} {rsp : UInt64}
    (hsched : s.schedule fuel rsp = some s') : CreatedN s' n := by
  have hinv := h.inv.of_schedule hsched
  obtain ⟨current, l, -, -, -, hcase⟩ := h.inv.schedule_cases hsched
  rcases hcase with ⟨-, rfl⟩ | ⟨t, -, rfl⟩
  · exact h
  · exact ⟨hinv, h.poolIdx, h.stackIdx⟩

theorem CreatedN.setState (h : CreatedN s n) (t : TaskPtr) (st : TaskState) :
    CreatedN (s.setState t st) n :=
  ⟨h.inv.setState t st, h.poolIdx, h.stackIdx⟩

theorem CreatedN.step (h : CreatedN s n) {op : Op} (hstep : s.Step op s') :
    CreatedN s' (n + if op.creates then 1 else 0) := by
  rcases step_cases hstep with ⟨entry, t, rfl, hcreate⟩ | ⟨hop, hcase⟩
  · exact h.createTask hcreate
  have hno : op.creates = false := by
    cases op with
    | createTask entry => exact absurd rfl (hop entry)
    | _ => rfl
  rw [hno]
  rcases hcase with ⟨u, fuel, rsp, hu, hsched⟩ | ⟨t, st, rfl⟩
  · rcases hu with rfl | ⟨t, st, rfl⟩
    · exact h.of_schedule hsched
    · exact (h.setState t st).of_schedule hsched
  · exact h.setState t st

theorem CreatedN.run (h : CreatedN s n) (hrun : Trace Step s ops s') :
    CreatedN s' (n + ops.countP Op.creates) := by
  induction hrun generalizing n with
  | nil s => exact h
  | cons head _ ih =>
      have hnext := ih (h.step head)
      rwa [List.countP_cons, Nat.add_comm (List.countP _ _),
        ← Nat.add_assoc]

/-! ## Which call fails half way -/

theorem CreatedN.atomic_iff (h : CreatedN s n) {entry : UInt64}
    {t : Option TaskPtr} (hcreate : s.createTask entry = some (t, s')) :
    (t = none → s.Unchanged s') ↔ n ≠ 15 := by
  have hpool := h.poolIdx
  have hstack := h.stackIdx
  refine ⟨?_, ?_⟩
  · rintro hatomic rfl
    rcases createTask_cases hcreate with
      ⟨hspent, -, -⟩ | ⟨-, ⟨-, hnone, rfl⟩ | hsome⟩
    · omega
    · exact absurd (hatomic hnone).stackIdx (Nat.succ_ne_self _)
    · obtain ⟨u, head, -, hu, -⟩ := hsome
      have hlt := u.isLt
      omega
  · intro hn ht
    rcases createTask_cases hcreate with
      ⟨-, -, rfl⟩ | ⟨hroom, ⟨hfull, -, -⟩ | hsome⟩
    · exact ⟨rfl, rfl, rfl, rfl, rfl⟩
    · omega
    · obtain ⟨u, head, hr, -, -⟩ := hsome
      rw [ht] at hr
      cases hr

/-- The sixteenth call takes a stack and gives no task for it. -/
theorem CreatedN.sixteenth (h : CreatedN s 15) (entry : UInt64) :
    ∃ s', s.createTask entry = some (none, s') ∧ s.taskStackIdx = 15 ∧
      s'.taskStackIdx = 16 ∧ ¬ s.Unchanged s' := by
  have hpool : s.taskPoolIdx = 16 := h.poolIdx
  have hstack : s.taskStackIdx = 15 := h.stackIdx
  have heq := @createTask_full s (by omega) (by omega) entry
  have hnext : s.taskStackIdx + 1 = 16 := by omega
  exact ⟨_, heq, hstack, hnext, fun h => Nat.succ_ne_self _ h.stackIdx⟩

theorem CreatedN.atomic_step_iff (h : CreatedN s n) {op : Op}
    (hstep : s.Step op s') :
    s.Atomic op s' ↔ (op.creates = true → n ≠ 15) := by
  cases op with
  | createTask entry =>
      obtain ⟨t, hcreate⟩ := hstep
      rw [← h.atomic_iff hcreate]
      refine ⟨?_, ?_⟩
      · rintro hatomic - rfl
        exact hatomic entry rfl hcreate
      · rintro hatomic entry' ⟨⟩ hnone
        rw [hcreate, Option.some.injEq, Prod.mk.injEq] at hnone
        exact hatomic rfl hnone.1
  | schedule _ | blockCurrent _ | exitCurrent _ | unblock _ | killTask _ =>
      refine ⟨?_, ?_⟩
      · intro _ hcreates
        cases hcreates
      · intro _ entry heq
        cases heq

/-- Before and behind the sixteenth call, for one more operation. -/
theorem count_cons (n : Nat) (op : Op) (ops : List Op) :
    (n + (op :: ops).countP Op.creates ≤ 15 ∨ 16 ≤ n) ↔
      (op.creates = true → n ≠ 15) ∧
        ((n + if op.creates then 1 else 0) + ops.countP Op.creates ≤ 15 ∨
          16 ≤ n + if op.creates then 1 else 0) := by
  rw [List.countP_cons]
  cases op.creates with
  | true =>
      simp only [if_true, forall_const]
      omega
  | false =>
      simp only [Bool.false_eq_true, if_false, false_implies, true_and]
      omega

theorem CreatedN.count_of_along (h : CreatedN s n)
    (hrun : Trace (Along Step Atomic) s ops s') :
    n + ops.countP Op.creates ≤ 15 ∨ 16 ≤ n := by
  induction hrun generalizing n with
  | nil s =>
      rw [List.countP_nil]
      omega
  | cons head _ ih =>
      rw [count_cons]
      exact ⟨(h.atomic_step_iff head.1).1 head.2, ih (h.step head.1)⟩

theorem CreatedN.along_of_count (h : CreatedN s n) (hrun : Trace Step s ops s')
    (hcount : n + ops.countP Op.creates ≤ 15 ∨ 16 ≤ n) :
    Trace (Along Step Atomic) s ops s' := by
  induction hrun generalizing n with
  | nil s => exact .nil s
  | cons head _ ih =>
      obtain ⟨hfirst, hrest⟩ := (count_cons _ _ _).1 hcount
      exact .cons ⟨head, (h.atomic_step_iff head).2 hfirst⟩
        (ih (h.step head) hrest)

/-- Along every run after `init`: a `create_task` that answers `nullptr` has
changed nothing if and only if it is not the sixteenth call, and a run in which
all of them have changed nothing is one of at most fifteen calls. -/
theorem create_atomic {rows : StackArray} {mem : UInt64 → UInt64}
    (hrun : Trace Step (initial rows mem).init ops s) :
    (∀ entry t s', s.createTask entry = some (t, s') →
      ((t = none → s.Unchanged s') ↔ ops.countP Op.creates ≠ 15)) ∧
    (Trace (Along Step Atomic) (initial rows mem).init ops s ↔
      ops.countP Op.creates ≤ 15) := by
  have hinit := CreatedN.init rows mem
  have hend := hinit.run hrun
  rw [Nat.zero_add] at hend
  refine ⟨fun entry t s' hcreate => hend.atomic_iff hcreate, ?_⟩
  refine ⟨?_, ?_⟩
  · intro halong
    have hcount := hinit.count_of_along halong
    omega
  · intro hle
    exact hinit.along_of_count hrun (by omega)

/-- The seventeenth call finds no stack, answers `nullptr` and changes
nothing. -/
theorem create_atomic_seventeenth :
    ∃ s s', Trace Step (initial ⟨0x20000, by decide⟩ fun _ => 0).init
        (List.replicate 16 (.createTask 0x9000)) s ∧
      s.createTask 0x9000 = some (none, s') ∧ s.Unchanged s' := by
  have hexists := (RingInv.init ⟨0x20000, by decide⟩ fun _ => 0).exists_run
    (List.replicate 16 (.createTask 0x9000)) (by simp)
  refine hexists.imp fun s hrun => ?_
  have hend := (CreatedN.init ⟨0x20000, by decide⟩ fun _ => 0).run hrun
  have hcount : 0 + (List.replicate 16 (Op.createTask 0x9000)).countP
      Op.creates = 16 := by decide
  rw [hcount] at hend
  -- All sixteen stacks are taken.
  have hstack : s.taskStackIdx = 16 := hend.stackIdx
  have hcreate := @createTask_spent s (by omega) 0x9000
  exact ⟨s, hrun, hcreate,
    ((create_atomic hrun).1 0x9000 none s hcreate).2 (by decide) rfl⟩

/-- Fifteen calls succeed; the sixteenth answers `nullptr`, and the last stack
is gone. -/
theorem create_not_atomic :
    ∃ s s', Trace Step (initial ⟨0x20000, by decide⟩ fun _ => 0).init
        (List.replicate 15 (.createTask 0x9000)) s ∧
      s.createTask 0x9000 = some (none, s') ∧
      s.taskStackIdx = 15 ∧ s'.taskStackIdx = 16 ∧ ¬ s.Unchanged s' := by
  have hexists := (RingInv.init ⟨0x20000, by decide⟩ fun _ => 0).exists_run
    (List.replicate 15 (.createTask 0x9000)) (by simp)
  refine hexists.imp fun s hrun => ?_
  have hend := (CreatedN.init ⟨0x20000, by decide⟩ fun _ => 0).run hrun
  have hcount : 0 + (List.replicate 15 (Op.createTask 0x9000)).countP
      Op.creates = 15 := by decide
  rw [hcount] at hend
  exact (hend.sixteenth 0x9000).imp fun s' h => ⟨hrun, h⟩

end Sched

end TermOS.Tasking
