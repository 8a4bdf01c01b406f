import TermOS.Proofs.TaskRing

/-!
# Who runs after a `schedule`

`schedule` looks at the states of the other tasks and never at that of the
task that called it. On the ring this makes its outcome a matter of counting:
if another task is running it is switched to, and if none is, the caller goes
on with the CPU, whatever its own state. A caller that has just blocked or
exited is therefore off the CPU exactly when some other task is running, and
there is no idle task to make that certain.
-/

namespace TermOS.Tasking

open TermOS.Lib

/-- The operations that end in `schedule`. -/
def Op.Schedules : Op → Prop
  | .schedule _ | .blockCurrent _ | .exitCurrent _ => True
  | _ => False

namespace Sched

variable {s s' : Sched}

/-- The task that continues to execute is in state `TASK_RUNNING`. -/
def CurrentRuns (s : Sched) : Prop :=
  ∃ t, s.currentTask = some t ∧ s.state t = .running

/-- Before the operation there is a running task for it to leave on the CPU:
any one for `schedule`, one besides the caller for `block_current` and
`exit_current`. -/
def RunnerLeft (s : Sched) : Op → Prop
  | .schedule _ => ∃ t : TaskPtr, t.val < s.taskPoolIdx ∧ s.state t = .running
  | .blockCurrent _ | .exitCurrent _ =>
      ∃ t : TaskPtr, t.val < s.taskPoolIdx ∧ s.currentTask ≠ some t ∧
        s.state t = .running
  | _ => True

theorem state_switchTo (s : Sched) (prev t u : TaskPtr) (rsp : UInt64) :
    (s.switchTo prev t rsp).state u = s.state u :=
  modifyTask_field Task.state s prev (fun v => { v with stackTop := rsp })
    (fun _ => rfl) u

theorem state_setState_self (s : Sched) (t : TaskPtr) (st : TaskState) :
    (s.setState t st).state t = st := by
  rw [state, setState, modifyTask_self]

theorem state_setState_of_ne (s : Sched) {t u : TaskPtr} (h : u ≠ t)
    (st : TaskState) : (s.setState t st).state u = s.state u := by
  rw [state, setState, modifyTask_of_ne s h, state]

theorem RingInv.currentRuns_schedule (h : RingInv s) {fuel : Nat}
    {rsp : UInt64} (hsched : s.schedule fuel rsp = some s') :
    s'.CurrentRuns ↔
      ∃ t : TaskPtr, t.val < s.taskPoolIdx ∧ s.state t = .running := by
  obtain ⟨current, l, hcur, -, hmem, hcase⟩ := h.schedule_cases hsched
  rcases hcase with ⟨hfind, rfl⟩ | ⟨t, hfind, rfl⟩
  · -- No other task runs: the caller is the only candidate.
    have hnone : ∀ u ∈ l, s'.state u ≠ .running := by
      intro u hu
      simpa [isRunning] using List.find?_eq_none.1 hfind u hu
    refine ⟨?_, ?_⟩
    · intro hruns
      obtain ⟨t, ht, hrun⟩ := hruns
      obtain rfl : current = t := Option.some.inj (hcur.symm.trans ht)
      exact ⟨current, (hmem current).1 List.mem_cons_self, hrun⟩
    · intro hruns
      obtain ⟨t, ht, hrun⟩ := hruns
      rcases List.mem_cons.1 ((hmem t).2 ht) with rfl | hl
      · exact ⟨t, hcur, hrun⟩
      · exact absurd hrun (hnone t hl)
  · have hrun : s.state t = .running := by
      simpa [isRunning] using List.find?_some hfind
    have hin := List.mem_cons_of_mem current (List.mem_of_find?_eq_some hfind)
    exact ⟨fun _ => ⟨t, (hmem t).1 hin, hrun⟩,
      fun _ => ⟨t, rfl, by rw [state_switchTo]; exact hrun⟩⟩

/-- The same for a caller that has first left the running state. -/
theorem RingInv.currentRuns_leave (h : RingInv s) {current : TaskPtr}
    (hcur : s.currentTask = some current) {st : TaskState}
    (hst : st ≠ .running) {fuel : Nat} {rsp : UInt64}
    (hsched : (s.setState current st).schedule fuel rsp = some s') :
    s'.CurrentRuns ↔ ∃ t : TaskPtr, t.val < s.taskPoolIdx ∧
      s.currentTask ≠ some t ∧ s.state t = .running := by
  rw [(h.setState current st).currentRuns_schedule hsched]
  refine exists_congr fun t => and_congr_right fun _ => ?_
  by_cases ht : t = current
  · rw [ht, state_setState_self, hcur]
    exact ⟨fun hrun => absurd hrun hst, fun hne => absurd rfl hne.1⟩
  · rw [state_setState_of_ne s ht, hcur]
    exact ⟨fun hrun => ⟨fun heq => ht (Option.some.inj heq).symm, hrun⟩, And.right⟩

theorem RingInv.currentRuns_iff (h : RingInv s) {op : Op}
    (hstep : s.Step op s') :
    (op.Schedules → s'.CurrentRuns) ↔ s.RunnerLeft op := by
  cases op with
  | schedule rsp =>
      obtain ⟨fuel, hsched⟩ := hstep
      exact (imp_iff_right trivial).trans (h.currentRuns_schedule hsched)
  | blockCurrent rsp =>
      obtain ⟨fuel, hblock⟩ := hstep
      obtain ⟨current, hcur, -⟩ := h.current
      simp only [blockCurrent, hcur] at hblock
      exact (imp_iff_right trivial).trans
        (h.currentRuns_leave hcur (by decide) hblock)
  | exitCurrent rsp =>
      obtain ⟨fuel, hexit⟩ := hstep
      obtain ⟨current, hcur, -⟩ := h.current
      simp only [exitCurrent, hcur] at hexit
      exact (imp_iff_right trivial).trans (h.currentRuns_leave hcur (by decide) hexit)
  | createTask _ | unblock _ | killTask _ =>
      exact ⟨fun _ => trivial, fun _ hsched => absurd hsched id⟩

end Sched

open Sched in
/-- In a run after `init`, every operation that ends in `schedule` leaves the
CPU with a running task if and only if before each of them there is one to
leave it to. -/
theorem currentRuns_along_run_iff {rows : StackArray} {mem : UInt64 → UInt64}
    {ops : List Op} {s : Sched} :
    Trace (Trace.Along Step fun _ op s' => op.Schedules → s'.CurrentRuns)
        (initial rows mem).init ops s ↔
      Trace (Trace.Along Step fun s op _ => s.RunnerLeft op)
        (initial rows mem).init ops s :=
  Trace.along_congr (I := RingInv) (fun _ _ _ hs hstep _ => hs.step hstep)
    (fun _ _ _ hs hstep => hs.currentRuns_iff hstep) (RingInv.init rows mem)

open Sched in
/-- The kernel task on its own exits: `schedule` finds no other task, returns,
and the zombie keeps the CPU. -/
theorem currentRuns_exit_alone :
    ∃ s, Trace Step (initial ⟨0x20000, by decide⟩ fun _ => 0).init
        [.exitCurrent 0x8FF00] s ∧
      s.currentTask = some 0 ∧ s.state 0 = .zombie ∧ ¬ s.CurrentRuns := by
  refine ⟨_, .cons ⟨1, rfl⟩ (.nil _), rfl, rfl, ?_⟩
  intro hruns
  obtain ⟨t, ht, hrun⟩ := hruns
  obtain rfl : 0 = t := Option.some.inj ht
  exact absurd hrun (by decide)

end TermOS.Tasking
