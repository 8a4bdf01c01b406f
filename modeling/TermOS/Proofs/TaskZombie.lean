import TermOS.Proofs.TaskRunning
import TermOS.Proofs.TaskMachine

/-!
# A killed task stays dead only if nobody revives it

Four functions store to a task's state and none of them reads it first. Two of
the stores are harmless to a zombie, those of `kill_task` and `exit_current`.
The other two revive it: `unblock`, called on a task that was killed, and
`block_current`, executed by a task that was killed while it had the CPU. The
theorem says that these are the only ways: in a run of the machine of
`TaskSteps`, with kills landing anywhere, zombies are final exactly when no
step is one of the two.

What `schedule` may still do is commit a choice it has already made. A kill
that lands between the last read of the chosen task's state and the store to
`current_task` is too late for that call, and the statement asks only that no
other call selects the zombie.
-/

namespace TermOS.Tasking

open TermOS.Lib

namespace Sched

variable {s s' : Sched}

theorem state_setState_zombie {t : TaskPtr} (h : s.state t = .zombie)
    (u : TaskPtr) : (s.setState u .zombie).state t = .zombie := by
  by_cases hu : t = u
  · rw [hu, state_setState_self]
  · rw [state_setState_of_ne s hu, h]

end Sched

namespace Machine

variable {m m' m'' : Machine} {e : Event} {t : TaskPtr}

/-- An allocated task that is a zombie. -/
def IsZombie (m : Machine) (t : TaskPtr) : Prop :=
  t.val < m.sched.taskPoolIdx ∧ m.sched.state t = .zombie

/-- The step does not revive a zombie: it does not unblock one, and it is not a
zombie's own `block_current`. -/
def Spares (m : Machine) : Event → Prop
  | .unblock t => m.sched.state t ≠ .zombie
  | .blockCurrent _ =>
      ∀ t, m.sched.currentTask = some t → m.sched.state t ≠ .zombie
  | _ => True

/-- Zombies are final in a run: a task that is a zombie after some of the
events is one ever after, no `schedule` picks it that had not done so, and
then it does not become `current_task` either. -/
def ZombieFinal (m₀ : Machine) (events : List Event) : Prop :=
  ∀ (pre mid post : List Event) (m₁ m₂ : Machine),
    events = pre ++ mid ++ post → Trace Step m₀ pre m₁ →
    Trace Step m₁ mid m₂ → ∀ t, m₁.IsZombie t →
      m₂.sched.state t = .zombie ∧
        (¬ m₁.HasPicked t → ¬ m₂.HasPicked t ∧
          (m₁.sched.currentTask ≠ some t → m₂.sched.currentTask ≠ some t))

/-! ## Zombies over one step -/

/-- A zombie survives a step that spares it. -/
theorem IsZombie.step (hz : m.IsZombie t) (h : m.Step e m')
    (hspare : m.Spares e) : m'.IsZombie t := by
  refine ⟨Nat.lt_of_lt_of_le hz.1 (idx_le_of_step h), ?_⟩
  rcases step_cases h with ⟨u, rfl, rfl⟩ | ⟨rfl, hadv⟩ | ⟨-, hcase⟩
  · exact Sched.state_setState_zombie hz.2 u
  · rcases advance_cases hadv with ⟨hs, -⟩ | ⟨prev, next, rsp, -, -, rfl⟩
    · rw [hs]
      exact hz.2
    · exact (Sched.state_switchTo _ prev next t rsp).trans hz.2
  · rcases hcase with ⟨entry, r, rfl, hcreate, -⟩ | ⟨u, rfl, -, rfl⟩ |
      ⟨rsp, rfl, rfl⟩ | ⟨current, st, rsp, hcur, hst, rfl⟩
    · have hframe := (Sched.createTask_frame hcreate).2.2 t hz.1
      exact (congrArg Task.state hframe).trans hz.2
    · have hne : t ≠ u := by
        intro heq
        subst heq
        exact hspare hz.2
      exact (Sched.state_setState_of_ne _ hne _).trans hz.2
    · exact hz.2
    · rcases hst with ⟨rfl, rfl⟩ | ⟨rfl, rfl⟩
      · have hne : t ≠ current := by
          intro heq
          subst heq
          exact hspare t hcur hz.2
        exact (Sched.state_setState_of_ne _ hne _).trans hz.2
      · exact Sched.state_setState_zombie hz.2 current

/-- No step picks a zombie. -/
theorem IsZombie.not_picked (hz : m.IsZombie t) (h : m.Step e m')
    (hpick : ¬ m.HasPicked t) : ¬ m'.HasPicked t := by
  intro hpoint
  obtain ⟨rsp', hpoint'⟩ := hpoint
  rcases step_cases h with ⟨u, rfl, rfl⟩ | ⟨rfl, hadv⟩ | ⟨-, hcase⟩
  · exact hpick ⟨rsp', hpoint'⟩
  · rcases advance_cases hadv with ⟨-, hrun⟩ | ⟨prev, next, rsp, -, -, rfl⟩
    · have hrun' := hrun t ⟨rsp', hpoint'⟩
      exact absurd (hz.2.symm.trans hrun') (by decide)
    · cases hpoint'
  · rcases hcase with ⟨entry, r, rfl, -, htask⟩ | ⟨u, rfl, -, rfl⟩ |
      ⟨rsp, rfl, rfl⟩ | ⟨current, st, rsp, -, -, rfl⟩
    · cases htask.symm.trans hpoint'
    all_goals cases hpoint'

/-- Nor does one make `current_task` of a task that was not picked. -/
theorem not_current_of_step (h : m.Step e m') (hpick : ¬ m.HasPicked t)
    (hcur : m.sched.currentTask ≠ some t) :
    m'.sched.currentTask ≠ some t := by
  rcases step_cases h with ⟨u, rfl, rfl⟩ | ⟨rfl, hadv⟩ | ⟨-, hcase⟩
  · exact hcur
  · rcases advance_cases hadv with ⟨hs, -⟩ | ⟨prev, next, rsp, hpoint, -, rfl⟩
    · rw [hs]
      exact hcur
    · intro hcur'
      obtain rfl : next = t := Option.some.inj hcur'
      exact hpick ⟨rsp, hpoint⟩
  · rcases hcase with ⟨entry, r, rfl, hcreate, -⟩ | ⟨u, rfl, -, rfl⟩ |
      ⟨rsp, rfl, rfl⟩ | ⟨current, st, rsp, -, -, rfl⟩
    · rw [(Sched.createTask_frame hcreate).1]
      exact hcur
    all_goals exact hcur

/-- A step that does not spare the zombies revives one. -/
theorem MachineInv.revives (hinv : MachineInv m) (h : m.Step e m')
    (hspare : ¬ m.Spares e) :
    ∃ u, m.IsZombie u ∧ m'.sched.state u ≠ .zombie := by
  rcases step_cases h with ⟨u, rfl, rfl⟩ | ⟨rfl, hadv⟩ | ⟨-, hcase⟩
  · exact absurd trivial hspare
  · exact absurd trivial hspare
  · rcases hcase with ⟨entry, r, rfl, hcreate, -⟩ | ⟨u, rfl, hlt, rfl⟩ |
      ⟨rsp, rfl, rfl⟩ | ⟨current, st, rsp, hcur, hst, rfl⟩
    · exact absurd trivial hspare
    · refine ⟨u, ⟨hlt, Decidable.not_not.1 hspare⟩, ?_⟩
      rw [Sched.unblock, Sched.state_setState_self]
      decide
    · exact absurd trivial hspare
    · rcases hst with ⟨rfl, rfl⟩ | ⟨rfl, rfl⟩
      · simp only [Spares, not_forall, Decidable.not_not] at hspare
        obtain ⟨u, hu, hz⟩ := hspare
        obtain rfl : current = u := Option.some.inj (hcur.symm.trans hu)
        obtain ⟨c, hc, hlt⟩ := hinv.ring.current
        obtain rfl : current = c := Option.some.inj (hcur.symm.trans hc)
        refine ⟨current, ⟨hlt, hz⟩, ?_⟩
        rw [Sched.state_setState_self]
        decide
      · exact absurd trivial hspare

/-! ## Zombies over a run -/

theorem IsZombie.run {events : List Event}
    (h : Trace (Trace.Along Step fun m e _ => m.Spares e) m events m')
    (hz : m.IsZombie t) : m'.sched.state t = .zombie ∧
      (¬ m.HasPicked t → ¬ m'.HasPicked t ∧
        (m.sched.currentTask ≠ some t → m'.sched.currentTask ≠ some t)) := by
  have hinv := h.invariant (I := fun n => n.IsZombie t ∧
      (¬ m.HasPicked t → ¬ n.HasPicked t ∧
        (m.sched.currentTask ≠ some t → n.sched.currentTask ≠ some t)))
    (by
      rintro n e n' ⟨hn, hfree⟩ ⟨hstep, hspare⟩
      refine ⟨hn.step hstep hspare, fun hp => ?_⟩
      obtain ⟨hp', hcur⟩ := hfree hp
      exact ⟨hn.not_picked hstep hp',
        fun hc => not_current_of_step hstep hp' (hcur hc)⟩)
    ⟨hz, fun hp => ⟨hp, id⟩⟩
  exact ⟨hinv.1.2, hinv.2⟩

end Machine

open Machine in
/-- In a run after `init`, with kills landing at any of the scheduler's cuts,
zombies are final if and only if no zombie is unblocked and none executes
`block_current`. -/
theorem zombieFinal_iff {rows : StackArray} {mem : UInt64 → UInt64}
    {events : List Event} {m : Machine}
    (h : Trace Step ⟨(Sched.initial rows mem).init, .task⟩ events m) :
    ZombieFinal ⟨(Sched.initial rows mem).init, .task⟩ events ↔
      Trace (Trace.Along Step fun m e _ => m.Spares e)
        ⟨(Sched.initial rows mem).init, .task⟩ events m := by
  have hdet := fun m e m' m'' => @step_unique m m' m'' e
  refine ⟨?_, ?_⟩
  · intro hfinal
    rw [Trace.along_iff hdet h]
    intro pre e post m₁ m₂ hevents hpre hstep
    by_contra hspare
    obtain ⟨u, hz, hne⟩ := (MachineInv.run hpre).revives hstep hspare
    have hmid : Trace Step m₁ [e] m₂ := .cons hstep (.nil m₂)
    have hsplit : events = pre ++ [e] ++ post := by simp [hevents]
    exact hne (hfinal pre [e] post m₁ m₂ hsplit hpre hmid u hz).1
  · rintro hspare pre mid post m₁ m₂ rfl hpre hmid t hz
    obtain ⟨m₂', hrun, -⟩ := Trace.append_iff.1 hspare
    obtain ⟨m₁', hpre', hmid'⟩ := Trace.append_iff.1 hrun
    obtain rfl := Trace.unique hdet hpre hpre'.of_along
    obtain rfl := Trace.unique hdet hmid hmid'.of_along
    exact hz.run hmid'

open Machine in
theorem zombieFinal_iff_kill : ∃ m,
    ZombieFinal ⟨(Sched.initial ⟨0x20000, by decide⟩ fun _ => 0).init, .task⟩
        [.createTask 0x8000, .schedule 0x8FF00, .killTask 1, .advance] ↔
      Trace (Trace.Along Step fun m e _ => m.Spares e)
        ⟨(Sched.initial ⟨0x20000, by decide⟩ fun _ => 0).init, .task⟩
        [.createTask 0x8000, .schedule 0x8FF00, .killTask 1, .advance] m :=
  ⟨_, zombieFinal_iff (.cons rfl (.cons rfl (.cons rfl (.cons rfl (.nil _)))))⟩

open Machine in
/-- Ctrl+C kills the kernel task and `unblock` revives it. -/
theorem zombieFinal_killed_unblocked :
    (∃ m, Trace Step
        ⟨(Sched.initial ⟨0x20000, by decide⟩ fun _ => 0).init, .task⟩
        [.killTask 0, .unblock 0] m) ∧
      ¬ ZombieFinal ⟨(Sched.initial ⟨0x20000, by decide⟩ fun _ => 0).init, .task⟩
        [.killTask 0, .unblock 0] := by
  refine ⟨⟨_, .cons rfl (.cons rfl (.nil _))⟩, fun hfinal => ?_⟩
  have h := hfinal [.killTask 0] [.unblock 0] [] _ _ rfl
    (.cons rfl (.nil _)) (.cons rfl (.nil _)) 0 ⟨by decide, rfl⟩
  exact absurd h.1 (by decide)

end TermOS.Tasking
