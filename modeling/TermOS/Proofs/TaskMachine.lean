import TermOS.Proofs.TaskRunning
import TermOS.Ref.TaskSteps

/-!
# The scheduler's machine

`Sched.Step` performs an operation in one go and `Machine.Step` in cuts. Left
alone, the cuts of an operation add up to it: for each operation that returns
there is a run of the machine from its entry to its return. The search loop is
the induction, one `advance` for each state it inspects.

The other way round, a step of the machine is inverted once, in `step_cases`,
and the ring invariant holds at every cut, kills in between included.
-/

namespace TermOS.Tasking

open TermOS.Lib

/-- A task but for its link. -/
def Task.unlinked (t : Task) : Task := { t with next := none }

namespace Sched

variable {s s' : Sched}

theorem unlinked_setNext (s : Sched) (t : TaskPtr) (n : Option TaskPtr)
    (u : TaskPtr) :
    ((s.setNext t n).taskPool u).unlinked = (s.taskPool u).unlinked :=
  modifyTask_field Task.unlinked s t (fun task => { task with next := n })
    (fun _ => rfl) u

/-- `create_task` changes nothing of an older task but its link. -/
theorem createTask_frame {entry : UInt64} {r : Option TaskPtr}
    (h : s.createTask entry = some (r, s')) :
    s'.currentTask = s.currentTask ∧ s.taskPoolIdx ≤ s'.taskPoolIdx ∧
      ∀ t : TaskPtr, t.val < s.taskPoolIdx →
        (s'.taskPool t).unlinked = (s.taskPool t).unlinked := by
  rcases createTask_cases h with ⟨-, -, rfl⟩ | ⟨-, ⟨-, -, rfl⟩ | hsome⟩
  · exact ⟨rfl, Nat.le_refl _, fun _ _ => rfl⟩
  · exact ⟨rfl, Nat.le_refl _, fun _ _ => rfl⟩
  · obtain ⟨u, head, -, hu, rfl⟩ := hsome
    refine ⟨rfl, Nat.le_succ _, fun t ht => ?_⟩
    -- Besides the two links it is the new slot that is written.
    have hne : t ≠ u := by
      intro heq
      subst heq
      exact absurd hu (Nat.ne_of_lt ht)
    rw [splice, unlinked_setNext, unlinked_setNext, withTask_of_ne s entry hne]

/-- The pointers stay inside the allocated slots. -/
theorem RingInv.next_lt (h : RingInv s) {t n : TaskPtr}
    (ht : t.val < s.taskPoolIdx) (hn : s.next t = some n) :
    n.val < s.taskPoolIdx := by
  obtain ⟨head, l, -, hring, hmem⟩ := h.ring
  obtain ⟨m, hring', hmem'⟩ := hring.enter ((hmem t).2 ht)
  have hclosed := hring'.closed
  refine (hmem n).1 ((hmem' n).1 ?_)
  cases m with
  | nil =>
      obtain rfl : t = n := Option.some.inj (hclosed.symm.trans hn)
      exact List.mem_cons_self
  | cons x m =>
      obtain rfl : x = n := Option.some.inj (hclosed.1.symm.trans hn)
      exact List.mem_cons_of_mem _ List.mem_cons_self

end Sched

namespace Machine

variable {s s' : Sched} {rsp : UInt64}

/-- `advance` alone leads from one machine to the other. -/
def Advances (m m' : Machine) : Prop :=
  ∃ n, Trace Step m (List.replicate n .advance) m'

theorem Advances.refl (m : Machine) : Advances m m := ⟨0, .nil m⟩

theorem Advances.cons {m m' m'' : Machine}
    (h : advance m.sched m.point = some m') (h' : Advances m' m'') :
    Advances m m'' := by
  obtain ⟨n, htrace⟩ := h'
  exact ⟨n + 1, .cons h htrace⟩

/-- Where the search loop leaves the machine. -/
def found (s : Sched) (current : TaskPtr) (rsp : UInt64) :
    Option TaskPtr → Machine
  | none => ⟨s, .task⟩
  | some n => if n = current then ⟨s, .task⟩ else ⟨s, .picked n rsp⟩

theorem advances_searchLoop {current : TaskPtr}
    (hcur : s.currentTask = some current) {fuel : Nat} {next : TaskPtr}
    {r : Option TaskPtr} (h : s.searchLoop current fuel next = some r) :
    Advances ⟨s, .scan next rsp⟩ (found s current rsp r) := by
  induction fuel generalizing next with
  | zero => cases h
  | succ fuel ih =>
      rw [Sched.searchLoop] at h
      by_cases hrun : (s.taskPool next).state = .running
      · rw [if_pos hrun] at h
        obtain rfl := Option.some.inj h
        refine .cons ?_ (.refl _)
        by_cases heq : next = current
        · have hcur' : s.currentTask = some next := heq ▸ hcur
          simp only [advance, found, if_pos hrun, if_pos hcur', if_pos heq]
        · have hcur' : ¬ s.currentTask = some next := by
            rw [hcur]
            exact fun h => heq (Option.some.inj h).symm
          simp only [advance, found, if_pos hrun, if_neg hcur', if_neg heq]
      · rw [if_neg hrun] at h
        split at h
        · cases h
        · next n hn =>
            split at h
            · next heq =>
                obtain rfl := Option.some.inj h
                refine .cons ?_ (.refl _)
                simp only [advance, found, if_neg hrun, hn, hcur, heq, if_true]
            · next hne =>
                refine .cons ?_ (ih h)
                have hne' : ¬ s.currentTask = some n := by
                  rw [hcur]
                  exact fun h => hne (Option.some.inj h).symm
                simp only [advance, if_neg hrun, hn, if_neg hne']

theorem advances_schedule {fuel : Nat}
    (h : s.schedule fuel rsp = some s') :
    Advances ⟨s, .enter rsp⟩ ⟨s', .task⟩ := by
  rw [Sched.schedule] at h
  split at h
  · next hcur =>
      obtain rfl := Option.some.inj h
      exact .cons (by simp only [advance, hcur]) (.refl _)
  · next current hcur =>
      split at h
      · cases h
      · next first hfirst =>
          have henter : advance s (.enter rsp) = some ⟨s, .scan first rsp⟩ := by
            simp only [advance, hcur, hfirst]
          refine .cons henter ?_
          split at h
          · cases h
          · next hloop =>
              obtain rfl := Option.some.inj h
              exact advances_searchLoop hcur hloop
          · next n hloop =>
              have hscan := @advances_searchLoop s rsp current hcur fuel first (some n) hloop
              by_cases heq : n = current
              · simp only [found, if_pos heq] at h hscan
                obtain rfl := Option.some.inj h
                exact hscan
              · simp only [found, if_neg heq] at h hscan
                obtain rfl := Option.some.inj h
                obtain ⟨k, htrace⟩ := hscan
                obtain ⟨j, hlast⟩ : Advances ⟨s, .picked n rsp⟩
                    ⟨s.switchTo current n rsp, .task⟩ :=
                  .cons (by simp only [advance, hcur]) (.refl _)
                refine ⟨k + j, ?_⟩
                rw [List.replicate_add]
                exact Trace.append_iff.2 ⟨_, htrace, hlast⟩

/-- An operation that returns is a run of the machine. -/
theorem trace_of_step {op : Op} (h : s.Step op s') :
    ∃ events, Trace Step ⟨s, .task⟩ events ⟨s', .task⟩ := by
  cases op with
  | createTask entry =>
      obtain ⟨t, hcreate⟩ := h
      refine ⟨[.createTask entry], .cons ?_ (.nil _)⟩
      simp only [Step, step, hcreate, if_true, Option.map_some]
  | schedule rsp =>
      obtain ⟨fuel, hsched⟩ := h
      obtain ⟨n, htrace⟩ := advances_schedule hsched
      exact ⟨.schedule rsp :: List.replicate n .advance, .cons rfl htrace⟩
  | blockCurrent rsp =>
      obtain ⟨fuel, hblock⟩ := h
      simp only [Sched.blockCurrent] at hblock
      split at hblock
      · cases hblock
      · next current hcur =>
          obtain ⟨n, htrace⟩ := advances_schedule hblock
          refine ⟨.blockCurrent rsp :: List.replicate n .advance,
            .cons ?_ htrace⟩
          simp only [Step, step, leave, hcur, if_true]
  | exitCurrent rsp =>
      obtain ⟨fuel, hexit⟩ := h
      simp only [Sched.exitCurrent] at hexit
      split at hexit
      · cases hexit
      · next current hcur =>
          obtain ⟨n, htrace⟩ := advances_schedule hexit
          refine ⟨.exitCurrent rsp :: List.replicate n .advance,
            .cons ?_ htrace⟩
          simp only [Step, step, leave, hcur, if_true]
  | unblock t =>
      obtain ⟨hlt, rfl⟩ := h
      refine ⟨[.unblock t], .cons ?_ (.nil _)⟩
      simp only [Step, step, hlt, and_self, if_true]
  | killTask t =>
      obtain ⟨hlt, rfl⟩ := h
      refine ⟨[.killTask t], .cons ?_ (.nil _)⟩
      simp only [Step, step, hlt, if_true]

/-- So is a run of operations: what holds of every state of the machine holds
of every state between operations. -/
theorem trace_of_run {ops : List Op} (h : Trace Sched.Step s ops s') :
    ∃ events, Trace Step ⟨s, .task⟩ events ⟨s', .task⟩ := by
  induction h with
  | nil s => exact ⟨[], .nil _⟩
  | cons head _ ih =>
      obtain ⟨events, hhead⟩ := trace_of_step head
      obtain ⟨events', htail⟩ := ih
      exact ⟨events ++ events', Trace.append_iff.2 ⟨_, hhead, htail⟩⟩

/-! ## What a step does -/

variable {m m' m'' : Machine} {e : Event}

theorem step_unique (h : m.Step e m') (h' : m.Step e m'') : m' = m'' :=
  Option.some.inj (h.symm.trans h')

theorem leave_cases {s : Sched} {st : TaskState} {rsp : UInt64}
    (h : leave s st rsp = some m') : ∃ current, s.currentTask = some current ∧
      m' = ⟨s.setState current st, .enter rsp⟩ := by
  unfold leave at h
  split at h
  · cases h
  · next current hcur => exact ⟨current, hcur, (Option.some.inj h).symm⟩

/-- A `schedule` under way has chosen `t` and has yet to store it. -/
def HasPicked (m : Machine) (t : TaskPtr) : Prop :=
  ∃ rsp, m.point = .picked t rsp

/-- The search changes nothing and picks only a running task; the commit is
`switchTo`. -/
theorem advance_cases (h : advance m.sched m.point = some m') :
    (m'.sched = m.sched ∧ ∀ u, m'.HasPicked u → m.sched.state u = .running) ∨
      ∃ prev next rsp, m.point = .picked next rsp ∧
        m.sched.currentTask = some prev ∧
        m' = ⟨m.sched.switchTo prev next rsp, .task⟩ := by
  have hnone : ∀ {s : Sched} {p : Point}, (∀ u rsp, p ≠ .picked u rsp) →
      ∀ u, (⟨s, p⟩ : Machine).HasPicked u → m.sched.state u = .running := by
    rintro s p hp u ⟨rsp, hu⟩
    exact absurd hu (hp u rsp)
  obtain ⟨s, point⟩ := m
  cases point with
  | task => cases h
  | enter rsp =>
      left
      simp only [advance] at h
      split at h
      · cases h
        exact ⟨rfl, hnone (by simp)⟩
      · split at h
        · cases h
        · cases h
          exact ⟨rfl, hnone (by simp)⟩
  | scan next rsp =>
      left
      simp only [advance] at h
      split at h
      · next hrun =>
          split at h
          · cases h
            exact ⟨rfl, hnone (by simp)⟩
          · cases h
            refine ⟨rfl, ?_⟩
            rintro u ⟨rsp', hu⟩
            cases hu
            exact hrun
      · split at h
        · cases h
        · split at h
          all_goals
            cases h
            exact ⟨rfl, hnone (by simp)⟩
  | picked next rsp =>
      right
      simp only [advance] at h
      split at h
      · cases h
      · next prev hprev =>
          exact ⟨prev, next, rsp, rfl, hprev, (Option.some.inj h).symm⟩

theorem step_cases (h : m.Step e m') :
    (∃ u, e = .killTask u ∧ m' = { m with sched := m.sched.killTask (some u) }) ∨
      (e = .advance ∧ advance m.sched m.point = some m') ∨
      m.point = .task ∧
        ((∃ entry r, e = .createTask entry ∧
            m.sched.createTask entry = some (r, m'.sched) ∧
            m'.point = .task) ∨
          (∃ u, e = .unblock u ∧ u.val < m.sched.taskPoolIdx ∧
            m' = ⟨m.sched.unblock u, .task⟩) ∨
          (∃ rsp, e = .schedule rsp ∧ m' = ⟨m.sched, .enter rsp⟩) ∨
          ∃ current st rsp, m.sched.currentTask = some current ∧
            (e = .blockCurrent rsp ∧ st = .blocked ∨
              e = .exitCurrent rsp ∧ st = .zombie) ∧
            m' = ⟨m.sched.setState current st, .enter rsp⟩) := by
  simp only [Step] at h
  cases e with
  | killTask u =>
      simp only [step] at h
      split at h
      · exact .inl ⟨u, rfl, (Option.some.inj h).symm⟩
      · cases h
  | advance => exact .inr (.inl ⟨rfl, h⟩)
  | createTask entry =>
      simp only [step] at h
      split at h
      · next hpoint =>
          obtain ⟨⟨r, s'⟩, hcreate, rfl⟩ := Option.map_eq_some_iff.1 h
          exact .inr (.inr ⟨hpoint, .inl ⟨entry, r, rfl, hcreate, rfl⟩⟩)
      · cases h
  | unblock u =>
      simp only [step] at h
      split at h
      · next hguard =>
          exact .inr (.inr ⟨hguard.1,
            .inr (.inl ⟨u, rfl, hguard.2, (Option.some.inj h).symm⟩)⟩)
      · cases h
  | schedule rsp =>
      simp only [step] at h
      split at h
      · next hpoint =>
          exact .inr (.inr ⟨hpoint,
            .inr (.inr (.inl ⟨rsp, rfl, (Option.some.inj h).symm⟩))⟩)
      · cases h
  | blockCurrent rsp =>
      simp only [step] at h
      split at h
      · next hpoint =>
          obtain ⟨current, hcur, rfl⟩ := leave_cases h
          exact .inr (.inr ⟨hpoint, .inr (.inr (.inr
            ⟨current, _, rsp, hcur, .inl ⟨rfl, rfl⟩, rfl⟩))⟩)
      · cases h
  | exitCurrent rsp =>
      simp only [step] at h
      split at h
      · next hpoint =>
          obtain ⟨current, hcur, rfl⟩ := leave_cases h
          exact .inr (.inr ⟨hpoint, .inr (.inr (.inr
            ⟨current, _, rsp, hcur, .inr ⟨rfl, rfl⟩, rfl⟩))⟩)
      · cases h

theorem idx_le_of_step (h : m.Step e m') :
    m.sched.taskPoolIdx ≤ m'.sched.taskPoolIdx := by
  rcases step_cases h with ⟨u, rfl, rfl⟩ | ⟨rfl, hadv⟩ | ⟨-, hcase⟩
  · exact Nat.le_refl _
  · rcases advance_cases hadv with ⟨hs, -⟩ | ⟨prev, next, rsp, -, -, rfl⟩
    · rw [hs]
    · exact Nat.le_refl _
  · rcases hcase with ⟨entry, r, rfl, hcreate, -⟩ | ⟨u, rfl, -, rfl⟩ |
      ⟨rsp, rfl, rfl⟩ | ⟨current, st, rsp, -, -, rfl⟩
    · exact (Sched.createTask_frame hcreate).2.1
    all_goals exact Nat.le_refl _

/-! ## The ring at every cut -/

/-- The invariant of the scheduler, and the search inside the pool. -/
structure MachineInv (m : Machine) : Prop where
  ring : m.sched.RingInv
  cursor : ∀ u rsp, m.point = .scan u rsp ∨ m.point = .picked u rsp →
    u.val < m.sched.taskPoolIdx

theorem MachineInv.of_point {s : Sched} (h : s.RingInv) {p : Point}
    (hp : ∀ u rsp, ¬ (p = .scan u rsp ∨ p = .picked u rsp)) :
    MachineInv ⟨s, p⟩ :=
  ⟨h, fun u rsp hu => absurd hu (hp u rsp)⟩

theorem MachineInv.advance (h : MachineInv m)
    (hadv : Machine.advance m.sched m.point = some m') : MachineInv m' := by
  obtain ⟨s, point⟩ := m
  obtain ⟨current, hcur, hlt⟩ := h.ring.current
  simp only at hcur hlt hadv
  cases point with
  | task => cases hadv
  | enter rsp =>
      simp only [Machine.advance, hcur] at hadv
      split at hadv
      · cases hadv
      · next first hfirst =>
          cases hadv
          refine ⟨h.ring, ?_⟩
          rintro u rsp (hu | hu) <;> cases hu
          exact h.ring.next_lt hlt hfirst
  | scan next rsp =>
      have hnext := h.cursor next rsp (.inl rfl)
      simp only [Machine.advance] at hadv
      split at hadv
      · split at hadv
        · cases hadv
          exact .of_point h.ring (by simp)
        · cases hadv
          refine ⟨h.ring, ?_⟩
          rintro u rsp (hu | hu) <;> cases hu
          exact hnext
      · split at hadv
        · cases hadv
        · next n hn =>
            split at hadv
            · cases hadv
              exact .of_point h.ring (by simp)
            · cases hadv
              refine ⟨h.ring, ?_⟩
              rintro u rsp (hu | hu) <;> cases hu
              exact h.ring.next_lt hnext hn
  | picked next rsp =>
      have hnext := h.cursor next rsp (.inr rfl)
      simp only [Machine.advance, hcur] at hadv
      cases hadv
      exact .of_point (h.ring.switchTo current hnext rsp) (by simp)

theorem MachineInv.step (h : MachineInv m) (hstep : m.Step e m') :
    MachineInv m' := by
  rcases step_cases hstep with ⟨u, rfl, rfl⟩ | ⟨rfl, hadv⟩ | ⟨-, hcase⟩
  · exact ⟨h.ring.setState u _, h.cursor⟩
  · exact h.advance hadv
  · obtain ⟨s', p'⟩ := m'
    rcases hcase with ⟨entry, r, rfl, hcreate, rfl⟩ | ⟨u, rfl, -, heq⟩ |
      ⟨rsp, rfl, heq⟩ | ⟨current, st, rsp, -, -, heq⟩
    · have hstep' : m.sched.Step (.createTask entry) s' := ⟨r, hcreate⟩
      exact .of_point (h.ring.step hstep') (by simp)
    · cases heq
      exact .of_point (h.ring.setState u _) (by simp)
    · cases heq
      exact .of_point h.ring (by simp)
    · cases heq
      exact .of_point (h.ring.setState current st) (by simp)

theorem MachineInv.run {rows : StackArray} {mem : UInt64 → UInt64}
    {events : List Event}
    (h : Trace Step ⟨(Sched.initial rows mem).init, .task⟩ events m) :
    MachineInv m :=
  h.invariant (fun _ _ _ hm hstep => hm.step hstep)
    (.of_point (Sched.RingInv.init rows mem) (by simp))

end Machine
end TermOS.Tasking
