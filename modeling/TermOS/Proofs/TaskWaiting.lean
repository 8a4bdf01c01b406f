import TermOS.Proofs.TaskMachine

/-!
# How long a task waits for the CPU

A running task that is not the current one has the tasks between the two in
the ring ahead of it. Whatever `schedule` chooses is one of them or the task
itself, so every call that comes to its end leaves fewer ahead, however the
states of the others change on the way. `create_task` is what works against
that: it splices its task in behind `task_list`, which may be ahead as well.
But it also makes the pool larger by one, and so the wait is shorter than the
number of tasks at its end.

The measure is taken on the machine of `TaskSteps`, since a kill may land
between the choice of a task and its switch. A `schedule` that was already on
its way when the wait begins may have passed the task by, and does not count.
-/

namespace TermOS.Tasking

open TermOS.Lib

namespace Sched

variable {s s' : Sched} {t u current : TaskPtr} {l : List TaskPtr}

/-- In the ring, which is one of all tasks, those of `l` stand between the
current one and `t`. -/
def Ahead (s : Sched) (t : TaskPtr) (l : List TaskPtr) : Prop :=
  ∃ current m, s.currentTask = some current ∧
    Ring s.next current (l ++ t :: m) ∧
    ∀ u : TaskPtr, u ∈ current :: (l ++ t :: m) ↔ u.val < s.taskPoolIdx

namespace Ahead

theorem frame (h : s.Ahead t l) (hcur : s'.currentTask = s.currentTask)
    (hidx : s'.taskPoolIdx = s.taskPoolIdx)
    (hnext : ∀ v, s'.next v = s.next v) : s'.Ahead t l := by
  obtain ⟨current, m, hc, hring, hmem⟩ := h
  refine ⟨current, m, hcur.trans hc, hring.congr fun v _ => hnext v, ?_⟩
  rw [hidx]
  exact hmem

theorem setState (h : s.Ahead t l) (u : TaskPtr) (st : TaskState) :
    (s.setState u st).Ahead t l :=
  h.frame rfl rfl (modifyTask_field Task.next s u
    (fun task => { task with state := st }) fun _ => rfl)

/-- The current task is neither `t` nor ahead of it. -/
theorem current_notMem (h : s.Ahead t l) (hcur : s.currentTask = some current) :
    current ∉ l ++ [t] := by
  obtain ⟨c, m, hc, hring, -⟩ := h
  obtain rfl : c = current := Option.some.inj (hc.symm.trans hcur)
  intro hmem
  refine (List.nodup_cons.1 hring.nodup).1 ?_
  rw [List.append_cons]
  exact List.mem_append_left m hmem

theorem current_ne (h : s.Ahead t l) : s.currentTask ≠ some t := by
  intro hcur
  exact h.current_notMem hcur
    (List.mem_append_right l (List.mem_singleton_self t))

/-- On the way to `t` nobody is left out. -/
theorem next_mem (h : s.Ahead t l) (hcur : s.currentTask = some current)
    (hu : u ∈ current :: l) {n : TaskPtr} (hn : s.next u = some n) :
    n ∈ l ++ [t] := by
  obtain ⟨c, m, hc, hring, -⟩ := h
  obtain rfl : c = current := Option.some.inj (hc.symm.trans hcur)
  exact (Segment.append_cons.1 hring.closed).1.next_mem hu hn

/-- A switch to a task ahead leaves fewer of them. -/
theorem switchTo (h : s.Ahead t l) (hu : u ∈ l) (prev : TaskPtr)
    (rsp : UInt64) :
    ∃ l', (s.switchTo prev u rsp).Ahead t l' ∧ l'.length < l.length := by
  obtain ⟨current, m, -, hring, hmem⟩ := h
  obtain ⟨l₁, l₂, rfl⟩ := List.append_of_mem hu
  have heq : l₁ ++ u :: l₂ ++ t :: m = l₁ ++ u :: (l₂ ++ t :: m) := by simp
  rw [heq] at hring hmem
  have hrotate := hring.rotate
  rw [List.append_assoc, List.cons_append] at hrotate
  refine ⟨l₂, ⟨u, m ++ current :: l₁, rfl, ?_, fun v => ?_⟩, ?_⟩
  · exact hrotate.congr fun v _ => modifyTask_field Task.next s prev
      (fun task => { task with stackTop := rsp }) (fun _ => rfl) v
  · refine Iff.trans ?_ (hmem v)
    simp only [List.mem_cons, List.mem_append]
    tauto
  · rw [List.length_append, List.length_cons]
    omega

end Ahead

/-- Where a running task other than the current one stands. -/
theorem RingInv.exists_ahead (h : s.RingInv) (ht : t.val < s.taskPoolIdx)
    (hne : s.currentTask ≠ some t) :
    ∃ l, s.Ahead t l ∧ l.length + 2 ≤ s.taskPoolIdx := by
  obtain ⟨current, k, hcur, hring, hmem, hlen⟩ := h.enter
  rcases List.mem_cons.1 ((hmem t).2 ht) with rfl | hk
  · exact absurd hcur hne
  · obtain ⟨l, m, rfl⟩ := List.append_of_mem hk
    refine ⟨l, ⟨current, m, hcur, hring, hmem⟩, ?_⟩
    rw [List.length_append, List.length_cons] at hlen
    omega

variable {entry : UInt64} {head n : TaskPtr}

/-- The new task, wherever in the ring the head stands. -/
theorem Created.ring_at {m : List TaskPtr} (hc : Created s entry head n s')
    (hring : Ring s.next current (l ++ head :: m))
    (hfresh : n ∉ current :: (l ++ head :: m)) :
    Ring s'.next current (l ++ head :: n :: m) := by
  have hat : Ring s'.next head (n :: (m ++ current :: l)) := by
    refine hc.ring hring.rotate fun hmem => hfresh ?_
    simp only [List.mem_cons, List.mem_append] at hmem ⊢
    tauto
  exact @Ring.rotate _ _ _ _ (n :: m) l hat

/-- It may come before `t`. -/
theorem Ahead.created (h : s.Ahead t l) (hhead : head.val < s.taskPoolIdx)
    (hc : Created s entry head n s') :
    ∃ l', s'.Ahead t l' ∧ l'.length ≤ l.length + 1 := by
  obtain ⟨current, m, hcur, hring, hmem⟩ := h
  have hcurrent := hc.current.trans hcur
  have hfresh : n ∉ current :: (l ++ t :: m) := by
    rw [hmem, hc.slot]
    exact Nat.lt_irrefl _
  have hmem' : ∀ {k : List TaskPtr}, (∀ u, u ∈ current :: k ↔
      u = n ∨ u ∈ current :: (l ++ t :: m)) →
      ∀ u : TaskPtr, u ∈ current :: k ↔ u.val < s'.taskPoolIdx := by
    intro k hk u
    rw [hk, hmem, hc.lt_idx_iff]
  have hin := (hmem head).2 hhead
  simp only [List.mem_cons, List.mem_append] at hin
  rcases hin with rfl | hl | rfl | hm
  · refine ⟨n :: l, ⟨head, m, hcurrent, hc.ring hring hfresh, hmem' ?_⟩, ?_⟩
    · intro u
      simp only [List.cons_append, List.mem_cons, List.mem_append]
      tauto
    · rw [List.length_cons]
  · obtain ⟨l₁, l₂, rfl⟩ := List.append_of_mem hl
    refine ⟨l₁ ++ head :: n :: l₂, ⟨current, m, hcurrent, ?_, hmem' ?_⟩, ?_⟩
    · rw [List.append_assoc, List.cons_append] at hring hfresh
      rw [List.append_assoc, List.cons_append, List.cons_append]
      exact hc.ring_at hring hfresh
    · intro u
      simp only [List.mem_cons, List.mem_append]
      tauto
    · simp only [List.length_append, List.length_cons]
      omega
  · refine ⟨l, ⟨current, n :: m, hcurrent, hc.ring_at hring hfresh,
      hmem' ?_⟩, Nat.le_succ _⟩
    intro u
    simp only [List.mem_cons, List.mem_append]
    tauto
  · obtain ⟨m₁, m₂, rfl⟩ := List.append_of_mem hm
    refine ⟨l, ⟨current, m₁ ++ head :: n :: m₂, hcurrent, ?_, hmem' ?_⟩,
      Nat.le_succ _⟩
    · have hassoc : ∀ k, l ++ t :: (m₁ ++ head :: k) =
          (l ++ t :: m₁) ++ head :: k := fun k => by simp
      rw [hassoc] at hring hfresh ⊢
      exact hc.ring_at hring hfresh
    · intro u
      simp only [List.mem_cons, List.mem_append]
      tauto

/-- The first task that is created, behind the kernel task in the ring. -/
theorem createTask_first (rows : StackArray) (mem : UInt64 → UInt64)
    (entry : UInt64) :
    ∃ s, (initial rows mem).init.createTask entry = some (some 1, s) ∧
      s.currentTask = some 0 ∧ (s.taskPool 0).next = some 1 ∧
      (s.taskPool 1).state = .running ∧ s.taskPoolIdx = 2 := by
  have hkernel : (initial rows mem).init.taskList = some 0 := rfl
  rcases (RingInv.init rows mem).createTask entry with
    ⟨s, head, n, heq, hlist, -, hc⟩ | ⟨-, -, -, hfull⟩
  · obtain rfl : 0 = head := Option.some.inj (hkernel.symm.trans hlist)
    obtain rfl : n = 1 := Fin.ext hc.slot
    refine ⟨s, heq, hc.current, ?_, ?_, hc.idx⟩
    · rw [hc.headTask]
    · rw [hc.newTask]
  · cases hfull

end Sched

/-- The events that call `schedule`. -/
def Event.calls : Event → Bool
  | .schedule _ | .blockCurrent _ | .exitCurrent _ => true
  | _ => false

/-- A search that has not passed `t` by. -/
def Point.Before (t : TaskPtr) (l : List TaskPtr) : Point → Prop
  | .scan u _ | .picked u _ => u ∈ l ++ [t]
  | .task | .enter _ => True

namespace Machine

variable {m m' : Machine} {e : Event} {t : TaskPtr} {n : Nat}

/-- `t` waits for the CPU, and has it after `n` more calls of `schedule` if
the pool stays as it is. A call under way is one that `n` no longer counts. -/
structure Waits (m : Machine) (t : TaskPtr) (n : Nat) : Prop where
  inv : MachineInv m
  allocated : t.val < m.sched.taskPoolIdx
  running : m.sched.state t = .running
  place : (∃ l, m.sched.Ahead t l ∧ m.point.Before t l ∧
      l.length + (if m.point = .task then 1 else 0) ≤ n) ∨
    m.point ≠ .task ∧ m.sched.taskPoolIdx ≤ n + 1

/-- Between two calls, with the number of the other tasks for `n`. -/
theorem Waits.of_task (hm : MachineInv m) (hp : m.point = .task)
    (ht : t.val < m.sched.taskPoolIdx) (hrun : m.sched.state t = .running)
    (hn : m.sched.taskPoolIdx ≤ n + 1) :
    m.sched.currentTask = some t ∨ m.Waits t n := by
  by_cases hcur : m.sched.currentTask = some t
  · exact .inl hcur
  · obtain ⟨l, hl, hlen⟩ := hm.ring.exists_ahead ht hcur
    refine .inr ⟨hm, ht, hrun, .inl ⟨l, hl, ?_, ?_⟩⟩
    · rw [hp]
      trivial
    · rw [if_pos hp]
      omega

theorem Waits.start (hm : MachineInv m) (ht : t.val < m.sched.taskPoolIdx)
    (hrun : m.sched.state t = .running)
    (hn : m.sched.taskPoolIdx ≤ n + 1) :
    m.sched.currentTask = some t ∨ m.Waits t n := by
  by_cases hp : m.point = .task
  · exact of_task hm hp ht hrun hn
  · exact .inr ⟨hm, ht, hrun, .inr ⟨hp, hn⟩⟩

/-! ## One step -/

/-- The search, cut by cut, and the switch. -/
theorem Waits.advance (h : m.Waits t n)
    (hadv : Machine.advance m.sched m.point = some m') :
    m'.sched.currentTask = some t ∨ m'.Waits t n := by
  have hinv := h.inv.advance hadv
  have hsame : m'.sched.taskPoolIdx = m.sched.taskPoolIdx ∧
      m'.sched.state t = m.sched.state t := by
    rcases advance_cases hadv with ⟨hs, -⟩ | ⟨prev, next, rsp, -, -, rfl⟩
    · rw [hs]
      exact ⟨rfl, rfl⟩
    · exact ⟨rfl, Sched.state_switchTo _ prev next t rsp⟩
  have ht : t.val < m'.sched.taskPoolIdx := by
    rw [hsame.1]
    exact h.allocated
  have hrun := hsame.2.trans h.running
  obtain ⟨l, hl, hbefore, hlen⟩ | ⟨-, hn⟩ := h.place
  swap
  · exact start hinv ht hrun (hsame.1 ▸ hn)
  obtain ⟨s, point⟩ := m
  obtain ⟨current, hcur, -⟩ := h.inv.ring.current
  simp only at hl hbefore hlen hcur hadv
  have hnot := hl.current_notMem hcur
  cases point with
  | task => cases hadv
  | enter rsp =>
      simp only [Machine.advance, hcur] at hadv
      split at hadv
      · cases hadv
      · next first hfirst =>
          cases hadv
          exact .inr ⟨hinv, ht, hrun, .inl ⟨l, hl,
            hl.next_mem hcur List.mem_cons_self hfirst, hlen⟩⟩
  | scan u rsp =>
      have hu : u ∈ l ++ [t] := hbefore
      simp only [Machine.advance] at hadv
      split at hadv
      · split at hadv
        · next hucur =>
            obtain rfl := Option.some.inj (hcur.symm.trans hucur)
            exact absurd hu hnot
        · cases hadv
          exact .inr ⟨hinv, ht, hrun, .inl ⟨l, hl, hu, hlen⟩⟩
      · next hstate =>
          -- It goes on, and so this one is not `t`.
          have hul : u ∈ l := by
            rcases List.mem_append.1 hu with hul | hut
            · exact hul
            · obtain rfl := List.mem_singleton.1 hut
              exact absurd h.running hstate
          split at hadv
          · cases hadv
          · next v hv =>
              have hvl := hl.next_mem hcur (List.mem_cons_of_mem current hul) hv
              split at hadv
              · next hvcur =>
                  obtain rfl := Option.some.inj (hcur.symm.trans hvcur)
                  exact absurd hvl hnot
              · cases hadv
                exact .inr ⟨hinv, ht, hrun, .inl ⟨l, hl, hvl, hlen⟩⟩
  | picked u rsp =>
      have hu : u ∈ l ++ [t] := hbefore
      simp only [Machine.advance, hcur] at hadv
      cases hadv
      rcases List.mem_append.1 hu with hul | hut
      · obtain ⟨l', hl', hlt⟩ := hl.switchTo hul current rsp
        refine .inr ⟨hinv, ht, hrun, .inl ⟨l', hl', trivial, ?_⟩⟩
        rw [if_pos rfl]
        exact Nat.le_trans hlt (Nat.le_trans (Nat.le_add_right _ _) hlen)
      · obtain rfl := List.mem_singleton.1 hut
        exact .inl rfl

/-- An event that is not a kill of `t` brings it to the CPU, or leaves it
waiting: for one call less if it is one, and for one more if it creates a
task. -/
theorem Waits.step (h : m.Waits t n) (he : e ≠ .killTask t)
    (hstep : m.Step e m') :
    m'.sched.currentTask = some t ∨ ∃ n', m'.Waits t n' ∧
      n' + [e].countP Event.calls + m.sched.taskPoolIdx ≤
        n + m'.sched.taskPoolIdx := by
  have hinv := h.inv.step hstep
  rcases step_cases hstep with ⟨u, rfl, rfl⟩ | ⟨rfl, hadv⟩ | ⟨hp, hcase⟩
  · have hne : t ≠ u := fun heq => he (heq ▸ rfl)
    refine .inr ⟨n, ⟨hinv, h.allocated, ?_, ?_⟩, Nat.le_refl _⟩
    · exact (Sched.state_setState_of_ne m.sched hne .zombie).trans h.running
    · obtain ⟨l, hl, hplace⟩ | hlate := h.place
      · exact .inl ⟨l, hl.setState u .zombie, hplace⟩
      · exact .inr hlate
  · have hidx := idx_le_of_step hstep
    rcases h.advance hadv with hcur | hw
    · exact .inl hcur
    · exact .inr ⟨n, hw, Nat.add_le_add_left hidx _⟩
  · obtain ⟨l, hl, -, hlen⟩ | ⟨hlate, -⟩ := h.place
    swap
    · exact absurd hp hlate
    rw [if_pos hp] at hlen
    rcases hcase with ⟨entry, r, rfl, hcreate, hp'⟩ | ⟨u, rfl, hu, rfl⟩ |
      ⟨rsp, rfl, rfl⟩ | ⟨current, st, rsp, hcur, hst, rfl⟩
    · have hlinks := (Sched.createTask_frame hcreate).2.2 t h.allocated
      have hrun := (congrArg Task.state hlinks).trans h.running
      have ht := Nat.lt_of_lt_of_le h.allocated (idx_le_of_step hstep)
      have hplace : ∃ l', m'.sched.Ahead t l' ∧
          l'.length + m.sched.taskPoolIdx ≤ l.length + m'.sched.taskPoolIdx := by
        rcases h.inv.ring.createTask entry with
          ⟨s', head, x, heq, hlist, -, hc⟩ | ⟨k, mem, heq, -⟩
        · obtain ⟨-, rfl⟩ := Prod.mk.inj (Option.some.inj (hcreate.symm.trans heq))
          obtain ⟨head', r', hlist', -, hmem⟩ := h.inv.ring.ring
          obtain rfl := Option.some.inj (hlist.symm.trans hlist')
          obtain ⟨l', hl', hle⟩ :=
            hl.created ((hmem head).1 List.mem_cons_self) hc
          refine ⟨l', hl', ?_⟩
          rw [hc.idx]
          omega
        · have hs := (Prod.mk.inj (Option.some.inj (hcreate.symm.trans heq))).2
          refine ⟨l, ?_, ?_⟩
          · rw [hs]
            exact hl
          · rw [hs]
      obtain ⟨l', hl', hle⟩ := hplace
      refine .inr ⟨l'.length + 1, ⟨hinv, ht, hrun, .inl ⟨l', hl', ?_, ?_⟩⟩, ?_⟩
      · rw [hp']
        trivial
      · rw [if_pos hp']
      · show l'.length + 1 + 0 + m.sched.taskPoolIdx ≤ _
        omega
    · refine .inr ⟨n, ⟨hinv, h.allocated, ?_, .inl
        ⟨l, hl.setState u .running, trivial, hlen⟩⟩, Nat.le_refl _⟩
      by_cases htu : t = u
      · rw [htu]
        exact Sched.state_setState_self m.sched u .running
      · exact (Sched.state_setState_of_ne m.sched htu .running).trans h.running
    · refine .inr ⟨n - 1, ⟨hinv, h.allocated, h.running, .inl
        ⟨l, hl, trivial, ?_⟩⟩, ?_⟩
      · show l.length + 0 ≤ n - 1
        omega
      · show n - 1 + 1 + m.sched.taskPoolIdx ≤ n + m.sched.taskPoolIdx
        omega
    · have hne : t ≠ current := fun heq => hl.current_ne (heq ▸ hcur)
      have hcount : [e].countP Event.calls = 1 := by
        rcases hst with ⟨rfl, -⟩ | ⟨rfl, -⟩ <;> rfl
      refine .inr ⟨n - 1, ⟨hinv, h.allocated, ?_, .inl
        ⟨l, hl.setState current st, trivial, ?_⟩⟩, ?_⟩
      · exact (Sched.state_setState_of_ne m.sched hne st).trans h.running
      · show l.length + 0 ≤ n - 1
        omega
      · rw [hcount]
        show n - 1 + 1 + m.sched.taskPoolIdx ≤ n + m.sched.taskPoolIdx
        omega

/-! ## The whole wait -/

/-- Nobody starves. Wherever a task is found running, at whatever cut of the
scheduler, and whatever happens from then on, other tasks being created,
killed, blocked and unblocked at any point: if the task itself is not killed,
it has the CPU before `schedule` is called as often as there are tasks in the
end. -/
theorem no_starvation {rows : StackArray} {mem : UInt64 → UInt64}
    {before events : List Event}
    (hreach : Trace Step ⟨(Sched.initial rows mem).init, .task⟩ before m)
    (ht : t.val < m.sched.taskPoolIdx) (hrun : m.sched.state t = .running)
    (h : Trace Step m events m') (hkill : .killTask t ∉ events)
    (hcalls : m'.sched.taskPoolIdx ≤ events.countP Event.calls) :
    ∃ pre post u, events = pre ++ post ∧ Trace Step m pre u ∧
      Trace Step u post m' ∧ u.sched.currentTask = some t := by
  have hm := MachineInv.run hreach
  have hpos : 0 < m.sched.taskPoolIdx := Nat.zero_lt_of_lt ht
  rcases Waits.start hm ht hrun (n := m.sched.taskPoolIdx - 1)
      (by omega) with
    hcur | hw
  · exact ⟨[], events, m, rfl, .nil m, h, hcur⟩
  · rcases Trace.paid (Q := fun e => e ≠ .killTask t)
      (D := fun m : Machine => m.sched.currentTask = some t)
      (W := fun m n => m.Waits t n)
      (g := fun m : Machine => m.sched.taskPoolIdx) (p := Event.calls)
      (fun m e m' n hw he hstep => hw.step he hstep) h
      (fun e he heq => hkill (heq ▸ he)) hw with hfound | ⟨n', -, hle⟩
    · exact hfound
    · omega

/-- A kill of the caller, in the middle of the call that brings the new task to
the CPU. -/
theorem no_starvation_kill : ∃ m m',
    Trace Step ⟨(Sched.initial ⟨0x20000, by decide⟩ fun _ => 0).init, .task⟩
      [.createTask 0x8000] m ∧
    Trace Step m [.schedule 0x8FF00, .advance, .killTask 0, .advance, .advance,
      .schedule 0x20E00] m' ∧
    ∃ pre post u, [.schedule 0x8FF00, .advance, .killTask 0, .advance, .advance,
        .schedule 0x20E00] = pre ++ post ∧
      Trace Step m pre u ∧ Trace Step u post m' ∧
      u.sched.currentTask = some 1 := by
  refine (Sched.createTask_first ⟨0x20000, by decide⟩ (fun _ => 0) 0x8000).elim
    fun s hfirst => ?_
  have hcreate := hfirst.1
  have hcur := hfirst.2.1
  have hnext := hfirst.2.2.1
  have hrun := hfirst.2.2.2.1
  have hidx := hfirst.2.2.2.2
  have hkilled : ((s.killTask (some 0)).taskPool 1).state = .running :=
    (Sched.state_setState_of_ne s (by decide) .zombie).trans hrun
  have hreach : Trace Step
      ⟨(Sched.initial ⟨0x20000, by decide⟩ fun _ => 0).init, .task⟩
      [.createTask 0x8000] ⟨s, .task⟩ :=
    .cons (by simp [Step, step, hcreate]) (.nil _)
  have h : Trace Step ⟨s, .task⟩ [.schedule 0x8FF00, .advance, .killTask 0,
      .advance, .advance, .schedule 0x20E00]
      ⟨(s.killTask (some 0)).switchTo 0 1 0x8FF00, .enter 0x20E00⟩ := by
    have hcur' : (s.killTask (some 0)).currentTask = some 0 := hcur
    have hscan : Step ⟨s, .enter 0x8FF00⟩ .advance ⟨s, .scan 1 0x8FF00⟩ := by
      simp [Step, step, advance, hcur, hnext]
    have hkill : Step ⟨s, .scan 1 0x8FF00⟩ (.killTask 0)
        ⟨s.killTask (some 0), .scan 1 0x8FF00⟩ := by
      simp [Step, step, hidx]
    have hpick : Step ⟨s.killTask (some 0), .scan 1 0x8FF00⟩ .advance
        ⟨s.killTask (some 0), .picked 1 0x8FF00⟩ := by
      simp [Step, step, advance, hcur', hkilled]
    have hswitch : Step ⟨s.killTask (some 0), .picked 1 0x8FF00⟩ .advance
        ⟨(s.killTask (some 0)).switchTo 0 1 0x8FF00, .task⟩ := by
      simp [Step, step, advance, hcur']
    exact .cons rfl (.cons hscan (.cons hkill (.cons hpick (.cons hswitch
      (.cons rfl (.nil _))))))
  refine ⟨_, _, hreach, h, no_starvation hreach ?_ hrun h ?_ ?_⟩
  · show 1 < s.taskPoolIdx
    rw [hidx]
    decide
  · simp
  · show s.taskPoolIdx ≤ 2
    rw [hidx]

end Machine

end TermOS.Tasking
