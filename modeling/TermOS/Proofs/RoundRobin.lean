import Mathlib.Data.List.Rotate
import TermOS.Proofs.TaskRunning

/-!
# Taking turns

The running tasks in the order of the ring, from `current_task` on, are whose
turn it is next. A `schedule` takes the current task from the front of that
list and puts it at the back, so as many calls as there are running tasks have
each of them run once.
-/

namespace TermOS.Tasking

open TermOS.Lib

namespace Sched

variable {s s' : Sched} {c : List TaskPtr} {t current : TaskPtr}

/-! ## One turn -/

/-- The running tasks in the order of the ring, the current one first. -/
def Turns (s : Sched) (c : List TaskPtr) : Prop :=
  ∃ current l, s.currentTask = some current ∧ s.isRunning current = true ∧
    Ring s.next current l ∧ c = (current :: l).filter s.isRunning

theorem Turns.head (h : Turns s (t :: c)) : s.currentTask = some t := by
  obtain ⟨current, l, hcur, hrun, -, hc⟩ := h
  rw [List.filter_cons_of_pos hrun] at hc
  rw [hcur, (List.cons.inj hc).1]

theorem Turns.exists_cons (h : Turns s c) : ∃ t d, c = t :: d := by
  obtain ⟨current, l, -, hrun, -, hc⟩ := h
  rw [List.filter_cons_of_pos hrun] at hc
  exact ⟨_, _, hc⟩

/-- A ring entered at the first of its later cells with a property. -/
theorem filter_rotate {α : Type*} {p : α → Bool} {a b : α} {l m : List α}
    (hb : p b = true) (ha : p a = true) (hl : ∀ x ∈ l, p x = false) :
    (b :: (m ++ a :: l)).filter p = (l ++ b :: m).filter p ++ [a] := by
  have hnone : l.filter p = [] := List.filter_eq_nil_iff.2 fun x hx => by
    rw [hl x hx]
    exact Bool.false_ne_true
  rw [List.filter_cons_of_pos hb, List.filter_append, List.filter_cons_of_pos ha,
    List.filter_append, List.filter_cons_of_pos hb, hnone]
  rfl

theorem isRunning_switchTo (s : Sched) (prev t : TaskPtr) (rsp : UInt64) :
    (s.switchTo prev t rsp).isRunning = s.isRunning := by
  funext u
  simp only [isRunning, state_switchTo]

theorem next_switchTo (s : Sched) (prev t : TaskPtr) (rsp : UInt64) :
    (s.switchTo prev t rsp).next = s.next :=
  funext fun u => modifyTask_field Task.next s prev
    (fun task => { task with stackTop := rsp }) (fun _ => rfl) u

/-- A `schedule` puts the current task behind the others. -/
theorem Turns.schedule (h : Turns s (t :: c)) {fuel : Nat} {rsp : UInt64}
    (hsched : s.schedule fuel rsp = some s') :
    Turns s' (c ++ [t]) ∧
      ((c = [] ∧ s' = s) ∨ ∃ u d, c = u :: d ∧ s' = s.switchTo t u rsp) := by
  have hhead := h.head
  obtain ⟨current, l, hcur, hrun, hring, hc⟩ := id h
  obtain rfl : current = t := Option.some.inj (hcur.symm.trans hhead)
  have hl : c = l.filter s.isRunning := by
    rw [List.filter_cons_of_pos hrun] at hc
    exact (List.cons.inj hc).2
  rcases schedule_ring_cases hcur hring hsched with
    ⟨hfind, rfl⟩ | ⟨u, hfind, rfl⟩
  · have hnil : c = [] := by
      rw [hl, List.filter_eq_nil_iff]
      exact List.find?_eq_none.1 hfind
    subst hnil
    exact ⟨h, .inl ⟨rfl, rfl⟩⟩
  · obtain ⟨hu, l₁, m, rfl, hbefore⟩ := List.find?_eq_some_iff_append.1 hfind
    have hskip : ∀ x ∈ l₁, s.isRunning x = false := fun x hx => by
      simpa using hbefore x hx
    refine ⟨⟨u, m ++ current :: l₁, rfl, ?_, ?_, ?_⟩, .inr ?_⟩
    · rw [isRunning_switchTo, hu]
    · rw [next_switchTo]
      exact hring.rotate
    · rw [isRunning_switchTo, filter_rotate hu hrun hskip, hl]
    · refine ⟨u, m.filter s.isRunning, ?_, rfl⟩
      rw [hl, List.filter_append, List.filter_cons_of_pos hu,
        List.filter_eq_nil_iff.2 fun x hx => by
          rw [hskip x hx]
          exact Bool.false_ne_true]
      rfl

/-! ## Many turns -/

/-- Calls of `schedule`, one after the other, and which task is current after
each of them. -/
inductive Visits : Sched → List UInt64 → List TaskPtr → Sched → Prop
  | nil (s : Sched) : Visits s [] [] s
  | cons {s s₁ s' : Sched} {rsp : UInt64} {rsps : List UInt64} {t : TaskPtr}
      {ts : List TaskPtr} (head : Step s (.schedule rsp) s₁)
      (current : s₁.currentTask = some t) (tail : Visits s₁ rsps ts s') :
      Visits s (rsp :: rsps) (t :: ts) s'

variable {rsps : List UInt64} {ts : List TaskPtr}

theorem Visits.turns (h : Visits s rsps ts s') (hc : Turns s c) :
    Turns s' (c.rotate rsps.length) := by
  induction h generalizing c with
  | nil s =>
      rw [List.length_nil, List.rotate_zero]
      exact hc
  | cons head _ _ ih =>
      obtain ⟨t, d, rfl⟩ := hc.exists_cons
      obtain ⟨fuel, hsched⟩ := head
      rw [List.length_cons, List.rotate_cons_succ]
      exact ih (hc.schedule hsched).1

/-- No more calls than running tasks: those behind the current one, in their
order, and the current one last. -/
theorem Visits.visited (h : Visits s rsps ts s') (hc : Turns s (t :: c))
    (hle : rsps.length ≤ c.length + 1) :
    ts = (c ++ [t]).take rsps.length := by
  induction h generalizing t c with
  | nil s => rw [List.length_nil, List.take_zero]
  | @cons s s₁ s' rsp rsps u ts head current _ ih =>
      obtain ⟨fuel, hsched⟩ := head
      have hnext := (hc.schedule hsched).1
      obtain ⟨v, d, hd⟩ := hnext.exists_cons
      have hlen : d.length = c.length := by
        have hlength := congrArg List.length hd
        simp only [List.length_append, List.length_cons, List.length_nil]
          at hlength
        omega
      rw [hd] at hnext ⊢
      obtain rfl : v = u := Option.some.inj (hnext.head.symm.trans current)
      rw [List.length_cons] at hle ⊢
      rw [ih hnext (by omega), List.take_succ_cons,
        List.take_append_of_le_length (by omega)]

theorem RingInv.exists_visits (h : RingInv s) (rsps : List UInt64) :
    ∃ ts s', Visits s rsps ts s' := by
  induction rsps generalizing s with
  | nil => exact ⟨[], s, .nil s⟩
  | cons rsp rsps ih =>
      have hop : ∀ t, Op.schedule rsp = .unblock t ∨
          Op.schedule rsp = .killTask t → t.val < s.taskPoolIdx := by
        rintro t (ht | ht)
        · cases ht
        · cases ht
      obtain ⟨s₁, hstep⟩ := h.step_total hop
      have hinv := h.step hstep
      obtain ⟨t, ht, -⟩ := hinv.current
      obtain ⟨ts, s', hvisits⟩ := ih hinv
      exact ⟨t :: ts, s', .cons hstep ht hvisits⟩

/-! ## As many turns as there are running tasks -/

/-- How many tasks are in state RUNNING. -/
def runningCount (s : Sched) : Nat :=
  (List.finRange 16).countP fun t =>
    decide (t.val < s.taskPoolIdx) && s.isRunning t

theorem isRunning_iff : s.isRunning t = true ↔ s.state t = .running :=
  decide_eq_true_iff

/-- The running tasks of a ring of all tasks. -/
theorem mem_turns {l : List TaskPtr}
    (hmem : ∀ t : TaskPtr, t ∈ current :: l ↔ t.val < s.taskPoolIdx) :
    t ∈ (current :: l).filter s.isRunning ↔
      t.val < s.taskPoolIdx ∧ s.state t = .running := by
  rw [List.mem_filter, hmem, isRunning_iff]

theorem length_turns (hnodup : c.Nodup)
    (hmem : ∀ t : TaskPtr, t ∈ c ↔
      t.val < s.taskPoolIdx ∧ s.state t = .running) :
    c.length = s.runningCount := by
  rw [runningCount, List.countP_eq_length_filter]
  refine List.Perm.length_eq ((List.perm_ext_iff_of_nodup hnodup
    ((List.nodup_finRange 16).filter _)).2 fun t => ?_)
  rw [hmem, List.mem_filter, Bool.and_eq_true, decide_eq_true_iff,
    isRunning_iff]
  exact ⟨fun h => ⟨List.mem_finRange t, h⟩, And.right⟩

/-- The kernel task goes on with a task behind it. -/
theorem createTask_init (rows : StackArray) (mem : UInt64 → UInt64)
    (entry : UInt64) :
    ∃ s current, Trace Step (initial rows mem).init [.createTask entry] s ∧
      s.currentTask = some current ∧ s.state current = .running := by
  have hkernel : (initial rows mem).init.taskList = some 0 := rfl
  have hrunning : (initial rows mem).init.state 0 = .running := rfl
  rcases (RingInv.init rows mem).createTask entry with
    ⟨s, head, t, heq, hlist, -, hc⟩ | ⟨-, -, -, hfull⟩
  · refine ⟨s, head, .cons ⟨_, heq⟩ (.nil s), hc.current.trans hlist, ?_⟩
    rw [state, hc.headTask, ← Option.some.inj (hkernel.symm.trans hlist)]
    exact hrunning
  · cases hfull

/-- Whatever the reachable ring, if its current task is running: a `schedule`
moves on to the first running task behind it in the ring, and stores its stack
pointer, or does nothing if there is none. As many calls as there are running
tasks make each of these current, no other, and the one they started from
last. -/
theorem round_robin {rows : StackArray} {mem : UInt64 → UInt64} {ops : List Op}
    (hreach : Trace Step (initial rows mem).init ops s)
    (hcur : s.currentTask = some current)
    (hrunning : s.state current = .running) :
    (∃ ring : List TaskPtr, Ring s.next current ring ∧
      (∀ t : TaskPtr, t ∈ current :: ring ↔ t.val < s.taskPoolIdx) ∧
      ∀ rsp s', Step s (.schedule rsp) s' →
        (ring.find? s.isRunning = none ∧ s' = s) ∨
          ∃ t, ring.find? s.isRunning = some t ∧
            s' = s.switchTo current t rsp) ∧
    ∀ rsps : List UInt64, rsps.length = s.runningCount →
      (∃ ts s', Visits s rsps ts s') ∧
      ∀ ts s', Visits s rsps ts s' →
        ts.Nodup ∧
        (∀ t : TaskPtr, t ∈ ts ↔
          t.val < s.taskPoolIdx ∧ s.state t = .running) ∧
        s'.currentTask = some current := by
  have hinv := RingInv.run hreach
  obtain ⟨current', l, hcur', hring, hmem, -⟩ := hinv.enter
  obtain rfl : current' = current := Option.some.inj (hcur'.symm.trans hcur)
  refine ⟨⟨l, hring, hmem, ?_⟩, ?_⟩
  · rintro rsp s' ⟨fuel, hsched⟩
    exact schedule_ring_cases hcur hring hsched
  · intro rsps hlen
    refine ⟨hinv.exists_visits rsps, fun ts s' hvisits => ?_⟩
    have hrun := isRunning_iff.2 hrunning
    have hturns : Turns s (current' :: l.filter s.isRunning) :=
      ⟨current', l, hcur, hrun, hring, (List.filter_cons_of_pos hrun).symm⟩
    have hin : ∀ t : TaskPtr, t ∈ current' :: l.filter s.isRunning ↔
        t.val < s.taskPoolIdx ∧ s.state t = .running := fun t => by
      rw [← mem_turns hmem, List.filter_cons_of_pos hrun]
    have hnodup : (current' :: l.filter s.isRunning).Nodup := by
      have hfilter := hring.nodup.filter s.isRunning
      rwa [List.filter_cons_of_pos hrun] at hfilter
    rw [← length_turns hnodup hin] at hlen
    have hts := hvisits.visited hturns (Nat.le_of_eq hlen)
    rw [hlen, List.length_cons, List.take_of_length_le (by simp)] at hts
    have hperm : ts.Perm (current' :: l.filter s.isRunning) := by
      rw [hts]
      exact List.perm_append_singleton _ _
    have hend := hvisits.turns hturns
    rw [hlen, List.rotate_length] at hend
    exact ⟨hperm.nodup_iff.2 hnodup, fun t => (hperm.mem_iff).trans (hin t),
      hend.head⟩

/-- Behind `init` and a `create_task`, whose turn it is. -/
theorem round_robin_two :
    ∃ s, Trace Step (initial ⟨0x20000, by decide⟩ fun _ => 0).init
        [.createTask 0x9000] s ∧
      ∀ rsps : List UInt64, rsps.length = s.runningCount →
        ∃ ts s', Visits s rsps ts s' ∧ ts.Nodup ∧
          s'.currentTask = s.currentTask := by
  refine (createTask_init ⟨0x20000, by decide⟩ (fun _ => 0) 0x9000).imp
    fun s h => h.elim fun current h => ⟨h.1, fun rsps hlen => ?_⟩
  have hturns := (round_robin h.1 h.2.1 h.2.2).2 rsps hlen
  obtain ⟨ts, s', hvisits⟩ := hturns.1
  have hend := hturns.2 ts s' hvisits
  exact ⟨ts, s', hvisits, hend.1, hend.2.2.trans h.2.1.symm⟩

end Sched

end TermOS.Tasking
