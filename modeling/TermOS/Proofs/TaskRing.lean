import Mathlib.Tactic.Common
import TermOS.Lib.Ring
import TermOS.Lib.Trace
import TermOS.Ref.Task

/-!
# The tasks form one ring

`next` pointers are written in two places, `init` and the two stores at the
end of `create_task`; everything else the scheduler does is to a task's state,
a saved stack pointer or `current_task`. So the ring is carried by one frame
lemma for the operations that write no pointer and one splice for the one that
does. Slot numbers do the rest of the bookkeeping: slot `k` is the `k`-th task
allocated, its pid is `k + 1`, and for `k > 0` its stack is `task_stacks[k-1]`.

The search loop of `schedule` is then read off the ring as a list search. On
the ring entered at `current_task`, with the other tasks `l` in ring order,
the loop finds the first running task of `l`; the ring's length bounds the
states it inspects, and no state enters into that bound.
-/

namespace TermOS.Tasking

open TermOS.Lib

/-- The fields that tie a task to the others and to its stack. -/
def Task.links (t : Task) : Option TaskPtr × UInt64 × UInt64 × UInt64 :=
  (t.next, t.pid, t.stackBase, t.stackSize)

namespace Sched

variable {s s' : Sched}

def next (s : Sched) (t : TaskPtr) : Option TaskPtr := (s.taskPool t).next

def state (s : Sched) (t : TaskPtr) : TaskState := (s.taskPool t).state

def isRunning (s : Sched) (t : TaskPtr) : Bool := decide (s.state t = .running)

/-! ## Reading a pool with one slot rewritten -/

theorem modifyTask_self (s : Sched) (t : TaskPtr) (f : Task → Task) :
    (s.modifyTask t f).taskPool t = f (s.taskPool t) :=
  Function.update_self _ _ _

theorem modifyTask_of_ne (s : Sched) {t u : TaskPtr} (h : u ≠ t)
    (f : Task → Task) : (s.modifyTask t f).taskPool u = s.taskPool u :=
  Function.update_of_ne h _ _

/-- A field that the rewriting leaves alone is unchanged in every slot. -/
theorem modifyTask_field {β : Type*} (field : Task → β) (s : Sched)
    (t : TaskPtr) (f : Task → Task) (hf : ∀ task, field (f task) = field task)
    (u : TaskPtr) :
    field ((s.modifyTask t f).taskPool u) = field (s.taskPool u) := by
  by_cases hu : u = t
  · rw [hu, modifyTask_self, hf]
  · rw [modifyTask_of_ne s hu]

/-! ## The search loop -/

/-- More fuel never changes an answer of the loop. -/
theorem searchLoop_mono {current : TaskPtr} {r : Option TaskPtr} {n : Nat} :
    ∀ {m : Nat} {t : TaskPtr}, s.searchLoop current n t = some r → n ≤ m →
      s.searchLoop current m t = some r := by
  induction n with
  | zero => intro m t h _; cases h
  | succ n ih =>
      intro m t h hle
      obtain ⟨m, rfl⟩ : ∃ k, m = k + 1 := ⟨m - 1, by omega⟩
      simp only [searchLoop] at h ⊢
      split at h
      · next hrun => rw [if_pos hrun]; exact h
      · next hrun =>
          rw [if_neg hrun]
          split at h
          · cases h
          · next u _ =>
              split at h
              · next hcur => rw [if_pos hcur]; exact h
              · next hcur => rw [if_neg hcur]; exact ih h (by omega)

/-- Along a segment that ends at `current_task`, the loop is the list search
for a running task. It inspects each cell of the segment at most once. -/
theorem searchLoop_segment {current : TaskPtr} :
    ∀ {l : List TaskPtr} {t : TaskPtr} {fuel : Nat},
      Segment s.next t l current → current ∉ t :: l → l.length < fuel →
      s.searchLoop current fuel t =
        some ((t :: l).find? s.isRunning) := by
  intro l
  induction l with
  | nil =>
      intro t fuel hseg _ hfuel
      obtain ⟨fuel, rfl⟩ : ∃ k, fuel = k + 1 := ⟨fuel - 1, by omega⟩
      have hnext : (s.taskPool t).next = some current := hseg
      simp only [searchLoop, hnext, if_true]
      by_cases hrun : (s.taskPool t).state = .running
      · simp [isRunning, state, hrun]
      · simp [isRunning, state, hrun]
  | cons u l ih =>
      intro t fuel hseg hcur hfuel
      simp only [List.length_cons] at hfuel
      obtain ⟨fuel, rfl⟩ : ∃ k, fuel = k + 1 := ⟨fuel - 1, by omega⟩
      have hnext : (s.taskPool t).next = some u := hseg.1
      have htail : current ∉ u :: l := fun h =>
        hcur (List.mem_cons_of_mem _ h)
      have hne : u ≠ current := fun h => htail (by simp [h])
      simp only [searchLoop, hnext, if_neg hne]
      by_cases hrun : (s.taskPool t).state = .running
      · simp [isRunning, state, hrun]
      · have hskip : ¬ s.isRunning t = true := by
          simp [isRunning, state, hrun]
        rw [if_neg hrun, ih hseg.2 htail (by omega),
          List.find?_cons_of_neg hskip]

/-- `schedule` on a ring, entered at `current_task` with the other tasks `l`:
it switches to the first running task of `l`, and returns if there is none. -/
theorem schedule_ring {current : TaskPtr} {l : List TaskPtr} {fuel : Nat}
    {rsp : UInt64} (hcur : s.currentTask = some current)
    (hring : Ring s.next current l) (hfuel : l.length < fuel) :
    s.schedule fuel rsp =
      match l.find? s.isRunning with
      | none => some s
      | some t => some (s.switchTo current t rsp) := by
  have hclosed := hring.closed
  have hnotin : current ∉ l := (List.nodup_cons.1 hring.nodup).1
  cases l with
  | nil =>
      -- A single task: whatever its state, the loop comes back to it.
      obtain ⟨fuel, rfl⟩ : ∃ k, fuel = k + 1 := ⟨fuel - 1, by omega⟩
      have hnext : (s.taskPool current).next = some current := hclosed
      simp only [schedule, hcur, hnext, searchLoop, if_true]
      by_cases hrun : (s.taskPool current).state = .running <;> simp [hrun]
  | cons first l =>
      have hnext : (s.taskPool current).next = some first := hclosed.1
      simp only [schedule, hcur, hnext]
      simp only [List.length_cons] at hfuel
      rw [searchLoop_segment hclosed.2 hnotin (by omega)]
      cases hfind : (first :: l).find? s.isRunning with
      | none => rfl
      | some t =>
          have hne : t ≠ current := by
            intro heq
            subst heq
            exact hnotin (List.mem_of_find?_eq_some hfind)
          simp [hne]

/-! ## Before `init` -/

/-- There is no head to splice a task in behind. -/
theorem createTask_initial (rows : StackArray) (mem : UInt64 → UInt64)
    (entry : UInt64) : (initial rows mem).createTask entry = none := by
  simp [createTask, initial, allocStack, allocTask, modifyTask]

theorem step_initial {rows : StackArray} {mem : UInt64 → UInt64} {op : Op}
    (h : (initial rows mem).Step op s) : s = initial rows mem := by
  cases op with
  | createTask entry =>
      obtain ⟨t, hcreate⟩ := h
      rw [createTask_initial] at hcreate
      cases hcreate
  | schedule rsp =>
      obtain ⟨fuel, hsched⟩ := h
      exact (Option.some.inj hsched).symm
  | blockCurrent rsp =>
      obtain ⟨fuel, hblock⟩ := h
      cases hblock
  | exitCurrent rsp =>
      obtain ⟨fuel, hexit⟩ := h
      cases hexit
  | unblock t => exact absurd h.1 (Nat.not_lt_zero _)
  | killTask t => exact absurd h.1 (Nat.not_lt_zero _)

/-! ## The invariant -/

/-- What every operation keeps of the ring, the pids and the stacks. -/
structure RingInv (s : Sched) : Prop where
  idx_le : s.taskPoolIdx ≤ 16
  ring : ∃ head l, s.taskList = some head ∧ Ring s.next head l ∧
    ∀ t : TaskPtr, t ∈ head :: l ↔ t.val < s.taskPoolIdx
  current : ∃ t : TaskPtr, s.currentTask = some t ∧ t.val < s.taskPoolIdx
  nextPid : s.nextPid.toNat = s.taskPoolIdx + 1
  pid : ∀ t : TaskPtr, t.val < s.taskPoolIdx →
    (s.taskPool t).pid.toNat = t.val + 1
  stack : ∀ t : TaskPtr, t.val ≠ 0 → t.val < s.taskPoolIdx →
    (s.taskPool t).stackBase = s.stackAddr (t.val - 1) ∧
      (s.taskPool t).stackSize = 4096
  stackIdx : s.taskPoolIdx < 16 → s.taskStackIdx + 1 = s.taskPoolIdx

/-- The invariant reads five variables and the links of each task. -/
theorem RingInv.frame (h : RingInv s) (hlist : s'.taskList = s.taskList)
    (hpid : s'.nextPid = s.nextPid) (hidx : s'.taskPoolIdx = s.taskPoolIdx)
    (hrows : s'.taskStacks = s.taskStacks)
    (hstack : s'.taskStackIdx = s.taskStackIdx)
    (hpool : ∀ t, (s'.taskPool t).links = (s.taskPool t).links)
    (hcur : ∃ t : TaskPtr, s'.currentTask = some t ∧ t.val < s.taskPoolIdx) :
    RingInv s' := by
  obtain ⟨head, l, hhead, hring, hmem⟩ := h.ring
  refine ⟨hidx ▸ h.idx_le, ⟨head, l, hlist.trans hhead, ?_, ?_⟩, ?_, ?_, ?_, ?_,
    ?_⟩
  · exact hring.congr fun t _ => congrArg Prod.fst (hpool t)
  · rw [hidx]
    exact hmem
  · rw [hidx]
    exact hcur
  · rw [hpid, hidx]
    exact h.nextPid
  · intro t ht
    have hlinks := hpool t
    simp only [Task.links, Prod.mk.injEq] at hlinks
    rw [hlinks.2.1]
    exact h.pid t (hidx ▸ ht)
  · intro t ht0 ht
    have hlinks := hpool t
    simp only [Task.links, Prod.mk.injEq] at hlinks
    rw [hlinks.2.2.1, hlinks.2.2.2, stackAddr, hrows]
    exact h.stack t ht0 (hidx ▸ ht)
  · rw [hidx, hstack]
    exact h.stackIdx

/-- The ring entered at `current_task`, as `schedule` sees it. -/
theorem RingInv.enter (h : RingInv s) :
    ∃ current l, s.currentTask = some current ∧ Ring s.next current l ∧
      (∀ t : TaskPtr, t ∈ current :: l ↔ t.val < s.taskPoolIdx) ∧
      l.length < s.taskPoolIdx := by
  obtain ⟨head, l, -, hring, hmem⟩ := h.ring
  obtain ⟨current, hcur, hlt⟩ := h.current
  obtain ⟨m, hring', hmem'⟩ := hring.enter ((hmem current).2 hlt)
  have hcover : ∀ t : TaskPtr, t ∈ current :: m ↔ t.val < s.taskPoolIdx :=
    fun t => (hmem' t).trans (hmem t)
  refine ⟨current, m, hcur, hring', hcover, ?_⟩
  -- The slot numbers of the ring are distinct and below the pool index.
  have hnodup : ((current :: m).map Fin.val).Nodup :=
    hring'.nodup.map Fin.val_injective
  have hsub : (current :: m).map Fin.val ⊆ List.range s.taskPoolIdx := by
    intro i hi
    obtain ⟨t, ht, rfl⟩ := List.mem_map.1 hi
    exact List.mem_range.2 ((hcover t).1 ht)
  have hlen := (hnodup.subperm hsub).length_le
  simp only [List.length_map, List.length_cons, List.length_range] at hlen
  omega

/-! ## What the operations do -/

theorem RingInv.setState (h : RingInv s) (t : TaskPtr) (st : TaskState) :
    RingInv (s.setState t st) :=
  h.frame rfl rfl rfl rfl rfl
    (modifyTask_field Task.links s t (fun u => { u with state := st })
      fun _ => rfl)
    h.current

theorem RingInv.switchTo (h : RingInv s) (prev : TaskPtr) {t : TaskPtr}
    (ht : t.val < s.taskPoolIdx) (rsp : UInt64) :
    RingInv (s.switchTo prev t rsp) :=
  h.frame rfl rfl rfl rfl rfl
    (modifyTask_field Task.links s prev (fun u => { u with stackTop := rsp })
      fun _ => rfl)
    ⟨t, rfl, ht⟩

/-- `schedule` returns on any fuel from the pool index up, without switching
or with `current_task` on another running task of the ring. -/
theorem RingInv.schedule (h : RingInv s) {fuel : Nat}
    (hfuel : s.taskPoolIdx ≤ fuel) (rsp : UInt64) :
    ∃ current l, s.currentTask = some current ∧ Ring s.next current l ∧
      (∀ t : TaskPtr, t ∈ current :: l ↔ t.val < s.taskPoolIdx) ∧
      ((l.find? s.isRunning = none ∧ s.schedule fuel rsp = some s) ∨
        ∃ t, l.find? s.isRunning = some t ∧
          s.schedule fuel rsp = some (s.switchTo current t rsp)) := by
  obtain ⟨current, l, hcur, hring, hmem, hlen⟩ := h.enter
  refine ⟨current, l, hcur, hring, hmem, ?_⟩
  rw [schedule_ring hcur hring (by omega)]
  cases l.find? s.isRunning with
  | none => exact .inl ⟨rfl, rfl⟩
  | some t => exact .inr ⟨t, rfl, rfl⟩

theorem schedule_mono {n m : Nat} {rsp : UInt64} (hle : n ≤ m)
    (h : s.schedule n rsp = some s') : s.schedule m rsp = some s' := by
  simp only [Sched.schedule] at h ⊢
  split at h
  · exact h
  · next current _ =>
      split at h
      · cases h
      · next first _ =>
          cases hloop : s.searchLoop current n first with
          | none =>
              rw [hloop] at h
              cases h
          | some r =>
              rw [searchLoop_mono hloop hle]
              rw [hloop] at h
              exact h

/-- Whatever fuel it took, `schedule` did what it does with enough. -/
theorem schedule_ring_cases {current : TaskPtr} {l : List TaskPtr}
    {fuel : Nat} {rsp : UInt64} (hcur : s.currentTask = some current)
    (hring : Ring s.next current l) (hsched : s.schedule fuel rsp = some s') :
    (l.find? s.isRunning = none ∧ s' = s) ∨
      ∃ t, l.find? s.isRunning = some t ∧ s' = s.switchTo current t rsp := by
  have hmono := schedule_mono (Nat.le_max_left fuel (l.length + 1)) hsched
  have henough := Nat.le_max_right fuel (l.length + 1)
  rw [schedule_ring hcur hring henough] at hmono
  cases hfind : l.find? s.isRunning with
  | none =>
      rw [hfind] at hmono
      exact .inl ⟨rfl, (Option.some.inj hmono).symm⟩
  | some t =>
      rw [hfind] at hmono
      exact .inr ⟨t, rfl, (Option.some.inj hmono).symm⟩

theorem RingInv.schedule_cases (h : RingInv s) {fuel : Nat} {rsp : UInt64}
    (hsched : s.schedule fuel rsp = some s') :
    ∃ current l, s.currentTask = some current ∧ current ∉ l ∧
      (∀ t : TaskPtr, t ∈ current :: l ↔ t.val < s.taskPoolIdx) ∧
      ((l.find? s.isRunning = none ∧ s' = s) ∨
        ∃ t, l.find? s.isRunning = some t ∧ s' = s.switchTo current t rsp) := by
  obtain ⟨current, l, hcur, hring, hmem, -⟩ := h.enter
  exact ⟨current, l, hcur, (List.nodup_cons.1 hring.nodup).1, hmem,
    schedule_ring_cases hcur hring hsched⟩

theorem RingInv.of_schedule (h : RingInv s) {fuel : Nat} {rsp : UInt64}
    (hsched : s.schedule fuel rsp = some s') : RingInv s' := by
  obtain ⟨current, l, -, -, hmem, hcase⟩ := h.schedule_cases hsched
  rcases hcase with ⟨-, rfl⟩ | ⟨t, hfind, rfl⟩
  · exact h
  · have hin := List.mem_cons_of_mem current (List.mem_of_find?_eq_some hfind)
    exact h.switchTo current ((hmem t).1 hin) rsp

/-- A `create_task` that succeeds: the next slot is filled in and spliced in
behind `task_list`, and every other slot is as it was. -/
structure Created (s : Sched) (entry : UInt64) (head t : TaskPtr)
    (s' : Sched) : Prop where
  slot : t.val = s.taskPoolIdx
  current : s'.currentTask = s.currentTask
  list : s'.taskList = s.taskList
  nextPid : s'.nextPid = s.nextPid + 1
  idx : s'.taskPoolIdx = s.taskPoolIdx + 1
  rows : s'.taskStacks = s.taskStacks
  stackIdx : s'.taskStackIdx = s.taskStackIdx + 1
  newTask : s'.taskPool t =
    { pid := s.nextPid
      stackTop := (pushWords (initialFrame (s.stackAddr s.taskStackIdx + 4096)
        entry) (s.stackAddr s.taskStackIdx + 4096, s.mem)).1
      stackBase := s.stackAddr s.taskStackIdx
      stackSize := 4096
      state := .running
      next := s.next head }
  headTask : s'.taskPool head = { s.taskPool head with next := some t }
  other : ∀ u, u ≠ t → u ≠ head → s'.taskPool u = s.taskPool u

/-- A stack handed out, with the words that `create_task` pushes on it. -/
def withFrame (s : Sched) (entry : UInt64) : Sched :=
  { s with
    taskStackIdx := s.taskStackIdx + 1
    mem := (pushWords (initialFrame (s.stackAddr s.taskStackIdx + 4096) entry)
      (s.stackAddr s.taskStackIdx + 4096, s.mem)).2 }

/-- The slot `t` filled in as well, but for its link. -/
def withTask (s : Sched) (entry : UInt64) (t : TaskPtr) : Sched :=
  { (s.withFrame entry).modifyTask t fun _ =>
      { pid := s.nextPid
        stackTop := (pushWords (initialFrame (s.stackAddr s.taskStackIdx + 4096)
          entry) (s.stackAddr s.taskStackIdx + 4096, s.mem)).1
        stackBase := s.stackAddr s.taskStackIdx
        stackSize := 4096
        state := .running
        next := none }
    with
    taskPoolIdx := s.taskPoolIdx + 1
    nextPid := s.nextPid + 1 }

theorem withTask_self (s : Sched) (entry : UInt64) (t : TaskPtr) :
    (s.withTask entry t).taskPool t =
      { pid := s.nextPid
        stackTop := (pushWords (initialFrame (s.stackAddr s.taskStackIdx + 4096)
          entry) (s.stackAddr s.taskStackIdx + 4096, s.mem)).1
        stackBase := s.stackAddr s.taskStackIdx
        stackSize := 4096
        state := .running
        next := none } :=
  Function.update_self _ _ _

theorem withTask_of_ne (s : Sched) (entry : UInt64) {t u : TaskPtr}
    (h : u ≠ t) : (s.withTask entry t).taskPool u = s.taskPool u :=
  Function.update_of_ne h _ _

/-- The two stores that splice `t` in behind `head`. -/
def splice (s : Sched) (head t : TaskPtr) : Sched :=
  (s.setNext t (s.taskPool head).next).setNext head (some t)

theorem createTask_some {head : TaskPtr} (hlist : s.taskList = some head)
    (hstack : s.taskStackIdx < 16) (hidx : s.taskPoolIdx < 16)
    (entry : UInt64) : s.createTask entry =
      some (some ⟨s.taskPoolIdx, hidx⟩,
        (s.withTask entry ⟨s.taskPoolIdx, hidx⟩).splice head
          ⟨s.taskPoolIdx, hidx⟩) := by
  simp only [createTask, allocStack, if_pos hstack, allocTask, modifyTask,
    dif_pos hidx, hlist, splice, withTask, withFrame, Function.update_idem,
    Function.update_self]

/-- With all slots taken, a call that still gets a stack keeps it. -/
theorem createTask_full (hstack : s.taskStackIdx < 16)
    (hidx : ¬ s.taskPoolIdx < 16) (entry : UInt64) :
    s.createTask entry = some (none, s.withFrame entry) := by
  simp only [createTask, allocStack, if_pos hstack, allocTask, dif_neg hidx,
    withFrame]

/-- With all stacks taken, a call ends before it has changed anything. -/
theorem createTask_spent (hstack : ¬ s.taskStackIdx < 16) (entry : UInt64) :
    s.createTask entry = some (none, s) := by
  simp only [createTask, allocStack, if_neg hstack]

/-- What a call that returns has done, in any state. -/
theorem createTask_cases {entry : UInt64} {r : Option TaskPtr}
    (h : s.createTask entry = some (r, s')) :
    (¬ s.taskStackIdx < 16 ∧ r = none ∧ s' = s) ∨ s.taskStackIdx < 16 ∧
      ((¬ s.taskPoolIdx < 16 ∧ r = none ∧ s' = s.withFrame entry) ∨
        ∃ t head : TaskPtr, r = some t ∧ t.val = s.taskPoolIdx ∧
          s' = (s.withTask entry t).splice head t) := by
  by_cases hstack : s.taskStackIdx < 16
  · refine .inr ⟨hstack, ?_⟩
    by_cases hidx : s.taskPoolIdx < 16
    · cases hlist : s.taskList with
      | none =>
          simp only [createTask, allocStack, if_pos hstack, allocTask,
            modifyTask, dif_pos hidx, hlist] at h
          cases h
      | some head =>
          rw [createTask_some hlist hstack hidx] at h
          obtain ⟨rfl, rfl⟩ := Prod.mk.inj (Option.some.inj h)
          exact .inr ⟨_, head, rfl, rfl, rfl⟩
    · rw [createTask_full hstack hidx] at h
      obtain ⟨rfl, rfl⟩ := Prod.mk.inj (Option.some.inj h)
      exact .inl ⟨hidx, rfl, rfl⟩
  · rw [createTask_spent hstack] at h
    obtain ⟨rfl, rfl⟩ := Prod.mk.inj (Option.some.inj h)
    exact .inl ⟨hstack, rfl, rfl⟩

theorem createTask_succeeds {head : TaskPtr} (hlist : s.taskList = some head)
    (hhead : head.val < s.taskPoolIdx) (hstack : s.taskStackIdx < 16)
    (hidx : s.taskPoolIdx < 16) (entry : UInt64) :
    ∃ s', s.createTask entry = some (some ⟨s.taskPoolIdx, hidx⟩, s') ∧
      Created s entry head ⟨s.taskPoolIdx, hidx⟩ s' := by
  have hne : head ≠ ⟨s.taskPoolIdx, hidx⟩ := by
    intro h
    rw [h] at hhead
    exact absurd hhead (Nat.lt_irrefl _)
  refine ⟨_, createTask_some hlist hstack hidx entry, ?_⟩
  constructor
  case slot | current | list | nextPid | idx | rows | stackIdx => rfl
  case newTask =>
    simp [splice, withTask, withFrame, setNext, modifyTask, next, hne, hne.symm]
  case headTask =>
    simp [splice, withTask, withFrame, setNext, modifyTask, hne]
  case other =>
    intro u hu hu'
    simp [splice, withTask, withFrame, setNext, modifyTask, hu, hu']

/-- Out of stacks or out of slots, `create_task` answers `nullptr` and has at
most used up a stack and written into it. -/
theorem createTask_fails (h : s.taskStackIdx < 16 → s.taskPoolIdx = 16)
    (entry : UInt64) :
    ∃ n mem, s.createTask entry =
      some (none, { s with taskStackIdx := n, mem := mem }) := by
  by_cases hstack : s.taskStackIdx < 16
  · have hfull := h hstack
    exact ⟨_, _, createTask_full hstack (by omega) entry⟩
  · exact ⟨_, _, createTask_spent hstack entry⟩

/-- The head of the list only has its pointer changed, so the numbers of every
old slot are as they were. -/
theorem Created.numbers {entry : UInt64} {head t u : TaskPtr}
    (hc : Created s entry head t s') (hu : u ≠ t) :
    (s'.taskPool u).pid = (s.taskPool u).pid ∧
      (s'.taskPool u).stackBase = (s.taskPool u).stackBase ∧
      (s'.taskPool u).stackSize = (s.taskPool u).stackSize := by
  by_cases hhead : u = head
  · rw [hhead, hc.headTask]
    exact ⟨rfl, rfl, rfl⟩
  · rw [hc.other u hu hhead]
    exact ⟨rfl, rfl, rfl⟩

theorem Created.lt_idx_iff {entry : UInt64} {head t : TaskPtr}
    (hc : Created s entry head t s') (u : TaskPtr) :
    u.val < s'.taskPoolIdx ↔ u = t ∨ u.val < s.taskPoolIdx := by
  rw [hc.idx, Fin.ext_iff, hc.slot]
  omega

/-- The new task stands behind the head. -/
theorem Created.ring {entry : UInt64} {head t : TaskPtr} {l : List TaskPtr}
    (hc : Created s entry head t s') (hring : Ring s.next head l)
    (hfresh : t ∉ head :: l) : Ring s'.next head (t :: l) := by
  refine hring.insert hfresh ?_ ?_ fun y hy => ?_
  · rw [next, hc.headTask]
  · rw [next, hc.newTask]
  · have hyl := List.mem_cons_of_mem head hy
    have hyt : y ≠ t := fun heq => hfresh (heq ▸ hyl)
    have hyh : y ≠ head := by
      intro heq
      subst heq
      exact (List.nodup_cons.1 hring.nodup).1 hy
    rw [next, hc.other y hyt hyh]
    rfl

theorem Created.ringInv {entry : UInt64} {head t : TaskPtr} (h : RingInv s)
    (hlist : s.taskList = some head) (hstack : s.taskStackIdx + 1 = s.taskPoolIdx)
    (hc : Created s entry head t s') : RingInv s' := by
  obtain ⟨head', l, hhead', hring, hmem⟩ := h.ring
  obtain rfl : head = head' := Option.some.inj (hlist.symm.trans hhead')
  have ht := hc.slot
  have hfresh : t ∉ head :: l := by
    rw [hmem, ht]
    exact Nat.lt_irrefl _
  have hold : ∀ u : TaskPtr, u.val < s.taskPoolIdx → u ≠ t := by
    rintro u hu rfl
    omega
  constructor
  case idx_le =>
    rw [hc.idx]
    have := t.isLt
    omega
  case ring =>
    refine ⟨head, t :: l, hc.list.trans hlist, hc.ring hring hfresh, fun u => ?_⟩
    rw [hc.lt_idx_iff, ← hmem, List.mem_cons, List.mem_cons, List.mem_cons]
    exact or_left_comm
  case current =>
    obtain ⟨u, hu, hlt⟩ := h.current
    exact ⟨u, hc.current.trans hu, (hc.lt_idx_iff u).2 (.inr hlt)⟩
  case nextPid =>
    have hidx := h.idx_le
    have hpid := h.nextPid
    rw [hc.nextPid, hc.idx, UInt64.toNat_add, hpid,
      show (1 : UInt64).toNat = 1 from rfl]
    omega
  case pid =>
    intro u hu
    rcases (hc.lt_idx_iff u).1 hu with rfl | hlt
    · rw [hc.newTask, ht]
      exact h.nextPid
    · rw [(hc.numbers (hold u hlt)).1]
      exact h.pid u hlt
  case stack =>
    intro u hu0 hu
    have haddr : s'.stackAddr = s.stackAddr := by
      funext i
      rw [stackAddr, stackAddr, hc.rows]
    rw [haddr]
    rcases (hc.lt_idx_iff u).1 hu with rfl | hlt
    · rw [hc.newTask]
      exact ⟨by simp only [ht, ← hstack, Nat.add_sub_cancel], rfl⟩
    · obtain ⟨-, hbase, hsize⟩ := hc.numbers (hold u hlt)
      rw [hbase, hsize]
      exact h.stack u hu0 hlt
  case stackIdx =>
    intro _
    rw [hc.stackIdx, hc.idx, hstack]

theorem RingInv.init (rows : StackArray) (mem : UInt64 → UInt64) :
    RingInv (initial rows mem).init := by
  have hzero : ∀ t : TaskPtr, t.val < 1 → t = 0 :=
    fun t ht => Fin.ext (Nat.lt_one_iff.1 ht)
  constructor
  case idx_le => exact Nat.succ_le_of_lt (by decide : 0 < 16)
  case ring =>
    refine ⟨0, [], rfl, Ring.single rfl, fun t => ?_⟩
    rw [List.mem_singleton]
    exact ⟨fun h => by rw [h]; exact Nat.zero_lt_one, hzero t⟩
  case current => exact ⟨0, rfl, Nat.zero_lt_one⟩
  case nextPid => rfl
  case pid =>
    intro t ht
    rw [hzero t ht]
    rfl
  case stack =>
    intro t ht0 ht
    exact absurd (Nat.lt_one_iff.1 ht) ht0
  case stackIdx => intro _; rfl

/-- `create_task` either succeeds in the next slot or fails without touching a
task. It never dereferences a null `task_list`. -/
theorem RingInv.createTask (h : RingInv s) (entry : UInt64) :
    (∃ s' head t, s.createTask entry = some (some t, s') ∧
      s.taskList = some head ∧ s.taskStackIdx + 1 = s.taskPoolIdx ∧
        Created s entry head t s') ∨
      ∃ n mem, s.createTask entry =
        some (none, { s with taskStackIdx := n, mem := mem }) ∧
          s.taskPoolIdx = 16 := by
  obtain ⟨head, l, hlist, -, hmem⟩ := h.ring
  rcases Nat.lt_or_ge s.taskPoolIdx 16 with hlt | hge
  · left
    have hstack := h.stackIdx hlt
    obtain ⟨s', heq, hc⟩ := createTask_succeeds hlist
      ((hmem head).1 List.mem_cons_self) (by omega) hlt entry
    exact ⟨s', head, _, heq, hlist, hstack, hc⟩
  · right
    have hfull : s.taskPoolIdx = 16 := Nat.le_antisymm h.idx_le hge
    obtain ⟨n, mem, heq⟩ := createTask_fails (fun _ => hfull) entry
    exact ⟨n, mem, heq, hfull⟩

/-- An operation creates a task, or comes to a `schedule`, maybe with a state
set before it, or does no more than set a state. -/
theorem step_cases {op : Op} (h : s.Step op s') :
    (∃ entry r, op = .createTask entry ∧ s.createTask entry = some (r, s')) ∨
      (∀ entry, op ≠ .createTask entry) ∧
        ((∃ u fuel rsp, (u = s ∨ ∃ t st, u = s.setState t st) ∧
            u.schedule fuel rsp = some s') ∨
          ∃ t st, s' = s.setState t st) := by
  cases op with
  | createTask entry =>
      obtain ⟨r, hcreate⟩ := h
      exact .inl ⟨entry, r, rfl, hcreate⟩
  | schedule rsp =>
      obtain ⟨fuel, hsched⟩ := h
      exact .inr ⟨by simp, .inl ⟨s, fuel, rsp, .inl rfl, hsched⟩⟩
  | blockCurrent rsp =>
      obtain ⟨fuel, hblock⟩ := h
      simp only [blockCurrent] at hblock
      split at hblock
      · cases hblock
      · exact .inr ⟨by simp, .inl ⟨_, fuel, rsp, .inr ⟨_, _, rfl⟩, hblock⟩⟩
  | exitCurrent rsp =>
      obtain ⟨fuel, hexit⟩ := h
      simp only [exitCurrent] at hexit
      split at hexit
      · cases hexit
      · exact .inr ⟨by simp, .inl ⟨_, fuel, rsp, .inr ⟨_, _, rfl⟩, hexit⟩⟩
  | unblock t => exact .inr ⟨by simp, .inr ⟨t, _, h.2⟩⟩
  | killTask t => exact .inr ⟨by simp, .inr ⟨t, _, h.2⟩⟩

theorem RingInv.step (h : RingInv s) {op : Op} (hstep : s.Step op s') :
    RingInv s' := by
  rcases step_cases hstep with ⟨entry, r, -, hcreate⟩ |
    ⟨-, ⟨u, fuel, rsp, hu, hsched⟩ | ⟨t, st, rfl⟩⟩
  · rcases h.createTask entry with ⟨u, head, t, heq, hlist, hstack, hc⟩ |
        ⟨n, mem, heq, hfull⟩
    · rw [heq, Option.some.injEq, Prod.mk.injEq] at hcreate
      rw [← hcreate.2]
      exact hc.ringInv h hlist hstack
    · rw [heq, Option.some.injEq, Prod.mk.injEq] at hcreate
      rw [← hcreate.2]
      have hcur := h.current
      exact ⟨h.idx_le, h.ring, hcur, h.nextPid, h.pid, h.stack,
        fun hlt : s.taskPoolIdx < 16 => absurd hfull (by omega)⟩
  · rcases hu with rfl | ⟨t, st, rfl⟩
    · exact h.of_schedule hsched
    · exact (h.setState t st).of_schedule hsched
  · exact h.setState t st

theorem RingInv.run {rows : StackArray} {mem : UInt64 → UInt64} {ops : List Op}
    (h : Trace Step (initial rows mem).init ops s) : RingInv s :=
  h.invariant (fun _ _ _ hs hstep => hs.step hstep) (RingInv.init rows mem)

/-- Every operation returns, given a task that is allocated where it takes
one. -/
theorem RingInv.step_total (h : RingInv s) {op : Op}
    (hop : ∀ t, op = .unblock t ∨ op = .killTask t → t.val < s.taskPoolIdx) :
    ∃ s', s.Step op s' := by
  have hsched : ∀ {s : Sched}, RingInv s → ∀ rsp,
      ∃ s', s.schedule s.taskPoolIdx rsp = some s' := by
    intro s h rsp
    obtain ⟨current, l, -, -, -, ⟨-, heq⟩ | ⟨t, -, heq⟩⟩ :=
      h.schedule (Nat.le_refl _) rsp
    · exact ⟨_, heq⟩
    · exact ⟨_, heq⟩
  obtain ⟨current, hcur, -⟩ := h.current
  cases op with
  | createTask entry =>
      rcases h.createTask entry with ⟨s', head, t, heq, -⟩ | ⟨n, mem, heq, -⟩
      · exact ⟨s', some t, heq⟩
      · exact ⟨_, none, heq⟩
  | schedule rsp =>
      obtain ⟨s', heq⟩ := hsched h rsp
      exact ⟨s', _, heq⟩
  | blockCurrent rsp =>
      obtain ⟨s', heq⟩ := hsched (h.setState current .blocked) rsp
      exact ⟨s', s.taskPoolIdx, by simp only [blockCurrent, hcur]; exact heq⟩
  | exitCurrent rsp =>
      obtain ⟨s', heq⟩ := hsched (h.setState current .zombie) rsp
      exact ⟨s', s.taskPoolIdx, by simp only [exitCurrent, hcur]; exact heq⟩
  | unblock t => exact ⟨_, hop t (.inl rfl), rfl⟩
  | killTask t => exact ⟨_, hop t (.inr rfl), rfl⟩

/-- Operations that take no task run through, in any order. -/
theorem RingInv.exists_run (h : RingInv s) (ops : List Op)
    (hops : ∀ op ∈ ops, ∀ t, op ≠ .unblock t ∧ op ≠ .killTask t) :
    ∃ s', Trace Step s ops s' := by
  induction ops generalizing s with
  | nil => exact ⟨s, .nil s⟩
  | cons op ops ih =>
      have hop := hops op List.mem_cons_self
      obtain ⟨s₁, hstep⟩ := h.step_total fun t ht =>
        absurd ht (not_or.2 (hop t))
      obtain ⟨s', hrun⟩ := ih (h.step hstep) fun o ho =>
        hops o (List.mem_cons_of_mem _ ho)
      exact ⟨s', .cons hstep hrun⟩

/-- The pool with every task's state replaced. -/
def withStates (s : Sched) (states : TaskPtr → TaskState) : Sched :=
  { s with taskPool := fun t => { s.taskPool t with state := states t } }

theorem RingInv.withStates (h : RingInv s) (states : TaskPtr → TaskState) :
    RingInv (s.withStates states) :=
  h.frame rfl rfl rfl rfl rfl (fun _ => rfl) h.current

theorem toNat_stackAddr (s : Sched) {i : Nat} (hi : i < 16) :
    (s.stackAddr i).toNat = s.taskStacks.addr.toNat + 4096 * i := by
  have hfits := s.taskStacks.fits
  rw [stackAddr, UInt64.toNat_add, UInt64.toNat_ofNat']
  omega

/-- Two stacks of the array with different numbers do not overlap. -/
theorem stackAddr_disjoint (s : Sched) {i j : Nat} (hij : i < j) (hj : j < 16) :
    (s.stackAddr i).toNat + 4096 ≤ (s.stackAddr j).toNat := by
  rw [s.toNat_stackAddr (by omega : i < 16), s.toNat_stackAddr hj]
  omega

end Sched

/-- A list of the first slots, each of them once. -/
theorem length_of_mem_iff {l : List TaskPtr} {n : Nat} (hn : n ≤ 16)
    (hl : l.Nodup) (hmem : ∀ t : TaskPtr, t ∈ l ↔ t.val < n) : l.length = n := by
  have hperm : (l.map Fin.val).Perm (List.range n) := by
    refine (List.perm_ext_iff_of_nodup
      (hl.map Fin.val_injective) List.nodup_range).2 fun i => ?_
    rw [List.mem_map, List.mem_range]
    refine ⟨?_, ?_⟩
    · rintro ⟨t, ht, rfl⟩
      exact (hmem t).1 ht
    · intro hi
      exact ⟨⟨i, by omega⟩, (hmem _).2 hi, rfl⟩
  have hlen := hperm.length_eq
  rwa [List.length_map, List.length_range] at hlen

open Sched in
/-- After `init` and any operations, the `next` pointers of the allocated slots
run through all of them in one cycle, on which `current_task` and `task_list`
lie; pids are distinct, and the stacks of created tasks (every slot but that of
`init`'s kernel task) are 4096 bytes each and do not overlap. Whatever the
states of the tasks, `schedule` then returns after inspecting at most
`task_pool_idx` of them, and so does every operation. -/
theorem ring_of_run {rows : StackArray} {mem : UInt64 → UInt64} {ops : List Op}
    {s : Sched} (h : Trace Step (initial rows mem).init ops s) :
    (∃ ring : List TaskPtr, ring.length = s.taskPoolIdx ∧ ring.Nodup ∧
      (∀ t : TaskPtr, t ∈ ring ↔ t.val < s.taskPoolIdx) ∧
      (∀ (i : Nat) (hi : i < ring.length)
        (hi' : (i + 1) % ring.length < ring.length),
        (s.taskPool ring[i]).next = some ring[(i + 1) % ring.length]) ∧
      (∃ t ∈ ring, s.currentTask = some t) ∧
      ∃ t ∈ ring, s.taskList = some t) ∧
    (∀ t u : TaskPtr, t.val < s.taskPoolIdx → u.val < s.taskPoolIdx →
      (s.taskPool t).pid = (s.taskPool u).pid → t = u) ∧
    (∀ t : TaskPtr, t ≠ 0 → t.val < s.taskPoolIdx →
      (s.taskPool t).stackSize = 4096 ∧
      ∀ u : TaskPtr, u ≠ 0 → u.val < s.taskPoolIdx → t < u →
        (s.taskPool t).stackBase.toNat + 4096 ≤
          (s.taskPool u).stackBase.toNat) ∧
    (∀ (states : TaskPtr → TaskState) (fuel : Nat) (rsp : UInt64),
      s.taskPoolIdx ≤ fuel →
      ∃ s', (s.withStates states).schedule fuel rsp = some s') ∧
    ∀ op : Op, (∀ t, op = .unblock t ∨ op = .killTask t →
      t.val < s.taskPoolIdx) → ∃ s', s.Step op s' := by
  have hinv := RingInv.run h
  refine ⟨?_, ?_, ?_, ?_, ?_⟩
  · obtain ⟨head, l, hlist, hring, hmem⟩ := hinv.ring
    obtain ⟨current, hcur, hlt⟩ := hinv.current
    refine ⟨head :: l, ?_, hring.nodup, hmem, fun i hi hi' =>
      hring.next_getElem i hi hi', ⟨current, (hmem current).2 hlt, hcur⟩,
      ⟨head, List.mem_cons_self, hlist⟩⟩
    exact length_of_mem_iff hinv.idx_le hring.nodup hmem
  · intro t u ht hu heq
    have hpt := hinv.pid t ht
    have hpu := hinv.pid u hu
    rw [heq] at hpt
    exact Fin.ext (by omega)
  · intro t ht0 ht
    have hval : ∀ v : TaskPtr, v ≠ 0 → v.val ≠ 0 := fun v hv h0 => hv (Fin.ext h0)
    refine ⟨(hinv.stack t (hval t ht0) ht).2, fun u hu0 hu hlt => ?_⟩
    rw [(hinv.stack t (hval t ht0) ht).1, (hinv.stack u (hval u hu0) hu).1]
    have hlt' : t.val < u.val := hlt
    have ht1 := hval t ht0
    have hu16 := u.isLt
    exact s.stackAddr_disjoint (by omega) (by omega)
  · intro states fuel rsp hfuel
    obtain ⟨current, l, -, -, -, hcase⟩ :=
      (hinv.withStates states).schedule hfuel rsp
    rcases hcase with ⟨-, heq⟩ | ⟨t, -, heq⟩
    · exact ⟨_, heq⟩
    · exact ⟨_, heq⟩
  · intro op hop
    exact hinv.step_total hop

open Sched in
/-- A task created and switched to. -/
theorem ring_of_run_create : ∃ s,
    Trace Step (initial ⟨0x20000, by decide⟩ fun _ => 0).init
      [.createTask 0x9000, .schedule 0x8FF00] s ∧
    ∃ c : List TaskPtr, c.length = s.taskPoolIdx ∧ c.Nodup ∧
      (∀ t : TaskPtr, t ∈ c ↔ t.val < s.taskPoolIdx) := by
  have hrun := (RingInv.init ⟨0x20000, by decide⟩ fun _ => 0).exists_run
    [.createTask 0x9000, .schedule 0x8FF00] (by simp)
  exact hrun.imp fun s h =>
    ⟨h, (ring_of_run h).1.imp fun c hc => ⟨hc.1, hc.2.1, hc.2.2.1⟩⟩

end TermOS.Tasking
