import TermOS.Proofs.ContextSwitch
import TermOS.Ref.Gdt

/-!
# The first switch to a task

`create_task` pushes twenty words, an `iretq` frame and fifteen zeroes, and
stores where they end in `stack_top`. Until the task is switched to nothing
writes there: the other stacks of the array lie elsewhere, and its own
`stack_top` is written only when it is switched away from. So its first
`do_switch` pops those very words, and the task begins at its entry, with zeroes
in its registers and its stack empty. The segment it begins in is the one thing
that is not as the rest of the kernel has it. The frame names `CODE_SEG`, the
32-bit code segment of the loader, and not the segment of the interrupt gates.
-/

namespace TermOS.Tasking.Sched

open TermOS.Lib

variable {s s' : Sched} {vs ws : List UInt64} {sp entry : UInt64}
  {mem : UInt64 → UInt64} {i : Nat}

/-! ## Twenty words on an empty stack -/

theorem fst_pushWords : ∀ (vs : List UInt64) (sp : UInt64)
    (mem : UInt64 → UInt64),
    (pushWords vs (sp, mem)).1 = sp - UInt64.ofNat (8 * vs.length) := by
  intro vs
  induction vs with
  | nil => intro sp mem; simp [pushWords]
  | cons v vs ih =>
      intro sp mem
      have hmul : UInt64.ofNat (8 * (vs.length + 1)) =
          8 + UInt64.ofNat (8 * vs.length) := by
        rw [Nat.mul_succ, Nat.add_comm, UInt64.ofNat_add]
        rfl
      rw [pushWords, ih, List.length_cons, hmul, sub_sub]

/-- The words end where the stack began. -/
theorem wordAt_pushWords (vs : List UInt64) (sp : UInt64)
    (mem : UInt64 → UInt64) :
    wordAt (pushWords vs (sp, mem)).1 vs.length = sp := by
  rw [wordAt, fst_pushWords, UInt64.sub_add_cancel]

theorem holds_pushWords : ∀ {vs ws : List UInt64} {sp : UInt64}
    {mem : UInt64 → UInt64}, Holds mem sp ws →
    8 * (ws.length + vs.length) < 2 ^ 64 →
    Holds (pushWords vs (sp, mem)).2 (pushWords vs (sp, mem)).1
      (vs.reverse ++ ws) := by
  intro vs
  induction vs with
  | nil => intro ws sp mem h _; exact h
  | cons v vs ih =>
      intro ws sp mem h hlen
      rw [List.length_cons] at hlen
      have hpush := h.push (by omega) v
      have hrest := ih hpush (by
        rw [List.length_cons]
        omega)
      rw [List.reverse_cons, List.append_assoc]
      exact hrest

/-- Elsewhere memory is as it was. -/
theorem pushWords_of_ne : ∀ {vs : List UInt64} {sp : UInt64}
    {mem : UInt64 → UInt64} {a : UInt64},
    (∀ i < vs.length, a ≠ wordAt (pushWords vs (sp, mem)).1 i) →
    (pushWords vs (sp, mem)).2 a = mem a := by
  intro vs
  induction vs with
  | nil => intro sp mem a _; rfl
  | cons v vs ih =>
      intro sp mem a hne
      have hrest := @ih (sp - 8) (Function.update mem (sp - 8) v) a
        fun i hi => hne i (Nat.lt_succ_of_lt hi)
      have hlast := hne vs.length (Nat.lt_succ_self _)
      rw [pushWords, wordAt_pushWords] at hlast
      rw [pushWords, hrest, Function.update_of_ne hlast]

theorem length_initialFrame (sp entry : UInt64) :
    (initialFrame sp entry).length = 20 := by
  simp [initialFrame]

/-- Where `create_task` leaves the stack pointer of stack `i`. -/
theorem stackTop_pushWords (s : Sched) (i : Nat) (entry : UInt64)
    (mem : UInt64 → UInt64) :
    (pushWords (initialFrame (s.stackAddr i + 4096) entry)
      (s.stackAddr i + 4096, mem)).1 = s.stackAddr i + 3936 := by
  have hsub : (4096 : UInt64) - 160 = 3936 := rfl
  rw [fst_pushWords, length_initialFrame, ← hsub, ← add_sub_assoc]
  rfl

/-- The twenty words lie at the end of the stack. -/
theorem toNat_wordAt_stack (s : Sched) (hi : i < 16) {k : Nat} (hk : k < 20) :
    (wordAt (s.stackAddr i + 3936) k).toNat =
      (s.stackAddr i).toNat + 3936 + 8 * k := by
  have hfits := s.taskStacks.fits
  have haddr := s.toNat_stackAddr hi
  rw [wordAt, UInt64.toNat_add, UInt64.toNat_add, UInt64.toNat_ofNat',
    show (3936 : UInt64).toNat = 3936 from rfl]
  omega

/-! ## What `create_task` writes -/

theorem stackTop_setNext (s : Sched) (t : TaskPtr) (n : Option TaskPtr)
    (u : TaskPtr) :
    ((s.setNext t n).taskPool u).stackTop = (s.taskPool u).stackTop :=
  modifyTask_field Task.stackTop s t (fun task => { task with next := n })
    (fun _ => rfl) u

theorem stackBase_setNext (s : Sched) (t : TaskPtr) (n : Option TaskPtr)
    (u : TaskPtr) :
    ((s.setNext t n).taskPool u).stackBase = (s.taskPool u).stackBase :=
  modifyTask_field Task.stackBase s t (fun task => { task with next := n })
    (fun _ => rfl) u

/-- A `create_task` that has got a stack. -/
structure PushedFor (s : Sched) (entry : UInt64) (r : Option TaskPtr)
    (s' : Sched) : Prop where
  room : s.taskStackIdx < 16
  rows : s'.taskStacks = s.taskStacks
  stackIdx : s'.taskStackIdx = s.taskStackIdx + 1
  mem : s'.mem = (pushWords (initialFrame (s.stackAddr s.taskStackIdx + 4096)
    entry) (s.stackAddr s.taskStackIdx + 4096, s.mem)).2
  poolIdx : ∀ t, r = some t → t.val < s'.taskPoolIdx
  stackTop : ∀ t, r = some t →
    (s'.taskPool t).stackTop = s.stackAddr s.taskStackIdx + 3936
  stackBase : ∀ t, r = some t →
    (s'.taskPool t).stackBase = s.stackAddr s.taskStackIdx

/-- The scheduler's memory is written together with a new stack. -/
theorem createTask_memory {r : Option TaskPtr}
    (h : s.createTask entry = some (r, s')) :
    (r = none ∧ s' = s) ∨ s.PushedFor entry r s' := by
  have htop := s.stackTop_pushWords s.taskStackIdx entry s.mem
  rcases createTask_cases h with
    ⟨-, hnone, rfl⟩ | ⟨hstack, ⟨-, rfl, rfl⟩ | hsome⟩
  · exact .inl ⟨hnone, rfl⟩
  · right
    refine ⟨hstack, rfl, rfl, rfl, ?_, ?_, ?_⟩
    all_goals exact fun t ht => absurd ht (by simp)
  · obtain ⟨t, head, rfl, ht, rfl⟩ := hsome
    right
    refine ⟨hstack, rfl, rfl, rfl, ?_, ?_, ?_⟩
    all_goals rintro u ⟨⟩
    · exact Nat.lt_succ_of_le (Nat.le_of_eq ht)
    · rw [splice, stackTop_setNext, stackTop_setNext, withTask_self]
      exact htop
    · rw [splice, stackBase_setNext, stackBase_setNext, withTask_self]

/-! ## Until the first switch -/

/-- The stack at `base` has been handed out, and on it are the words that
`create_task` pushed for `entry`. -/
structure Framed (s : Sched) (base entry : UInt64) : Prop where
  stack : ∃ i < s.taskStackIdx, base = s.stackAddr i
  frame : Holds s.mem (base + 3936) (initialFrame (base + 4096) entry).reverse

theorem PushedFor.framed {r : Option TaskPtr} (h : s.PushedFor entry r s') :
    s'.Framed (s.stackAddr s.taskStackIdx) entry := by
  refine ⟨⟨s.taskStackIdx, ?_, ?_⟩, ?_⟩
  · rw [h.stackIdx]
    exact Nat.lt_succ_self _
  · rw [stackAddr, stackAddr, h.rows]
  · have hnil : Holds s.mem (s.stackAddr s.taskStackIdx + 4096) [] := trivial
    have hpush := @holds_pushWords
      (initialFrame (s.stackAddr s.taskStackIdx + 4096) entry) _ _ _ hnil (by
        rw [length_initialFrame]
        decide)
    rwa [stackTop_pushWords, List.append_nil, ← h.mem] at hpush

/-- Another `create_task` pushes onto another stack. -/
theorem Framed.of_pushedFor {base entry' : UInt64} {r : Option TaskPtr}
    (h : s.Framed base entry) (hpush : s.PushedFor entry' r s') :
    s'.Framed base entry := by
  obtain ⟨i, hi, rfl⟩ := h.stack
  have hroom := hpush.room
  refine ⟨⟨i, ?_, ?_⟩, h.frame.congr fun k hk => ?_⟩
  · rw [hpush.stackIdx]
    omega
  · rw [stackAddr, stackAddr, hpush.rows]
  rw [List.length_reverse, length_initialFrame] at hk
  rw [hpush.mem]
  refine pushWords_of_ne fun j hj heq => ?_
  rw [length_initialFrame] at hj
  rw [stackTop_pushWords] at heq
  have hnat := congrArg UInt64.toNat heq
  have hdisjoint := s.stackAddr_disjoint hi hroom
  rw [s.toNat_wordAt_stack (by omega) hk, s.toNat_wordAt_stack hroom hj] at hnat
  omega

theorem Framed.of_createTask {base entry' : UInt64} {r : Option TaskPtr}
    (h : s.Framed base entry) (hcreate : s.createTask entry' = some (r, s')) :
    s'.Framed base entry := by
  rcases createTask_memory hcreate with ⟨-, rfl⟩ | hpush
  · exact h
  · exact h.of_pushedFor hpush

end TermOS.Tasking.Sched

namespace TermOS.Tasking.Machine

open TermOS.Lib

variable {m m' : Machine} {base entry : UInt64}

/-- No step of the scheduler but `create_task` writes onto a stack. -/
theorem framed_of_step {e : Event} (hframed : m.sched.Framed base entry)
    (h : m.Step e m') : m'.sched.Framed base entry := by
  rcases step_cases h with ⟨u, rfl, rfl⟩ | ⟨rfl, hadv⟩ | ⟨-, hcase⟩
  · exact ⟨hframed.stack, hframed.frame⟩
  · rcases advance_cases hadv with ⟨hs, -⟩ | ⟨prev, next, rsp, -, -, rfl⟩
    · rw [hs]
      exact hframed
    · exact ⟨hframed.stack, hframed.frame⟩
  · rcases hcase with ⟨entry', r, rfl, hcreate, -⟩ | ⟨u, rfl, -, rfl⟩ |
      ⟨rsp, rfl, rfl⟩ | ⟨current, st, rsp, -, -, rfl⟩
    · exact hframed.of_createTask hcreate
    · exact ⟨hframed.stack, hframed.frame⟩
    · exact hframed
    · exact ⟨hframed.stack, hframed.frame⟩

theorem framed_of_run {events : List Event}
    (hframed : m.sched.Framed base entry) (h : Trace Step m events m') :
    m'.sched.Framed base entry :=
  h.invariant (I := fun m => m.sched.Framed base entry)
    (fun _ _ _ hm hstep => framed_of_step hm hstep) hframed

end TermOS.Tasking.Machine

namespace TermOS.Arch

open TermOS.Lib
open TermOS.Tasking (Sched Machine TaskPtr Event)

/-! ## The segments -/

theorem gdt_isCode64 : ∀ d ∈ gdt, d.isCode64 = true → d = gdt64Code := by
  decide

/-- The selector of the gates is the one the loader jumps with. -/
theorem kernelCs_eq : kernelCs = codeSeg64 := rfl

/-- One row of the table is 64-bit code, and the interrupt gates select it. -/
theorem longMode_iff {cs : UInt64} :
    LongMode cs ↔ descriptor cs = descriptor kernelCs := by
  have hgates : descriptor kernelCs = some gdt64Code := by
    rw [kernelCs_eq]
    rfl
  rw [hgates]
  refine ⟨?_, ?_⟩
  · intro h
    obtain ⟨d, hd, hlong⟩ := h
    have hmem : d ∈ gdt := by
      unfold descriptor at hd
      split at hd
      · exact List.mem_of_getElem? hd
      · cases hd
    rw [hd, gdt_isCode64 d hmem hlong]
  · exact fun h => ⟨gdt64Code, h, rfl⟩

theorem longMode_kernelCs : LongMode kernelCs := longMode_iff.2 rfl

theorem not_longMode_codeSeg : ¬ LongMode codeSeg := by
  rw [longMode_iff]
  decide

/-! ## The switch -/

/-- `d` is the machine at the entry of a `do_switch` to the task `t`. The words
on the task's stack are as the scheduler has them, and the outgoing stack
pointer goes elsewhere, into the outgoing task's `stack_top`. -/
structure SwitchesTo (s : Sched) (t : TaskPtr) (d : Cpu) : Prop where
  newStack : d.regs .rsi = (s.taskPool t).stackTop
  untouched : ∀ k < 20,
    d.mem (wordAt (d.regs .rsi) k) = s.mem (wordAt (d.regs .rsi) k)
  outside : ∀ k < 20, wordAt (d.regs .rsi) k ≠ d.regs .rdi

/-- The twenty words `do_switch` and its `iretq` pop lie in the 4096 bytes at
`base` and are those that `create_task` pushes. -/
structure PopsFrame (base entry : UInt64) (d : Cpu) : Prop where
  inside : ∀ k < 20, base.toNat ≤ (wordAt (d.regs .rsi) k).toNat ∧
    (wordAt (d.regs .rsi) k).toNat + 8 ≤ base.toNat + 4096
  written : Holds (d.exec (.storeRsp .rdi)).mem (d.regs .rsi)
    (Sched.initialFrame (base + 4096) entry).reverse

/-- A task at its entry, on its empty stack. -/
structure Begins (base entry : UInt64) (e : Cpu) : Prop where
  regs : ∀ r, e.regs r = 0
  rip : e.rip = entry
  rflags : e.rflags = 0x202
  rsp : e.rsp = base + 4096

/-- The first `do_switch` to a task as it should be. -/
def BeginsLong (admits : IretFrame → Bool) (base entry : UInt64)
    (d : Cpu) : Prop :=
  PopsFrame base entry d ∧ ∃ e, Cpu.run admits doSwitch d = some e ∧
    Begins base entry e ∧ LongMode e.cs

/-- The `iretq` frame `create_task` builds. -/
def taskFrame (base entry : UInt64) : IretFrame :=
  ⟨entry, codeSeg, 0x202, base + 4096, dataSeg⟩

theorem reverse_initialFrame (base entry : UInt64) :
    (Sched.initialFrame (base + 4096) entry).reverse =
      List.replicate 15 0 ++ ((taskFrame base entry).words ++ []) := by
  rw [Sched.initialFrame, List.reverse_append, List.reverse_replicate]
  rfl

theorem regs_eq_zero {e : Cpu} (h : e.savedRegs = List.replicate 15 0)
    (r : Reg) : e.regs r = 0 := by
  refine List.eq_of_mem_replicate (n := 15) ?_
  rw [← h, Cpu.savedRegs, List.mem_reverse]
  exact List.mem_map_of_mem (mem_saveOrder r)

/-- `do_switch` to a new task does what the words on its stack say. -/
theorem begins_of_popsFrame {admits : IretFrame → Bool} {base entry : UInt64}
    {d : Cpu} (h : PopsFrame base entry d) :
    ∃ e, Cpu.run admits doSwitch d =
        (if admits (taskFrame base entry) then some e else none) ∧
      Begins base entry e ∧ e.cs = codeSeg := by
  have hholds := h.written
  rw [reverse_initialFrame] at hholds
  obtain ⟨e, hrun, hregs, hframe⟩ := @Cpu.run_doSwitch admits d _ _ _
    (List.length_replicate) hholds
  refine ⟨e, hrun, ⟨regs_eq_zero hregs, ?_, ?_, ?_⟩, ?_⟩
  · exact congrArg IretFrame.rip hframe
  · exact congrArg IretFrame.rflags hframe
  · exact congrArg IretFrame.rsp hframe
  · exact congrArg IretFrame.cs hframe

theorem not_beginsLong {admits : IretFrame → Bool} {base entry : UInt64}
    {d : Cpu} : ¬ BeginsLong admits base entry d := by
  intro h
  obtain ⟨hpops, e, hrun, -, hlong⟩ := h
  obtain ⟨e', hrun', -, hcs⟩ := @begins_of_popsFrame admits _ _ _ hpops
  rw [hrun'] at hrun
  split at hrun
  · obtain rfl := Option.some.inj hrun
    rw [hcs] at hlong
    exact not_longMode_codeSeg hlong
  · cases hrun

/-! ## From `create_task` to the switch -/

/-- Whatever the scheduler does in between, the words are still there. -/
theorem popsFrame_of_run {s s' s'' : Sched} {entry rsp : UInt64} {t : TaskPtr}
    {events : List Event} {d : Cpu}
    (hcreate : s.createTask entry = some (some t, s'))
    (hrun : Trace (Trace.Along Machine.Step fun m _ _ =>
      m.sched.currentTask ≠ some t) ⟨s', .task⟩ events ⟨s'', .picked t rsp⟩)
    (hswitch : SwitchesTo s'' t d) :
    PopsFrame (s'.taskPool t).stackBase entry d := by
  rcases Sched.createTask_memory hcreate with ⟨hnone, -⟩ | hpush
  · cases hnone
  have hframed := Machine.framed_of_run (m := ⟨s', .task⟩) hpush.framed
    hrun.of_along
  have htop := stackTop_of_run hrun (hpush.poolIdx t rfl)
  have hsp : d.regs .rsi = s.stackAddr s.taskStackIdx + 3936 :=
    hswitch.newStack.trans (htop.trans (hpush.stackTop t rfl))
  rw [hpush.stackBase t rfl]
  refine ⟨fun k hk => ?_, ?_⟩
  · rw [hsp, s.toNat_wordAt_stack hpush.room hk]
    omega
  · rw [hsp]
    refine hframed.frame.congr fun k hk => ?_
    rw [List.length_reverse, Sched.length_initialFrame] at hk
    rw [← hsp, ← hswitch.untouched k hk]
    exact Function.update_of_ne (hswitch.outside k hk) _ _

/-- For every state, every entry for which `create_task` succeeds there and
everything the scheduler does until it first switches to the new task: the
twenty words popped are those of `create_task` on the task's own stack, and if
`iretq` admits the frame the task begins at its entry, with zero registers, the
flags 0x202 and an empty stack. It never begins in 64-bit mode, because the
frame's `cs` is the 32-bit code segment. -/
theorem begins_in_codeSeg (admits : IretFrame → Bool) {s s' s'' : Sched}
    {entry rsp : UInt64} {t : TaskPtr} {events : List Event} {d : Cpu}
    (hcreate : s.createTask entry = some (some t, s'))
    (hrun : Trace (Trace.Along Machine.Step fun m _ _ =>
      m.sched.currentTask ≠ some t) ⟨s', .task⟩ events ⟨s'', .picked t rsp⟩)
    (hswitch : SwitchesTo s'' t d) :
    PopsFrame (s'.taskPool t).stackBase entry d ∧
      (∃ e, Cpu.run admits doSwitch d =
          (if admits (taskFrame (s'.taskPool t).stackBase entry) then some e
            else none) ∧
        Begins (s'.taskPool t).stackBase entry e ∧ e.cs = codeSeg) ∧
      LongMode kernelCs ∧
      ¬ BeginsLong admits (s'.taskPool t).stackBase entry d := by
  have hpops := popsFrame_of_run hcreate hrun hswitch
  exact ⟨hpops, begins_of_popsFrame hpops, longMode_kernelCs, not_beginsLong⟩

/-- A `schedule` whose next task is running, up to its `do_switch`. -/
theorem trace_picked {s : Sched} {t u : TaskPtr}
    (hcur : s.currentTask = some t) (hnext : (s.taskPool t).next = some u)
    (hstate : (s.taskPool u).state = .running) (hne : t ≠ u) (rsp : UInt64) :
    Trace (Trace.Along Machine.Step fun m _ _ => m.sched.currentTask ≠ some u)
      ⟨s, .task⟩ [.schedule rsp, .advance, .advance] ⟨s, .picked u rsp⟩ := by
  have hother : s.currentTask ≠ some u := fun h =>
    hne (Option.some.inj (hcur.symm.trans h))
  have henter : (⟨s, .enter rsp⟩ : Machine).step .advance =
      some ⟨s, .scan u rsp⟩ := by
    simp only [Machine.step, Machine.advance, hcur, hnext]
  have hscan : (⟨s, .scan u rsp⟩ : Machine).step .advance =
      some ⟨s, .picked u rsp⟩ := by
    simp only [Machine.step, Machine.advance, if_pos hstate, if_neg hother]
  exact .cons ⟨rfl, hother⟩ (.cons ⟨henter, hother⟩
    (.cons ⟨hscan, hother⟩ (.nil _)))

/-- A machine about to switch, with nothing but the new stack to it. -/
theorem exists_switchesTo {s s' : Sched} {entry : UInt64} {t : TaskPtr}
    (hpush : s.PushedFor entry (some t) s') : ∃ d, SwitchesTo s' t d := by
  refine ⟨⟨fun r => if r = .rsi then (s'.taskPool t).stackTop else 0, 0x8300,
    kernelCs, 0x202, 0x90000, 0x10, s'.mem, []⟩, rfl, fun _ _ => rfl, ?_⟩
  intro k hk heq
  have hzero : wordAt (s'.taskPool t).stackTop k = 0 := heq
  have hnat := congrArg UInt64.toNat hzero
  rw [hpush.stackTop t rfl, s.toNat_wordAt_stack hpush.room hk,
    show (0 : UInt64).toNat = 0 from rfl] at hnat
  omega

/-- The kernel task creates a task and is switched away from. -/
theorem exists_firstSwitch (rows : Tasking.StackArray)
    (mem : UInt64 → UInt64) (entry rsp : UInt64) :
    ∃ s' t d, (Sched.initial rows mem).init.createTask entry =
        some (some t, s') ∧
      Trace (Trace.Along Machine.Step fun m _ _ =>
          m.sched.currentTask ≠ some t) ⟨s', .task⟩
        [.schedule rsp, .advance, .advance] ⟨s', .picked t rsp⟩ ∧
      SwitchesTo s' t d := by
  have hcur : (Sched.initial rows mem).init.currentTask = some 0 := rfl
  have hkernel : (Sched.initial rows mem).init.taskList = some 0 := rfl
  have hidx : (Sched.initial rows mem).init.taskPoolIdx = 1 := rfl
  rcases (Sched.RingInv.init rows mem).createTask entry with
    ⟨s', head, t, heq, hlist, -, hc⟩ | ⟨-, -, -, hfull⟩
  · obtain rfl := Option.some.inj (hkernel.symm.trans hlist)
    rcases Sched.createTask_memory heq with ⟨hnone, -⟩ | hpush
    · cases hnone
    obtain ⟨d, hd⟩ := exists_switchesTo hpush
    refine ⟨s', t, d, heq, trace_picked (hc.current.trans hcur) ?_ ?_ ?_ rsp, hd⟩
    · rw [hc.headTask]
    · rw [hc.newTask]
    · rintro rfl
      exact absurd (hc.slot.trans hidx) (by decide)
  · cases hfull

theorem begins_in_codeSeg_second : ∃ (s' : Sched) (t : TaskPtr) (d e : Cpu),
    (Sched.initial ⟨0x20000, by decide⟩ fun _ => 0).init.createTask 0x8000 =
        some (some t, s') ∧
      Cpu.run (fun _ => true) doSwitch d = some e ∧
      Begins (s'.taskPool t).stackBase 0x8000 e ∧ e.cs = codeSeg := by
  refine (exists_firstSwitch ⟨0x20000, by decide⟩ (fun _ => 0) 0x8000
    0x8FF00).imp fun s' h => h.imp fun t h => h.imp fun d h => ?_
  exact (begins_in_codeSeg (fun _ => true) h.1 h.2.1 h.2.2).2.1.imp
    fun e he => ⟨h.1, he.1, he.2⟩

/-- The first task the kernel creates and switches to: `iretq` loads 0x08. -/
theorem not_beginsLong_second : ∃ (s' : Sched) (t : TaskPtr) (d : Cpu),
    (Sched.initial ⟨0x20000, by decide⟩ fun _ => 0).init.createTask 0x8000 =
        some (some t, s') ∧
      Trace (Trace.Along Machine.Step fun m _ _ =>
          m.sched.currentTask ≠ some t) ⟨s', .task⟩
        [.schedule 0x8FF00, .advance, .advance] ⟨s', .picked t 0x8FF00⟩ ∧
      SwitchesTo s' t d ∧
      ¬ BeginsLong (fun _ => true) (s'.taskPool t).stackBase 0x8000 d := by
  refine (exists_firstSwitch ⟨0x20000, by decide⟩ (fun _ => 0) 0x8000
    0x8FF00).imp fun s' h => h.imp fun t h => h.imp fun d h => ?_
  exact ⟨h.1, h.2.1, h.2.2, not_beginsLong⟩

end TermOS.Arch
