import TermOS.Proofs.TaskRunning
import TermOS.Proofs.Transparency
import TermOS.Ref.Board

/-!
# Who acknowledges the timer

`irq32` acknowledges the timer interrupt behind its call of
`schedule_wrapper`. When `schedule` switches, that call does not return before
the next instruction of a task: `do_switch` executes an `iretq` of its own,
and it writes to no port. So a timer interrupt is acknowledged exactly if
`schedule` finds no other running task, and after the first that is not, IRQ0
stays in service while the new task runs.
-/

namespace TermOS.Tasking.Sched

variable {s s' : Sched}

/-- There is nobody to switch to. -/
def Quiet (s : Sched) : Prop :=
  ∀ t : TaskPtr, t.val < s.taskPoolIdx → s.currentTask ≠ some t →
    s.state t ≠ .running

theorem RingInv.stays_iff (h : RingInv s) {fuel : Nat} {rsp : UInt64}
    (hsched : s.schedule fuel rsp = some s') :
    s'.currentTask = s.currentTask ↔ s.Quiet := by
  obtain ⟨current, l, hcur, hnotin, hmem, hcase⟩ := h.schedule_cases hsched
  rcases hcase with ⟨hfind, rfl⟩ | ⟨t, hfind, rfl⟩
  · refine iff_of_true rfl fun t ht hne hrun => ?_
    rcases List.mem_cons.1 ((hmem t).2 ht) with rfl | hl
    · exact hne hcur
    · exact List.find?_eq_none.1 hfind t hl (decide_eq_true hrun)
  · have hin := List.mem_of_find?_eq_some hfind
    have hne : s.currentTask ≠ some t := by
      intro heq
      obtain rfl : current = t := Option.some.inj (hcur.symm.trans heq)
      exact hnotin hin
    have hrun : s.state t = .running := by
      simpa [isRunning] using List.find?_some hfind
    refine iff_of_false hne.symm fun hquiet => ?_
    exact hquiet t ((hmem t).1 (List.mem_cons_of_mem _ hin)) hne hrun

/-- What is so before `Tasking::init`, and what is so after it. -/
def Known (s : Sched) : Prop :=
  RingInv s ∨ ∃ rows mem, s = initial rows mem

theorem Known.step (h : s.Known) {op : Op} (hstep : s.Step op s') :
    s'.Known := by
  rcases h with h | ⟨rows, mem, rfl⟩
  · exact .inl (h.step hstep)
  · exact .inr ⟨rows, mem, step_initial hstep⟩

theorem Known.stays_iff (h : s.Known) {fuel : Nat} {rsp : UInt64}
    (hsched : s.schedule fuel rsp = some s') :
    s'.currentTask = s.currentTask ↔ s.Quiet := by
  rcases h with h | ⟨rows, mem, rfl⟩
  · exact h.stays_iff hsched
  · have hsame := @step_initial s' rows mem (.schedule rsp) ⟨fuel, hsched⟩
    exact iff_of_true (congrArg currentTask hsame)
      fun t ht => absurd ht (Nat.not_lt_zero _)

end TermOS.Tasking.Sched

namespace TermOS.Arch

open TermOS.Lib
open TermOS.Tasking (Sched TaskPtr)

namespace Cpu

variable {admits : IretFrame → Bool} {c d e : Cpu} {wrapper back : UInt64}

/-- Up to its call `irq32` writes to no port. -/
theorem run_irq32 (admits : IretFrame → Bool) (wrapper back : UInt64)
    (a : Cpu) : ∃ b, run admits (Stub.irq32.code wrapper back) a = some b ∧
      b.ports = a.ports := by
  have hnil : Holds a.mem a.rsp [] := trivial
  obtain ⟨b, hrun, -, hports, -⟩ :=
    @run_code admits .irq32 wrapper back a [] hnil (by decide)
  exact ⟨b, hrun, hports⟩

/-- The rest of `irq32` writes the acknowledgement, and nothing else. -/
theorem ports_irq32
    (h : run admits (behindCall (irq32 wrapper back)) c = some e) :
    e.ports = eoi :: c.ports := by
  have hcode := behindCall_code .irq32 wrapper back
  rw [Isr.code] at hcode
  rw [hcode, popAll_eq, run_pops] at h
  rw [← ports_pops c saveOrder.reverse]
  generalize c.pops saveOrder.reverse = d at h
  have hrest : run admits (epilogue .irq32) d = run admits [.iretq]
      ((d.exec (.movAl 0x20)).exec (.outAl 0x20)) := rfl
  rw [hrest, run_iretq] at h
  split at h
  · obtain rfl := Option.some.inj h
    have hal : ((d.exec (.movAl 0x20)).regs .rax).toUInt8 = 0x20 :=
      toUInt8_setLow (d.regs .rax) 0x20
    show (0x20, ((d.exec (.movAl 0x20)).regs .rax).toUInt8) :: d.ports = _
    rw [hal, eoi]
  · cases h

theorem ports_deliver (c : Cpu) (isr cs : UInt64) :
    (c.deliver isr cs).ports = c.ports := by
  simp only [deliver, pushWord, store]

theorem run_doSwitch_eq (d : Cpu) : run admits doSwitch d = run admits [.iretq]
    (((d.exec (.storeRsp .rdi)).exec (.loadRsp .rsi)).pops
      saveOrder.reverse) := by
  generalize hc : (d.exec (.storeRsp .rdi)).exec (.loadRsp .rsi) = c
  show run admits (popAll ++ [.iretq])
    ((d.exec (.storeRsp .rdi)).exec (.loadRsp .rsi)) = _
  rw [hc, popAll_eq, run_pops]

theorem ports_doSwitch (h : run admits doSwitch d = some e) :
    e.ports = d.ports := by
  have hports : d.ports =
      ((d.exec (.storeRsp .rdi)).exec (.loadRsp .rsi)).ports := rfl
  rw [run_doSwitch_eq, run_iretq] at h
  rw [hports, ← ports_pops _ saveOrder.reverse]
  split at h
  · obtain rfl := Option.some.inj h
    rfl
  · cases h

/-- With nothing for `iretq` to refuse, both ways out lead to a task. -/
theorem exists_irq32 (wrapper back : UInt64) (c : Cpu) : ∃ e,
    run (fun _ => true) (behindCall (irq32 wrapper back)) c = some e := by
  have hcode := behindCall_code .irq32 wrapper back
  rw [Isr.code] at hcode
  rw [hcode, popAll_eq, run_pops]
  exact ⟨_, rfl⟩

theorem exists_doSwitch (d : Cpu) :
    ∃ e, run (fun _ => true) doSwitch d = some e := by
  rw [run_doSwitch_eq]
  exact ⟨_, rfl⟩

end Cpu

namespace Board

variable {admits : IretFrame → Bool} {links : Links} {b b' : Board} {e : Event}

/-- No timer interrupt is in service when a task goes on, and one that has
just been accepted has been acknowledged once. -/
def Acknowledged (b : Board) (e : Event) (b' : Board) : Prop :=
  b'.inService = false ∧ (e = .timer →
    b'.cpu.ports.count eoi = b.cpu.ports.count eoi + 1)

/-- The timer does not come when there is somebody to switch to. -/
def TimerQuiet (b : Board) (e : Event) (_ : Board) : Prop :=
  e = .timer → b.sched.Quiet

/-- What a timer interrupt leaves at the controller. -/
theorem Step.timer (h : Step admits links b .timer b')
    (hknown : b.sched.Known) :
    (b.sched.Quiet ∧ b'.cpu.ports = eoi :: b.cpu.ports ∧
        b'.inService = false) ∨
      (¬ b.sched.Quiet ∧ b'.cpu.ports = b.cpu.ports ∧ b'.inService = true) := by
  obtain ⟨fuel, rsp, c, hsched, hrun, hscheduled⟩ := h.effect
  obtain ⟨written, hwritten, hservice⟩ := h.controller
  have hstays := hknown.stays_iff hsched
  have hports : c.ports = b.cpu.ports := by
    obtain ⟨c', hrun', hports⟩ := Cpu.run_irq32 admits links.scheduleWrapper
      (links.back .irq32) (b.cpu.deliver (links.entry .irq32) kernelCs)
    rw [hrun'] at hrun
    obtain rfl := Option.some.inj hrun
    rw [hports, Cpu.ports_deliver]
  rcases hscheduled with ⟨hstay, d, -, hkept, hrest⟩ | ⟨d, hswitch, hrest⟩
  · have hout := Cpu.ports_irq32 hrest
    rw [hkept, hports] at hout
    refine .inl ⟨hstays.1 hstay, hout, ?_⟩
    rw [hout] at hwritten
    obtain rfl : [eoi] = written := List.append_cancel_right hwritten
    rw [hservice]
    rfl
  · have hout := Cpu.ports_doSwitch hrest
    rw [hswitch.ports, hports] at hout
    obtain ⟨prev, next, hprev, hnext, hne, -⟩ := hswitch.tasks
    refine .inr ⟨fun hquiet => ?_, hout, ?_⟩
    · rw [hstays.2 hquiet, hprev] at hnext
      exact hne (Option.some.inj hnext)
    · rw [hout] at hwritten
      obtain rfl : [] = written := List.append_cancel_right hwritten
      rw [hservice]
      rfl

theorem Step.known (h : Step admits links b e b') (hknown : b.sched.Known) :
    b'.sched.Known := by
  have heffect := h.effect
  cases e with
  | timer =>
      obtain ⟨fuel, rsp, -, hsched, -⟩ := heffect
      exact @Sched.Known.step _ _ hknown (.schedule rsp) ⟨fuel, hsched⟩
  | yield =>
      obtain ⟨fuel, rsp, -, hsched, -⟩ := heffect
      exact @Sched.Known.step _ _ hknown (.schedule rsp) ⟨fuel, hsched⟩
  | op op => exact hknown.step heffect.1
  | work =>
      rw [heffect]
      exact hknown

theorem Step.acknowledged_iff (h : Step admits links b e b')
    (hknown : b.sched.Known) (hidle : b.inService = false) :
    Acknowledged b e b' ↔ TimerQuiet b e b' := by
  by_cases he : e = .timer
  · subst he
    rcases h.timer hknown with ⟨hquiet, hports, hservice⟩ |
        ⟨hbusy, hports, hservice⟩
    · refine iff_of_true ⟨hservice, fun _ => ?_⟩ fun _ => hquiet
      rw [hports, List.count_cons_self]
    · refine iff_of_false (fun hack => ?_) fun hquiet => hbusy (hquiet rfl)
      exact Bool.noConfusion (hservice.symm.trans hack.1)
  · obtain ⟨written, -, hservice⟩ := h.controller
    rw [decide_eq_false he, hidle] at hservice
    exact iff_of_true ⟨hservice, fun htimer => absurd htimer he⟩
      fun htimer => absurd htimer he

/-- In a run of timer interrupts, yields and operations of the scheduler, each
timer interrupt is acknowledged once before a task goes on if and only if none
comes while another task is running. -/
theorem acknowledged_along_run_iff {rows : Tasking.StackArray}
    {mem : UInt64 → UInt64} {events : List Event}
    (hsched : b.sched = Sched.initial rows mem ∨
      b.sched = (Sched.initial rows mem).init)
    (hidle : b.inService = false) :
    Trace (Trace.Along (Step admits links) Acknowledged) b events b' ↔
      Trace (Trace.Along (Step admits links) TimerQuiet) b events b' := by
  have hknown : b.sched.Known := by
    rcases hsched with hsched | hsched
    · exact .inr ⟨rows, mem, hsched⟩
    · rw [hsched]
      exact .inl (Sched.RingInv.init rows mem)
  exact Trace.along_congr
    (I := fun b : Board => b.sched.Known ∧ b.inService = false)
    (fun _ _ _ hb hstep hack => ⟨hstep.known hb.1, hack.1⟩)
    (fun _ _ _ hb hstep => hstep.acknowledged_iff hb.1 hb.2) ⟨hknown, hidle⟩

/-- The kernel task, with interrupts enabled, after `Tasking::init`. -/
def kernelBoard : Board where
  cpu := ⟨fun _ => 0, 0x8200, 0x18, 0x202, 0x90000, 0x10, fun _ => 0, []⟩
  sched := (Sched.initial ⟨0x20000, by decide⟩ fun _ => 0).init
  inService := false

def kernelLinks : Links := ⟨fun _ => 0x8050, fun _ => 0x8100, 0x8400⟩

/-- The kernel task on its own is interrupted, and goes on. -/
theorem acknowledged_along_run_iff_alone : ∃ b',
    Trace (Trace.Along (Step (fun _ => true) kernelLinks) Acknowledged)
      kernelBoard [.timer] b' := by
  obtain ⟨c, hrun, hports⟩ := Cpu.run_irq32 (fun _ => true) 0x8400 0x8100
    (kernelBoard.cpu.deliver 0x8050 kernelCs)
  have hret : Cpu.Returned c { c with rip := c.mem c.rsp, rsp := c.rsp + 8 } :=
    ⟨rfl, rfl, fun _ _ => rfl, fun _ _ => rfl⟩
  obtain ⟨e, hrest⟩ := Cpu.exists_irq32 0x8400 0x8100
    { c with rip := c.mem c.rsp, rsp := c.rsp + 8 }
  have hwritten : e.ports = [eoi] ++ kernelBoard.cpu.ports := by
    rw [Cpu.ports_irq32 hrest, hports, Cpu.ports_deliver]
    rfl
  have hstep : Step (fun _ => true) kernelLinks kernelBoard .timer
      ⟨e, kernelBoard.sched, false⟩ :=
    ⟨fun _ => ⟨rfl, by decide⟩, ⟨1, 0x8FF00, c, rfl, hrun,
      .inl ⟨rfl, _, hret, rfl, hrest⟩⟩, [eoi], hwritten, rfl⟩
  refine ⟨_, (acknowledged_along_run_iff (.inr rfl) rfl).2
    (.cons ⟨hstep, fun _ t ht hne => ?_⟩ (.nil _))⟩
  have hzero : t = 0 := Fin.ext (Nat.lt_one_iff.1 ht)
  exact absurd (hzero ▸ rfl) hne

/-- The timer interrupts the kernel task when it has created another one. That
one executes with IRQ0 in service, and nothing has been written to a port. -/
theorem not_acknowledged_created : ∃ b',
    Trace (Step (fun _ => true) kernelLinks) kernelBoard
      [.op (.createTask 0x8000), .timer] b' ∧
    b'.sched.currentTask = some 1 ∧ b'.inService = true ∧
    b'.cpu.ports = [] := by
  obtain ⟨c, hrun, hports⟩ := Cpu.run_irq32 (fun _ => true) 0x8400 0x8100
    (kernelBoard.cpu.deliver 0x8050 kernelCs)
  obtain ⟨s, hcreate, hcur, hsched⟩ : ∃ s,
      kernelBoard.sched.createTask 0x8000 = some (some 1, s) ∧
        s.currentTask = some 0 ∧
        s.schedule 1 c.rsp = some (s.switchTo 0 1 c.rsp) :=
    ⟨_, rfl, rfl, rfl⟩
  obtain ⟨e, hrest⟩ := Cpu.exists_doSwitch
    (c.setReg .rsi (s.taskPool 1).stackTop)
  have hwritten : e.ports = [] ++ kernelBoard.cpu.ports := by
    rw [Cpu.ports_doSwitch hrest]
    show c.ports = _
    rw [hports, Cpu.ports_deliver]
    rfl
  have hswitch : Switches s (s.switchTo 0 1 c.rsp) c
      (c.setReg .rsi (s.taskPool 1).stackTop) := by
    refine ⟨⟨0, 1, hcur, rfl, by decide, ?_, ?_⟩, rfl⟩
    · rw [Sched.switchTo, Sched.modifyTask_self]
      rfl
    · exact Function.update_self Reg.rsi (s.taskPool 1).stackTop c.regs
  have hflags : kernelBoard.cpu.rflags &&& 0x200 ≠ 0 := by decide
  have hfirst : Step (fun _ => true) kernelLinks kernelBoard
      (.op (.createTask 0x8000)) ⟨kernelBoard.cpu, s, false⟩ :=
    ⟨Event.noConfusion, ⟨⟨_, hcreate⟩, .inl ⟨hcur, rfl⟩⟩, [], rfl, rfl⟩
  have hsecond : Step (fun _ => true) kernelLinks ⟨kernelBoard.cpu, s, false⟩
      .timer ⟨e, s.switchTo 0 1 c.rsp, true⟩ :=
    ⟨fun _ => ⟨rfl, hflags⟩, ⟨1, c.rsp, c, hsched, hrun,
      .inr ⟨_, hswitch, hrest⟩⟩, [], hwritten, rfl⟩
  exact ⟨_, .cons hfirst (.cons hsecond (.nil _)), rfl, rfl, hwritten⟩

end Board

end TermOS.Arch
