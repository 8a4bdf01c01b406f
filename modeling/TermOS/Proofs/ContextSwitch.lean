import TermOS.Proofs.SavedContext
import TermOS.Proofs.TaskMachine

/-!
# What a context switch restores

A stub leaves the saved registers and the interrupt frame on top of the stack
and calls `schedule_wrapper`. By the time `do_switch` stores `rsp`, the return
address of that call and whatever `schedule_wrapper` and `schedule` keep there
lie on top of them. The `do_switch` that comes back pops fifteen registers and
executes `iretq` right at the stored `rsp`, so what it restores is not the
saved context but the first twenty words of frames and context together.

On the list of words on the stack this is plain: `pushAll` conses, `popAll`
takes fifteen off, and the interrupted task resumes exactly if the words on
top of its context happen to spell the context again.
-/

namespace TermOS.Arch

open TermOS.Lib
open TermOS.Tasking (Sched Machine TaskPtr Event)

namespace Cpu

variable {admits : IretFrame → Bool} {a b c d : Cpu}

/-! ## The restoring side -/

/-- `do_switch` on a stack that begins with fifteen registers and a frame. -/
theorem run_doSwitch {f : IretFrame} {vs ws : List UInt64}
    (hvs : vs.length = 15)
    (h : Holds (d.exec (.storeRsp .rdi)).mem (d.regs .rsi)
      (vs ++ (f.words ++ ws))) :
    ∃ e : Cpu, run admits doSwitch d = (if admits f then some e else none) ∧
      e.savedRegs = vs ∧ e.interruptFrame = f := by
  have hstack : Holds ((d.exec (.storeRsp .rdi)).exec (.loadRsp .rsi)).mem
      ((d.exec (.storeRsp .rdi)).exec (.loadRsp .rsi)).rsp
      (vs ++ (f.words ++ ws)) := h
  exact run_restore hvs hstack

/-! ## The saving side -/

/-- The stub as one of all stubs. -/
def isrOf : Stub → Isr
  | .irq32 => .irq32
  | .isrYield => .isrYield

theorem code_isrOf (stub : Stub) : stub.code = (isrOf stub).code := by
  cases stub <;> rfl

/-- Either stub enters `schedule_wrapper` with the context under the address
it is to return to. -/
theorem run_stub (stub : Stub) (wrapper back : UInt64) (a : Cpu)
    (isr cs : UInt64) :
    ∃ b, run admits (stub.code wrapper back) (a.deliver isr cs) = some b ∧
      Holds b.mem b.rsp (back :: a.context) := by
  have hregs : (a.deliver isr cs).regs = a.regs := by
    simp only [deliver, pushWord, store]
  have hcontext :
      (a.deliver isr cs).savedRegs ++ a.interruptFrame.words = a.context := by
    rw [context, savedRegs, hregs, savedRegs]
  obtain ⟨b, hrun, -, -, -, hholds⟩ :=
    @run_code admits (isrOf stub) wrapper back _ _ (deliver_holds a isr cs)
      (by simp [IretFrame.words])
  rw [hcontext] at hholds
  rw [code_isrOf]
  exact ⟨b, hrun, hholds⟩

/-! ## The round trip -/

/-- `b` is the machine behind the stub's call, and `c` is the machine at the
entry of `do_switch`, with the words `locals` of `schedule_wrapper` and
`schedule` (their registers, locals and return addresses) on the stack in
between. -/
structure SwitchesOut (admits : IretFrame → Bool) (stub : Stub)
    (wrapper back isr : UInt64) (a b : Cpu) (locals : List UInt64)
    (c : Cpu) : Prop where
  stub : run admits (stub.code wrapper back) (a.deliver isr kernelCs) = some b
  rsp : wordAt c.rsp locals.length = b.rsp
  locals : Holds c.mem c.rsp locals
  kept : ∀ i < 21, c.mem (wordAt b.rsp i) = b.mem (wordAt b.rsp i)

/-- `d` is the machine at the entry of a `do_switch` to the stack top
`stackTop`, and from there up to the interrupted frame memory is as it was in
`c`, the store of this `do_switch` into another task included. -/
structure SwitchesBack (stackTop : UInt64) (n : Nat) (c d : Cpu) : Prop where
  newStack : d.regs .rsi = stackTop
  untouched : ∀ i < n,
    (d.exec (.storeRsp .rdi)).mem (wordAt c.rsp i) = c.mem (wordAt c.rsp i)

/-- The interrupted code goes on where it was, with the registers, the flags
and the stack pointer it had. -/
def Resumes (a : Cpu) : Option Cpu → Prop
  | none => False
  | some e => e.rip = a.rip ∧ e.regs = a.regs ∧ e.rflags = a.rflags ∧
      e.rsp = a.rsp

/-- The words on the stack, frames first, begin with the saved registers and
with a frame that `iretq` admits and that has the same `rip`, `rflags` and
`rsp`. -/
def Coincides (admits : IretFrame → Bool) (a : Cpu)
    (frames : List UInt64) : Prop :=
  ∃ f rest, frames ++ a.context = a.savedRegs ++ (f.words ++ rest) ∧
    admits f = true ∧ f.rip = a.rip ∧ f.rflags = a.rflags ∧ f.rsp = a.rsp

theorem exists_frame {ws : List UInt64} (h : 20 ≤ ws.length) :
    ∃ (vs : List UInt64) (f : IretFrame) (rest : List UInt64),
      vs.length = 15 ∧ ws = vs ++ (f.words ++ rest) := by
  have hdrop : 5 ≤ (ws.drop 15).length := by
    rw [List.length_drop]
    omega
  obtain ⟨rip, cs, rflags, rsp, ss, rest, heq⟩ :
      ∃ rip cs rflags rsp ss rest,
        ws.drop 15 = rip :: cs :: rflags :: rsp :: ss :: rest := by
    match ws.drop 15, hdrop with
    | rip :: cs :: rflags :: rsp :: ss :: rest, _ =>
        exact ⟨rip, cs, rflags, rsp, ss, rest, rfl⟩
  refine ⟨ws.take 15, ⟨rip, cs, rflags, rsp, ss⟩, rest, ?_, ?_⟩
  · rw [List.length_take]
    omega
  · show ws = ws.take 15 ++ (rip :: cs :: rflags :: rsp :: ss :: rest)
    rw [← heq, List.take_append_drop]

/-- Nothing between the two switches is needed but the words on the stack. -/
theorem holds_back {stub : Stub} {wrapper back isr stackTop : UInt64}
    {locals : List UInt64}
    (hout : SwitchesOut admits stub wrapper back isr a b locals c)
    (htop : stackTop = c.rsp)
    (hback : SwitchesBack stackTop (locals.length + 21) c d) :
    Holds (d.exec (.storeRsp .rdi)).mem (d.regs .rsi)
      (locals ++ [back] ++ a.context) := by
  obtain ⟨b', hrun, hholds⟩ := @run_stub admits stub wrapper back a isr kernelCs
  obtain rfl : b' = b := Option.some.inj (hrun.symm.trans hout.stub)
  have hlen : (back :: a.context).length = 21 := by
    simp [context, length_savedRegs, IretFrame.words]
  have habove : Holds c.mem b'.rsp (back :: a.context) :=
    hholds.congr fun i hi => hout.kept i (hlen ▸ hi)
  have hall : Holds c.mem c.rsp (locals ++ back :: a.context) :=
    Holds.append_iff.2 ⟨hout.locals, hout.rsp ▸ habove⟩
  rw [hback.newStack, htop, List.append_assoc, List.singleton_append]
  refine hall.congr fun i hi => hback.untouched i ?_
  rwa [List.length_append, hlen] at hi

theorem resumes_iff_coincides {stub : Stub}
    {wrapper back isr stackTop : UInt64} {locals : List UInt64}
    (hout : SwitchesOut admits stub wrapper back isr a b locals c)
    (htop : stackTop = c.rsp)
    (hback : SwitchesBack stackTop (locals.length + 21) c d) :
    Resumes a (run admits doSwitch d) ↔
      Coincides admits a (locals ++ [back]) := by
  have hholds := holds_back hout htop hback
  refine ⟨?_, ?_⟩
  · intro hres
    have hlen : 20 ≤ (locals ++ [back] ++ a.context).length := by
      simp [context, length_savedRegs, IretFrame.words]
    obtain ⟨vs, f, rest, hvs, hws⟩ := exists_frame hlen
    rw [hws] at hholds
    obtain ⟨e, hrun, hregs, hframe⟩ := @run_doSwitch admits _ _ _ _ hvs hholds
    rw [hrun] at hres
    by_cases hadmits : admits f = true
    · rw [if_pos hadmits] at hres
      obtain ⟨hrip, heq, hflags, hrsp⟩ := hres
      refine ⟨f, rest, ?_, hadmits, ?_, ?_, ?_⟩
      · rw [hws, ← hregs, savedRegs, savedRegs, heq]
      · rw [← hframe]
        exact hrip
      · rw [← hframe]
        exact hflags
      · rw [← hframe]
        exact hrsp
    · rw [if_neg hadmits] at hres
      exact hres.elim
  · intro hcoincides
    obtain ⟨f, rest, hws, hadmits, hrip, hflags, hrsp⟩ := hcoincides
    rw [hws] at hholds
    obtain ⟨e, hrun, hregs, hframe⟩ :=
      @run_doSwitch admits _ _ _ _ (length_savedRegs a) hholds
    rw [hrun, if_pos hadmits]
    refine ⟨?_, savedRegs_inj hregs, ?_, ?_⟩
    · rw [← hrip, ← hframe]
      rfl
    · rw [← hflags, ← hframe]
      rfl
    · rw [← hrsp, ← hframe]
      rfl

end Cpu

/-! ## The stored stack pointer -/

/-- A task's `stack_top` is written only when it is switched away from. -/
theorem stackTop_of_step {m m' : Machine} {e : Event} {t : TaskPtr}
    (h : m.Step e m') (ht : t.val < m.sched.taskPoolIdx)
    (hcur : m.sched.currentTask ≠ some t) :
    (m'.sched.taskPool t).stackTop = (m.sched.taskPool t).stackTop := by
  have hstate : ∀ u st, ((m.sched.setState u st).taskPool t).stackTop =
      (m.sched.taskPool t).stackTop := fun u st =>
    Sched.modifyTask_field Tasking.Task.stackTop m.sched u
      (fun task => { task with state := st }) (fun _ => rfl) t
  rcases Machine.step_cases h with ⟨u, rfl, rfl⟩ | ⟨rfl, hadv⟩ | ⟨-, hcase⟩
  · exact hstate u _
  · rcases Machine.advance_cases hadv with ⟨hs, -⟩ |
      ⟨prev, next, rsp, -, hprev, rfl⟩
    · rw [hs]
    · have hne : t ≠ prev := by
        intro heq
        subst heq
        exact hcur hprev
      have hpool := Sched.modifyTask_of_ne m.sched hne
        fun u => { u with stackTop := rsp }
      exact congrArg Tasking.Task.stackTop hpool
  · rcases hcase with ⟨entry, r, rfl, hcreate, -⟩ | ⟨u, rfl, -, rfl⟩ |
      ⟨rsp, rfl, rfl⟩ | ⟨current, st, rsp, -, -, rfl⟩
    · have hframe := (Sched.createTask_frame hcreate).2.2 t ht
      have htop := congrArg Tasking.Task.stackTop hframe
      exact htop
    · exact hstate u _
    · rfl
    · exact hstate current st

theorem stackTop_of_run {m m' : Machine} {events : List Event} {t : TaskPtr}
    (h : Trace (Trace.Along Machine.Step fun m _ _ =>
      m.sched.currentTask ≠ some t) m events m')
    (ht : t.val < m.sched.taskPoolIdx) :
    (m'.sched.taskPool t).stackTop = (m.sched.taskPool t).stackTop := by
  induction h with
  | nil m => rfl
  | cons head _ ih =>
      have hle := Machine.idx_le_of_step head.1
      exact (ih (Nat.lt_of_lt_of_le ht hle)).trans
        (stackTop_of_step head.1 ht head.2)

/-- A task interrupted at `irq32` or `isr_yield`, switched away from by
`schedule` and later switched back to resumes where it was if and only if the
C++ frames on top of its saved context spell out that context again. -/
theorem switch_resumes_iff {admits : IretFrame → Bool} {stub : Stub}
    {wrapper back isr rsp : UInt64} {rows : Tasking.StackArray}
    {mem : UInt64 → UInt64} {before events : List Event} {s s' s'' : Sched}
    {task next : TaskPtr} {a b c d : Cpu} {locals : List UInt64}
    (hreach : Trace Machine.Step ⟨(Sched.initial rows mem).init, .task⟩ before
      ⟨s, .picked next c.rsp⟩)
    (htask : s.currentTask = some task)
    (haway : Machine.Step ⟨s, .picked next c.rsp⟩ .advance ⟨s', .task⟩)
    (hrun : Trace (Trace.Along Machine.Step fun m _ _ =>
      m.sched.currentTask ≠ some task) ⟨s', .task⟩ events
        ⟨s'', .picked task rsp⟩)
    (hout : Cpu.SwitchesOut admits stub wrapper back isr a b locals c)
    (hback : Cpu.SwitchesBack (s''.taskPool task).stackTop (locals.length + 21)
      c d) :
    Cpu.Resumes a (Cpu.run admits doSwitch d) ↔
      Cpu.Coincides admits a (locals ++ [back]) := by
  refine Cpu.resumes_iff_coincides hout ?_ hback
  obtain ⟨current, hcur, hlt⟩ := (Machine.MachineInv.run hreach).ring.current
  obtain rfl : task = current := Option.some.inj (htask.symm.trans hcur)
  -- `do_switch` stored `c.rsp`, and nothing has written the slot since.
  simp only [Machine.Step, Machine.step, Machine.advance, htask,
    Option.some.injEq, Machine.mk.injEq, and_true] at haway
  subst haway
  rw [stackTop_of_run hrun hlt, Sched.switchTo, Sched.modifyTask_self]

/-- A run in which the kernel task is switched away from at the stack pointer
`rsp`, to a task it has just created, and then back to. -/
theorem exists_switches (rsp : UInt64) : ∃ s s' s'' : Sched,
    Trace Machine.Step
        ⟨(Sched.initial ⟨0x20000, by decide⟩ fun _ => 0).init, .task⟩
        [.createTask 0x8000, .schedule rsp, .advance, .advance]
        ⟨s, .picked 1 rsp⟩ ∧
      s.currentTask = some 0 ∧
      Machine.Step ⟨s, .picked 1 rsp⟩ .advance ⟨s', .task⟩ ∧
      Trace (Trace.Along Machine.Step fun m _ _ =>
          m.sched.currentTask ≠ some 0) ⟨s', .task⟩
        [.schedule 0x20F00, .advance, .advance] ⟨s'', .picked 0 0x20F00⟩ ∧
      (s''.taskPool 0).stackTop = rsp := by
  refine ⟨_, _, _, .cons rfl (.cons rfl (.cons rfl (.cons rfl (.nil _)))), rfl,
    rfl, .cons ⟨rfl, ?_⟩ (.cons ⟨rfl, ?_⟩ (.cons ⟨rfl, ?_⟩ (.nil _))), rfl⟩
  all_goals exact fun h => absurd (Option.some.inj h) (by decide)

/-- A switch back that finds memory as it was: the store of its `do_switch`
goes below the words. -/
theorem exists_switchesBack (c : Cpu) {n : Nat} (hn : 8 * n < 2 ^ 64) :
    ∃ d : Cpu, Cpu.SwitchesBack c.rsp n c d := by
  refine ⟨(c.setReg .rsi c.rsp).setReg .rdi (c.rsp - 8), rfl, fun i hi => ?_⟩
  refine Function.update_of_ne ?_ _ _
  have hne := wordAt_ne (c.rsp - 8) (Nat.succ_pos i) (by omega)
  rwa [← wordAt_succ, UInt64.sub_add_cancel] at hne

/-- Frames of any words below those of the stub. -/
theorem exists_frames (b : Cpu) (locals : List UInt64) {n : Nat}
    (hlen : 8 * (locals.length + n) < 2 ^ 64) : ∃ c : Cpu,
      wordAt c.rsp locals.length = b.rsp ∧ Holds c.mem c.rsp locals ∧
      ∀ i < n, c.mem (wordAt b.rsp i) = b.mem (wordAt b.rsp i) := by
  induction locals with
  | nil => exact ⟨b, wordAt_zero _, trivial, fun _ _ => rfl⟩
  | cons w ws ih =>
      rw [List.length_cons] at hlen
      obtain ⟨c, hrsp, hholds, hkept⟩ := ih (by omega)
      have hback : c.rsp - 8 + 8 = c.rsp := UInt64.sub_add_cancel _ _
      refine ⟨c.pushWord w, ?_, hholds.push (by omega) w, fun i hi => ?_⟩
      · rw [List.length_cons, ← wordAt_succ]
        show wordAt (c.rsp - 8 + 8) ws.length = b.rsp
        rw [hback, hrsp]
      · rw [← hkept i hi, ← hrsp, wordAt_add]
        refine Function.update_of_ne ?_ _ _
        have hne := wordAt_ne (c.rsp - 8) (Nat.succ_pos (ws.length + i))
          (by omega)
        rwa [← wordAt_succ, hback] at hne

/-- The kernel task when the timer interrupts it, all of its registers zero. -/
def interrupted : Cpu :=
  ⟨fun _ => 0, 0x8200, 0x18, 0x202, 0x90000, 0x10, fun _ => 0, []⟩

/-- Frames that spell out the context they lie on: the task resumes. -/
theorem switch_resumes_iff_kernel : ∃ b c d : Cpu,
    Cpu.SwitchesOut (fun _ => true) .irq32 0x8400 0x8100 0x8050 interrupted b
        interrupted.context c ∧
      Cpu.SwitchesBack c.rsp (interrupted.context.length + 21) c d ∧
      Cpu.Resumes interrupted (Cpu.run (fun _ => true) doSwitch d) := by
  obtain ⟨b, hrun, -⟩ := @Cpu.run_stub (fun _ => true) .irq32 0x8400 0x8100
    interrupted 0x8050 kernelCs
  have hlen : 8 * (interrupted.context.length + 21) < 2 ^ 64 := by decide
  obtain ⟨c, hrsp, hholds, hkept⟩ := exists_frames b interrupted.context hlen
  obtain ⟨d, hback⟩ := exists_switchesBack c hlen
  have hout : Cpu.SwitchesOut (fun _ => true) .irq32 0x8400 0x8100 0x8050
      interrupted b interrupted.context c := ⟨hrun, hrsp, hholds, hkept⟩
  refine ⟨b, c, d, hout, hback, ?_⟩
  refine (exists_switches c.rsp).elim fun s hs => hs.elim fun s' hs =>
    hs.elim fun s'' hs => ?_
  refine (switch_resumes_iff hs.1 hs.2.1 hs.2.2.1 hs.2.2.2.1 hout
    (hs.2.2.2.2 ▸ hback)).2 ?_
  exact ⟨interrupted.interruptFrame, 0x8100 :: interrupted.context, rfl, rfl,
    rfl, rfl, rfl⟩

/-- Frames of no words at all, as tail calls leave them, and a switch back
that finds memory as it was. -/
theorem exists_roundTrip (admits : IretFrame → Bool) (stub : Stub)
    (wrapper back isr : UInt64) (a : Cpu) : ∃ b d : Cpu,
    Cpu.SwitchesOut admits stub wrapper back isr a b [] b ∧
      Cpu.SwitchesBack b.rsp 21 b d := by
  obtain ⟨b, hrun, -⟩ := @Cpu.run_stub admits stub wrapper back a isr kernelCs
  obtain ⟨d, hback⟩ := exists_switchesBack b (by omega : 8 * 21 < 2 ^ 64)
  exact ⟨b, d, ⟨hrun, wordAt_zero _, trivial, fun _ _ => rfl⟩, hback⟩

/-- With such frames the task resumes with the return address of `irq32`'s call
in `r15`, if it resumes. -/
theorem switch_kernel_not_resumes : ∃ (b d : Cpu) (s s' s'' : Sched),
    Trace Machine.Step
        ⟨(Sched.initial ⟨0x20000, by decide⟩ fun _ => 0).init, .task⟩
        [.createTask 0x8000, .schedule b.rsp, .advance, .advance]
        ⟨s, .picked 1 b.rsp⟩ ∧
      s.currentTask = some 0 ∧
      Machine.Step ⟨s, .picked 1 b.rsp⟩ .advance ⟨s', .task⟩ ∧
      Trace (Trace.Along Machine.Step fun m _ _ =>
          m.sched.currentTask ≠ some 0) ⟨s', .task⟩
        [.schedule 0x20F00, .advance, .advance] ⟨s'', .picked 0 0x20F00⟩ ∧
      Cpu.SwitchesOut (fun _ => true) .irq32 0x8400 0x8100 0x8050
        interrupted b [] b ∧
      Cpu.SwitchesBack (s''.taskPool 0).stackTop 21 b d ∧
      ¬ Cpu.Resumes interrupted (Cpu.run (fun _ => true) doSwitch d) := by
  have htrip := exists_roundTrip (fun _ => true) .irq32 0x8400 0x8100 0x8050
    interrupted
  refine htrip.imp fun b => .imp fun d h => ?_
  have hres := mt (Cpu.resumes_iff_coincides h.1 rfl h.2).1 (by
    -- The top word is the return address, and `r15` is zero.
    intro hcoincides
    obtain ⟨f, rest, hws, -⟩ := hcoincides
    have hhead := (List.cons.inj hws).1
    exact absurd hhead (by decide))
  refine (exists_switches b.rsp).elim fun s hs => hs.elim fun s' hs =>
    hs.elim fun s'' hs => ?_
  exact ⟨s, s', s'', hs.1, hs.2.1, hs.2.2.1, hs.2.2.2.1, h.1,
    hs.2.2.2.2 ▸ h.2, hres⟩

end TermOS.Arch
