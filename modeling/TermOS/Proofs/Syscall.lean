import TermOS.Proofs.SavedContext
import TermOS.Ref.Syscall

/-!
# A system call and its result

`isr_syscall` pushes the registers in the same order as the other stubs, so the
words `syscall_handler_regs` finds at its argument are the saved registers of
the interrupted code, `r15` at index 0 and `rax` at index 14. One store into
that list of words is one store into the registers that the pops give back.
Whatever registers the compiled C code leaves behind, they are popped over.
-/

namespace TermOS.Arch

open TermOS.Lib

namespace Cpu

variable {admits : IretFrame → Bool} {a b c : Cpu} {rs : List Reg}
  {ws : List UInt64} {handler back : UInt64}

/-! ## The saved registers as `rsp[i]` -/

theorem savedRegs_setReg (c : Cpu) (v : UInt64) :
    (c.setReg .rax v).savedRegs = c.savedRegs.set 14 v := rfl

/-- `syscall_handler_regs` on saved registers is a call with three of them and
a store of the result as `rax`. -/
theorem syscallHandlerRegs_savedRegs {mem : UInt64 → UInt64} {rsp : UInt64}
    (h : Holds mem rsp a.savedRegs) (syscallDispatcher : SyscallDispatcher) :
    syscallHandlerRegs syscallDispatcher rsp mem =
      (syscallDispatcher (a.regs .rax) (a.regs .rdi) (a.regs .rsi) mem).map
        fun p => Function.update p.2 (wordAt rsp 14) p.1 := by
  have hlen := length_savedRegs a
  have hrax : mem (wordAt rsp 14) = a.regs .rax :=
    Holds.iff_getElem.1 h 14 (by omega)
  have hrdi : mem (wordAt rsp 8) = a.regs .rdi :=
    Holds.iff_getElem.1 h 8 (by omega)
  have hrsi : mem (wordAt rsp 9) = a.regs .rsi :=
    Holds.iff_getElem.1 h 9 (by omega)
  simp only [syscallHandlerRegs, hrax, hrdi, hrsi]
  cases syscallDispatcher (a.regs .rax) (a.regs .rdi) (a.regs .rsi) mem with
  | none => rfl
  | some p => rfl

/-! ## The stub -/

theorem behindCall_isrSyscall (handler back : UInt64) :
    behindCall (isrSyscall handler back) = popAll ++ [.iretq] := rfl

/-- At the entry of `syscall_handler_regs` its argument is the address of the
saved registers, right above the address it is to return to. -/
theorem run_isrSyscall (admits : IretFrame → Bool) (handler back : UInt64)
    (h : Holds a.mem a.rsp ws) (hlen : 8 * (ws.length + 16) < 2 ^ 64) :
    ∃ b, run admits (isrSyscall handler back) a = some b ∧
      b.rip = handler ∧ b.regs .rdi = b.rsp + 8 ∧
      wordAt (b.rsp + 8) 15 = a.rsp ∧
      Holds b.mem b.rsp (back :: (a.savedRegs ++ ws)) := by
  obtain ⟨hrun, hrsp, hholds⟩ :=
    @run_pushAll_call admits (popAll ++ [.iretq]) a
      ((a.pushes saveOrder).exec (.readRsp .rdi)) [.readRsp .rdi] ws
      (fun _ => rfl) rfl rfl h hlen handler back
  exact ⟨_, hrun, rfl, (UInt64.sub_add_cancel _ 8).symm, hrsp, hholds⟩

/-- Behind the call the words on the stack are the saved registers with the
dispatcher's value as `rax`. -/
theorem SyscallReturned.holds {syscallDispatcher : SyscallDispatcher}
    (h : SyscallReturned syscallDispatcher (15 + ws.length) b c)
    (hstack : Holds b.mem b.rsp (back :: (a.savedRegs ++ ws)))
    (hlen : 8 * (ws.length + 16) < 2 ^ 64)
    (hrdi : b.regs .rdi = b.rsp + 8)
    (hspares : syscallDispatcher.Spares b.mem (b.rsp + 8) (15 + ws.length)) :
    ∃ r mem, syscallDispatcher (a.regs .rax) (a.regs .rdi) (a.regs .rsi)
        b.mem = some (r, mem) ∧
      Holds c.mem c.rsp ((a.setReg .rax r).savedRegs ++ ws) := by
  obtain ⟨mem', hhandler, hkept⟩ := h.stack
  have hregs := (Holds.append_iff.1 hstack.2).1
  rw [hrdi, syscallHandlerRegs_savedRegs hregs, Option.map_eq_some_iff]
    at hhandler
  obtain ⟨⟨r, mem⟩, hcall, rfl⟩ := hhandler
  refine ⟨r, mem, hcall, ?_⟩
  have hwords : (a.savedRegs ++ ws).length = 15 + ws.length := by
    rw [List.length_append, length_savedRegs]
  have hafter : Holds mem (b.rsp + 8) (a.savedRegs ++ ws) :=
    hstack.2.congr fun i hi => hspares _ _ _ r mem hcall i (hwords ▸ hi)
  have hset := hafter.set (by omega) (by omega : 14 < _) r
  have hsaved : (a.savedRegs ++ ws).set 14 r =
      (a.setReg .rax r).savedRegs ++ ws := by
    rw [savedRegs_setReg, List.set_append_left]
    rw [length_savedRegs]
    omega
  rw [hsaved, ← h.rsp] at hset
  refine hset.congr fun i hi => ?_
  rw [hkept i, h.rsp]
  rwa [← hsaved, List.length_set, hwords] at hi

/-- The pops, at the end of which `rsp` is where it was at the entry. -/
theorem toIretq_isrSyscall {r : UInt64}
    (hholds : Holds c.mem c.rsp ((a.setReg .rax r).savedRegs ++ ws))
    (hrsp : wordAt c.rsp 15 = a.rsp) :
    (c.toIretq (behindCall (isrSyscall handler back))).regs =
        Function.update a.regs .rax r ∧
      (c.toIretq (behindCall (isrSyscall handler back))).rsp = a.rsp := by
  obtain ⟨hpops, habove⟩ := toIretq_popAll c
  rw [behindCall_isrSyscall, hpops]
  refine ⟨savedRegs_inj (holds_popAll hholds (length_savedRegs _)).1, ?_⟩
  exact habove.trans hrsp

end Cpu

/-- For every machine that enters `isr_syscall` and every dispatcher:
`syscall_handler_regs` gets the address of the saved registers, and calls the
dispatcher with `rax`, `rdi` and `rsi` of the interrupted code. Behind a call
that returns, the stub reaches its `iretq` with the dispatcher's value in
`rax`, the other registers as they were, and `rsp` back at the frame. -/
theorem syscall_transparent (admits : IretFrame → Bool) (handler back : UInt64)
    (a : Cpu) (syscallDispatcher : SyscallDispatcher) :
    ∃ b, Cpu.run admits (isrSyscall handler back) a = some b ∧
      b.rip = handler ∧
      syscallHandlerRegs syscallDispatcher (b.regs .rdi) b.mem =
        (syscallDispatcher (a.regs .rax) (a.regs .rdi) (a.regs .rsi) b.mem).map
          (fun p => Function.update p.2 (wordAt (b.regs .rdi) 14) p.1) ∧
      ∀ c, Cpu.SyscallReturned syscallDispatcher 15 b c →
        syscallDispatcher.Spares b.mem (b.regs .rdi) 15 →
        c.rip = back ∧ ∃ r mem,
          syscallDispatcher (a.regs .rax) (a.regs .rdi) (a.regs .rsi) b.mem =
            some (r, mem) ∧
          (c.toIretq (behindCall (isrSyscall handler back))).regs =
            Function.update a.regs .rax r ∧
          (c.toIretq (behindCall (isrSyscall handler back))).rsp = a.rsp := by
  have hnil : Holds a.mem a.rsp [] := trivial
  obtain ⟨b, hrun, hrip, hrdi, hrsp, hstack⟩ :=
    Cpu.run_isrSyscall admits handler back hnil (by decide)
  refine ⟨b, hrun, hrip, ?_, fun c hret hspares => ?_⟩
  · rw [hrdi]
    exact Cpu.syscallHandlerRegs_savedRegs (Holds.append_iff.1 hstack.2).1 _
  · rw [hrdi] at hspares
    obtain ⟨r, mem, hcall, hholds⟩ :=
      Cpu.SyscallReturned.holds hret hstack (by decide) hrdi hspares
    rw [← hret.rsp] at hrsp
    exact ⟨hret.rip.trans hstack.1, r, mem, hcall,
      Cpu.toIretq_isrSyscall hholds hrsp⟩

/-- Number 2 in a machine with zeroes for the other registers. The dispatcher
answers 0 to a number it does nothing for. -/
theorem syscall_transparent_getcwd : ∃ b c : Cpu,
    Cpu.run (fun _ => true) (isrSyscall 0x8400 0x8100)
        ⟨fun r => if r = .rax then 2 else 0, 0x8200, 0x18, 0x202, 0x90000, 0x10,
          fun _ => 0, []⟩ = some b ∧
      Cpu.SyscallReturned (fun _ _ _ mem => some (0, mem)) 15 b c ∧
      ∃ r mem, (fun _ _ _ mem => some (0, mem) : SyscallDispatcher) 2 0 0 b.mem =
          some (r, mem) ∧
        (c.toIretq (behindCall (isrSyscall 0x8400 0x8100))).regs =
          Function.update (fun u => if u = .rax then 2 else 0) .rax r := by
  refine (syscall_transparent (fun _ => true) 0x8400 0x8100
    ⟨fun r => if r = .rax then 2 else 0, 0x8200, 0x18, 0x202, 0x90000, 0x10,
      fun _ => 0, []⟩ fun _ _ _ mem => some (0, mem)).imp fun b h => ?_
  have hret : Cpu.SyscallReturned (fun _ _ _ mem => some (0, mem)) 15 b
      { b with
        rip := b.mem b.rsp, rsp := b.rsp + 8
        mem := Function.update b.mem (wordAt (b.regs .rdi) 14) 0 } :=
    ⟨rfl, rfl, fun _ _ => rfl, _, rfl, fun _ _ => rfl⟩
  refine ⟨_, h.1, hret, ?_⟩
  have hspares : SyscallDispatcher.Spares (fun _ _ _ mem => some (0, mem)) b.mem
      (b.regs .rdi) 15 := by
    intro syscallNo arg1 arg2 ret mem' hcall i _
    rw [← (Prod.mk.inj (Option.some.inj hcall)).2]
  exact (h.2.2.2 _ hret hspares).2.imp fun r hr => hr.imp fun mem hmem =>
    ⟨hmem.1, hmem.2.1⟩

/-! ## The call in the editor -/

/-- `syscall1` as a whole, from the `int 0x80` through its gate to the `iretq`:
where the frame is admitted, the interrupted code goes on behind it with the
dispatcher's value in `rax` and no other register changed, which is more than
its inline assembly relies on. -/
theorem syscall1_returns (admits : IretFrame → Bool)
    (handler back isr no arg1 : UInt64) (a : Cpu)
    (syscallDispatcher : SyscallDispatcher) (hno : a.regs .rax = no)
    (harg1 : a.regs .rdi = arg1) :
    ∃ b, Cpu.run admits (isrSyscall handler back) (a.deliver isr kernelCs) =
        some b ∧
      ∀ c, Cpu.SyscallReturned syscallDispatcher 20 b c →
        syscallDispatcher.Spares b.mem (b.regs .rdi) 20 →
        ∃ r mem e, syscallDispatcher no arg1 (a.regs .rsi) b.mem =
            some (r, mem) ∧
          Cpu.run admits (behindCall (isrSyscall handler back)) c =
            (if admits a.interruptFrame then some e else none) ∧
          e.interruptFrame = a.interruptFrame ∧ Syscall1 no arg1 r a e := by
  have hframe := Cpu.deliver_holds a isr kernelCs
  have hregs : (a.deliver isr kernelCs).regs = a.regs := by
    simp only [Cpu.deliver, Cpu.pushWord, Cpu.store]
  obtain ⟨b, hrun, -, hrdi, -, hstack⟩ :=
    Cpu.run_isrSyscall admits handler back hframe (by simp [IretFrame.words])
  refine ⟨b, hrun, fun c hret hspares => ?_⟩
  rw [hrdi] at hspares
  have hlen : 8 * (a.interruptFrame.words.length + 16) < 2 ^ 64 := by
    simp [IretFrame.words]
  obtain ⟨r, mem, hcall, hholds⟩ := @Cpu.SyscallReturned.holds _ b c
    a.interruptFrame.words back syscallDispatcher hret hstack hlen hrdi hspares
  rw [← List.append_nil a.interruptFrame.words] at hholds
  obtain ⟨e, hend, hsaved, hback⟩ :=
    @Cpu.run_restore admits c _ _ _ (Cpu.length_savedRegs _) hholds
  have heq : e.regs = Function.update a.regs .rax r := by
    rw [Cpu.savedRegs_inj hsaved, ← hregs]
    rfl
  rw [hregs, hno, harg1] at hcall
  refine ⟨r, mem, e, hcall, ?_, hback, ⟨⟨hno, ?_, fun u hu => ?_⟩, harg1⟩⟩
  · rw [Cpu.behindCall_isrSyscall]
    exact hend
  · rw [heq, Function.update_self]
  · rw [List.mem_cons, not_or] at hu
    rw [heq, Function.update_of_ne hu.1]

end TermOS.Arch
