import TermOS.Proofs.Syscall
import TermOS.Ref.Idt

/-!
# The frame under the generic stub

`isr_generic` pops exactly what it has pushed, so at its `iretq` the stack
pointer is where it was at the entry. For most vectors that is the address of
the interrupted `rip`. Where the CPU has pushed an error code it is the address
of the error code, one word below: no instruction of the stub takes it off, and
`iretq` loads the error code as `rip`, `rip` as `cs`, and so on.
-/

namespace TermOS.Arch

open TermOS.Lib

/-! ## The gates -/

theorem isr_pieces (isr : UInt64) :
    (isr &&& 0xFFFF).toUInt16.toUInt64 |||
      ((isr >>> 16) &&& 0xFFFF).toUInt16.toUInt64 <<< 16 |||
      ((isr >>> 32) &&& 0xFFFFFFFF).toUInt32.toUInt64 <<< 32 = isr := by
  have h16 : (0xFFFF : UInt64).toNat = 2 ^ 16 - 1 := rfl
  have h32 : (0xFFFFFFFF : UInt64).toNat = 2 ^ 32 - 1 := rfl
  have hmid : (16 : UInt64).toNat % 64 = 16 := rfl
  have hhigh : (32 : UInt64).toNat % 64 = 32 := rfl
  refine UInt64.toNat_inj.1 (Nat.eq_of_testBit_eq fun i => ?_)
  have hbeyond : 64 ≤ i → isr.toNat.testBit i = false := fun h =>
    Nat.testBit_lt_two_pow (Nat.lt_of_lt_of_le isr.toNat_lt
      (Nat.pow_le_pow_right (by decide) h))
  -- Below 64, each bit of the address lies in exactly one of the pieces.
  simp only [UInt64.toNat_or, UInt64.toNat_shiftLeft, UInt64.toNat_and,
    UInt64.toNat_shiftRight, UInt16.toNat_toUInt64, UInt64.toNat_toUInt16,
    UInt32.toNat_toUInt64, UInt64.toNat_toUInt32, h16, h32, hmid, hhigh,
    Nat.testBit_or, Nat.testBit_mod_two_pow, Nat.testBit_shiftLeft,
    Nat.testBit_and, Nat.testBit_two_pow_sub_one, Nat.testBit_shiftRight]
  grind

/-- The CPU reads out of a gate the address `idt_set_descriptor` was given. -/
theorem isr_idtSetDescriptor (idt : Idt) (vector v : UInt8) (isr : UInt64)
    (flags : UInt8) : (idtSetDescriptor idt vector isr flags v).isr =
      if v = vector then isr else (idt v).isr := by
  rw [idtSetDescriptor]
  split
  · next h =>
      rw [h, Function.update_self]
      exact isr_pieces isr
  · next h => rw [Function.update_of_ne h]

theorem isr_initLoop (isrGeneric : UInt64) (n : Nat) :
    ∀ (i : Nat) (idt : Idt) (v : UInt8), i + n ≤ 256 →
      (Interrupts.initLoop isrGeneric n i idt v).isr =
        if i ≤ v.toNat ∧ v.toNat < i + n then isrGeneric else (idt v).isr := by
  induction n with
  | zero =>
      intro i idt v _
      rw [if_neg (by omega)]
      rfl
  | succ n ih =>
      intro i idt v hle
      have hv : v = UInt8.ofNat i ↔ v.toNat = i := by
        rw [← UInt8.toNat_inj, UInt8.toNat_ofNat_of_lt' (show i < 256 by omega)]
      rw [Interrupts.initLoop, ih _ _ _ (by omega), isr_idtSetDescriptor]
      simp only [hv]
      grind

/-- The gates that `Interrupts::init` points elsewhere. -/
def overridden : List UInt8 := [32, 33, 0x80, 0x81]

theorem isr_init (links : IsrLinks) (idt : Idt) (v : UInt8) :
    (Interrupts.init links idt v).isr =
      if v = 0x81 then links.isrYield else if v = 0x80 then links.isrSyscall
      else if v = 33 then links.irq33 else if v = 32 then links.irq32
      else links.isrGeneric := by
  have hv := v.toNat_lt
  have hloop : (Interrupts.initLoop links.isrGeneric 256 0 idt v).isr =
      links.isrGeneric := by
    rw [isr_initLoop _ _ _ _ _ (by omega), if_pos ⟨by omega, by omega⟩]
  simp only [Interrupts.init, isr_idtSetDescriptor, hloop]

/-- All other gates are left at the generic stub. -/
theorem isr_init_of_notMem {v : UInt8} (hv : v ∉ overridden) (links : IsrLinks)
    (idt : Idt) : (Interrupts.init links idt v).isr = links.isrGeneric := by
  simp only [overridden, List.mem_cons, List.not_mem_nil, or_false, not_or]
    at hv
  obtain ⟨h32, h33, h80, h81⟩ := hv
  rw [isr_init, if_neg h81, if_neg h80, if_neg h33, if_neg h32]

namespace Cpu

variable {admits : IretFrame → Bool} {a b c : Cpu} {handler back : UInt64}
  {ws : List UInt64} {idt : Idt} {vector : UInt8} {cause : Cause}

/-! ## The frame -/

/-- What the CPU pushes, the top of the stack first. -/
def pushed (a : Cpu) (vector : UInt8) (cause : Cause) : List UInt64 :=
  (cause.errorCode vector).toList ++ a.interruptFrame.words

theorem rsp_deliver (a : Cpu) (isr cs : UInt64) :
    (a.deliver isr cs).rsp = a.ripSlot := by
  show (a.rsp &&& 0xFFFFFFFFFFFFFFF0) - 8 - 8 - 8 - 8 - 8 =
    (a.rsp &&& 0xFFFFFFFFFFFFFFF0) - 5 * 8
  generalize a.rsp &&& 0xFFFFFFFFFFFFFFF0 = sp
  grind

theorem raise_holds (a : Cpu) (idt : Idt) (vector : UInt8) (cause : Cause) :
    Holds (a.raise idt vector cause).mem (a.raise idt vector cause).rsp
      (a.pushed vector cause) := by
  have hframe := deliver_holds a (idt vector).isr
    (idt vector).kernelCs.toUInt64
  rw [raise, pushed]
  cases cause.errorCode vector with
  | none => exact hframe
  | some errorCode =>
      exact hframe.push (by simp [IretFrame.words]) errorCode

/-- The stack pointer at the entry of the routine is at the pushed `rip`
unless there is an error code. -/
theorem rsp_raise (a : Cpu) (idt : Idt) (vector : UInt8) (cause : Cause) :
    (a.raise idt vector cause).rsp =
      if cause.errorCode vector = none then a.ripSlot else a.ripSlot - 8 := by
  rw [raise]
  cases cause.errorCode vector with
  | none => exact rsp_deliver a _ _
  | some errorCode =>
      show (a.deliver _ _).rsp - 8 = a.ripSlot - 8
      rw [rsp_deliver]

theorem rsp_raise_eq_ripSlot_iff : (a.raise idt vector cause).rsp = a.ripSlot ↔
    cause.errorCode vector = none := by
  rw [rsp_raise]
  split
  · next h => exact iff_of_true rfl h
  · next h =>
      refine iff_of_false (fun heq => ?_) h
      have hne : a.ripSlot - 8 ≠ a.ripSlot := by grind
      exact hne heq

/-! ## The stub -/

theorem behindCall_isrGeneric (handler back : UInt64) :
    behindCall (isrGeneric handler back) = popAll ++ [.iretq] := rfl

/-- At the `iretq` the stack pointer is where it was at the entry. -/
theorem toIretq_isrGeneric (handler back : UInt64) :
    (c.toIretq (behindCall (isrGeneric handler back))).rsp =
      wordAt c.rsp 15 := by
  obtain ⟨hpops, habove⟩ := toIretq_popAll c
  rw [behindCall_isrGeneric, hpops]
  exact habove

/-- Behind the call `iretq` loads the five words that were pushed last. -/
theorem run_behindCall {f : IretFrame} {vs : List UInt64}
    (hpushed : a.pushed vector cause = f.words ++ vs) (handler back : UInt64)
    (hholds : Holds c.mem c.rsp (b.savedRegs ++ a.pushed vector cause)) :
    ∃ e, run admits (behindCall (isrGeneric handler back)) c =
        (if admits f then some e else none) ∧ e.interruptFrame = f := by
  rw [hpushed] at hholds
  obtain ⟨e, hend, -, hframe⟩ :=
    @run_restore admits c _ _ _ (length_savedRegs b) hholds
  rw [behindCall_isrGeneric]
  exact ⟨e, hend, hframe⟩

/-- `generic_handler` leaves the words above its return address alone. -/
theorem GenericReturned.holds (h : GenericReturned ws.length b c)
    (hstack : Holds b.mem b.rsp (back :: ws)) : Holds c.mem c.rsp ws := by
  have hbelow := hstack.2
  rw [← h.rsp] at hbelow
  exact hbelow.congr h.stack

/-- A handler that does nothing at all. -/
theorem GenericReturned.refl (n : Nat) (b : Cpu) :
    GenericReturned n b { b with rip := b.mem b.rsp, rsp := b.rsp + 8 } :=
  ⟨rfl, rfl, fun _ _ => rfl, fun _ _ => rfl⟩

end Cpu

/-- Through the gate of `vector` control enters `isr_generic`, which calls
`generic_handler`. Whenever that returns, `iretq` executes with `rsp` at the
pushed `rip`, and if it admits the frame of the interrupted code, control is
back there. -/
def ReturnsThrough (admits : IretFrame → Bool)
    (isrGeneric handler back : UInt64) (idt : Idt) (vector : UInt8)
    (cause : Cause) (a : Cpu) : Prop :=
  (a.raise idt vector cause).rip = isrGeneric ∧
    ∃ b, Cpu.run admits (Arch.isrGeneric handler back)
        (a.raise idt vector cause) = some b ∧ b.rip = handler ∧
      ∀ c, Cpu.GenericReturned (15 + (a.pushed vector cause).length) b c →
        c.rip = back ∧
        (c.toIretq (behindCall (Arch.isrGeneric handler back))).rsp =
          a.ripSlot ∧
        ∃ e, Cpu.run admits (behindCall (Arch.isrGeneric handler back)) c =
            (if admits a.interruptFrame then some e else none) ∧
          e.interruptFrame = a.interruptFrame

namespace Cpu

theorem rip_raise (a : Cpu) (idt : Idt) (vector : UInt8) (cause : Cause) :
    (a.raise idt vector cause).rip = (idt vector).isr := by
  rw [raise]
  cases cause.errorCode vector <;> rfl

/-- The whole stub around a handler that returns: the stack pointer and the
words at the `iretq`. -/
theorem run_raise (admits : IretFrame → Bool) (handler back : UInt64)
    (idt : Idt) (vector : UInt8) (cause : Cause) (a : Cpu) :
    ∃ b, run admits (isrGeneric handler back) (a.raise idt vector cause) =
        some b ∧ b.rip = handler ∧
      ∀ c, GenericReturned (15 + (a.pushed vector cause).length) b c →
        c.rip = back ∧
        (c.toIretq (behindCall (isrGeneric handler back))).rsp =
          (a.raise idt vector cause).rsp ∧
        Holds c.mem c.rsp
          ((a.raise idt vector cause).savedRegs ++ a.pushed vector cause) := by
  have hlen : 8 * ((a.pushed vector cause).length + 16) < 2 ^ 64 := by
    cases h : cause.errorCode vector <;> simp [pushed, h, IretFrame.words]
  obtain ⟨b, hrun, hrip, -, hrsp, hstack⟩ :=
    @run_code admits .isrGeneric handler back _ _
      (raise_holds a idt vector cause) hlen
  refine ⟨b, hrun, hrip, fun c hret => ⟨hret.rip.trans hstack.1, ?_, ?_⟩⟩
  · rw [toIretq_isrGeneric, hret.rsp, hrsp]
  · refine GenericReturned.holds ?_ hstack
    rwa [List.length_append, length_savedRegs]

end Cpu

theorem ReturnsThrough.errorCode_eq_none {admits : IretFrame → Bool}
    {isrGeneric handler back : UInt64} {idt : Idt} {vector : UInt8}
    {cause : Cause} {a : Cpu}
    (h : ReturnsThrough admits isrGeneric handler back idt vector cause a) :
    cause.errorCode vector = none := by
  obtain ⟨b, hrun, -, hret⟩ :=
    Cpu.run_raise admits handler back idt vector cause a
  obtain ⟨-, b', hrun', -, hreturns⟩ := h
  obtain rfl := Option.some.inj (hrun.symm.trans hrun')
  have hdone := Cpu.GenericReturned.refl (15 + (a.pushed vector cause).length) b
  have hrsp := (hret _ hdone).2.1
  rw [(hreturns _ hdone).2.1] at hrsp
  exact Cpu.rsp_raise_eq_ripSlot_iff.1 hrsp.symm

/-- With an error code on the stack, `iretq` takes it for `rip` and each word
of the frame for the one after it. -/
theorem iretq_errorCode (admits : IretFrame → Bool) (handler back : UInt64)
    (idt : Idt) {vector : UInt8} {cause : Cause} {errorCode : UInt64}
    (hcode : cause.errorCode vector = some errorCode) (a : Cpu) :
    ∃ b, Cpu.run admits (isrGeneric handler back)
        (a.raise idt vector cause) = some b ∧
      ∀ c, Cpu.GenericReturned (15 + (a.pushed vector cause).length) b c →
        ∃ e, Cpu.run admits (behindCall (isrGeneric handler back)) c =
            (if admits ⟨errorCode, a.rip, a.cs, a.rflags, a.rsp⟩ then some e
              else none) ∧
          e.interruptFrame = ⟨errorCode, a.rip, a.cs, a.rflags, a.rsp⟩ := by
  obtain ⟨b, hrun, -, hret⟩ :=
    Cpu.run_raise admits handler back idt vector cause a
  have hpushed : a.pushed vector cause =
      (⟨errorCode, a.rip, a.cs, a.rflags, a.rsp⟩ : IretFrame).words ++
        [a.ss] := by
    rw [Cpu.pushed, hcode]
    rfl
  refine ⟨b, hrun, fun c hc => ?_⟩
  exact Cpu.run_behindCall hpushed handler back (hret c hc).2.2

/-- For every vector that `Interrupts::init` leaves at `isr_generic`, every
cause and every machine: control returns to the interrupted code by way of the
pushed `rip` if and only if the CPU has pushed no error code. -/
theorem generic_returns_iff (admits : IretFrame → Bool) (links : IsrLinks)
    (idt : Idt) (handler back : UInt64) (vector : UInt8) (cause : Cause)
    (a : Cpu)
    (hgate : (Interrupts.init links idt vector).isr = links.isrGeneric) :
    ReturnsThrough admits links.isrGeneric handler back
        (Interrupts.init links idt) vector cause a ↔
      cause.errorCode vector = none := by
  refine ⟨?_, ?_⟩
  · exact ReturnsThrough.errorCode_eq_none
  · intro hnone
    obtain ⟨b, hrun, hrip, hret⟩ := Cpu.run_raise admits handler back
      (Interrupts.init links idt) vector cause a
    refine ⟨(Cpu.rip_raise a _ vector cause).trans hgate, b, hrun, hrip,
      fun c hc => ?_⟩
    obtain ⟨hback, hrsp, hholds⟩ := hret c hc
    have hpushed : a.pushed vector cause = a.interruptFrame.words ++ [] := by
      rw [Cpu.pushed, hnone, List.append_nil]
      rfl
    refine ⟨hback, ?_, Cpu.run_behindCall hpushed handler back hholds⟩
    rw [hrsp]
    exact Cpu.rsp_raise_eq_ripSlot_iff.2 hnone

/-- A division by zero, which has no error code. -/
theorem generic_returns_iff_divide :
    let links : IsrLinks := ⟨0x8000, 0x8100, 0x8200, 0x8300, 0x8400⟩
    let a : Cpu :=
      ⟨fun _ => 0, 0x8600, 0x18, 0x202, 0x90000, 0x10, fun _ => 0, []⟩
    ReturnsThrough (fun _ => true) links.isrGeneric 0x8500 0x8080
        (Interrupts.init links fun _ => ⟨0, 0, 0, 0, 0, 0, 0⟩) 0
        (.exception 0) a ↔
      Cause.errorCode 0 (.exception 0) = none := by
  intro links a
  exact generic_returns_iff (fun _ => true) links _ 0x8500 0x8080 0
    (.exception 0) a (isr_init_of_notMem (by decide) links _)

/-- A page fault on a write to an absent page, error code 2. Its gate is
`isr_generic`'s, and control does not return to the interrupted code. -/
theorem not_generic_returns_pageFault :
    let links : IsrLinks := ⟨0x8000, 0x8100, 0x8200, 0x8300, 0x8400⟩
    let idt := Interrupts.init links fun _ => ⟨0, 0, 0, 0, 0, 0, 0⟩
    let a : Cpu :=
      ⟨fun _ => 0, 0x8600, 0x18, 0x202, 0x90000, 0x10, fun _ => 0, []⟩
    (idt 14).isr = links.isrGeneric ∧
      ¬ ReturnsThrough (fun _ => true) links.isrGeneric 0x8500 0x8080 idt 14
        (.exception 2) a := by
  intro links idt a
  refine ⟨isr_init_of_notMem (by decide) links _, fun h => ?_⟩
  exact absurd h.errorCode_eq_none (by decide)

end TermOS.Arch
