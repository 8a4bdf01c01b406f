import TermOS.Proofs.SavedContext

/-!
# What an interrupt leaves in the registers

Every stub pushes the fifteen registers, calls its C function and pops them.
Whatever the function does within its calling convention, the words on the
stack are those of the registers at entry, and the pops give them back. Three
of the stubs execute `iretq` right then. `irq32` acknowledges the interrupt
first, and for that it loads `al`.
-/

namespace TermOS.Arch

open TermOS.Lib

namespace Cpu

variable {a b c : Cpu} {isr : Isr} {handler back : UInt64}
  {ws : List UInt64}

/-- `rax` with another low byte, as `mov al, imm` has it. -/
def setLow (x : UInt64) (imm : UInt8) : UInt64 :=
  (x &&& 0xFFFFFFFFFFFFFF00) ||| imm.toUInt64

theorem toUInt8_setLow (x : UInt64) (imm : UInt8) :
    (setLow x imm).toUInt8 = imm := by
  have hzero : (0xFFFFFFFFFFFFFF00 : UInt64).toUInt8 = 0 := by decide
  rw [setLow, UInt64.toUInt8_or, UInt64.toUInt8_and, hzero, UInt8.and_zero,
    UInt8.zero_or, UInt8.toUInt8_toUInt64]

theorem setLow_toUInt8 (x : UInt64) : setLow x x.toUInt8 = x := by
  have hmask : ∀ i : Fin 64,
      (0xFFFFFFFFFFFFFF00#64)[i] = decide (8 ≤ i.val) := by decide
  apply UInt64.toBitVec_inj.1
  ext i hi
  have hlow : x.toUInt8.toUInt64.toBitVec[i] =
      (decide (i < 8) && x.toBitVec[i]) := by
    have hmod : x.toUInt8.toUInt64.toBitVec.toNat = x.toBitVec.toNat % 2 ^ 8 :=
      rfl
    rw [BitVec.getElem_eq_testBit_toNat, hmod, Nat.testBit_mod_two_pow,
      BitVec.getElem_eq_testBit_toNat]
  have hhigh : (0xFFFFFFFFFFFFFF00#64)[i] = decide (8 ≤ i) := hmask ⟨i, hi⟩
  rw [setLow, UInt64.toBitVec_or, BitVec.getElem_or, hlow, UInt64.toBitVec_and,
    BitVec.getElem_and]
  show (x.toBitVec[i] && (0xFFFFFFFFFFFFFF00#64)[i] || _) = _
  rw [hhigh]
  rcases Nat.lt_or_ge i 8 with h | h
  · simp [h]
  · simp [h]

theorem setLow_eq_iff {x : UInt64} {imm : UInt8} :
    setLow x imm = x ↔ x.toUInt8 = imm := by
  refine ⟨?_, ?_⟩
  · intro h
    rw [← h, toUInt8_setLow]
  · rintro rfl
    exact setLow_toUInt8 x

/-! ## From the call to the `iretq` -/

theorem Returned.holds (h : Returned b c)
    (hstack : Holds b.mem b.rsp (back :: (a.savedRegs ++ ws))) :
    Holds c.mem c.rsp a.savedRegs := by
  have hbelow := Holds.append_iff.1 hstack.2
  rw [← h.rsp] at hbelow
  exact hbelow.1.congr fun i hi => h.stack i (length_savedRegs a ▸ hi)

theorem regs_epilogue (isr : Isr) (c : Cpu) : (c.toIretq (epilogue isr)).regs =
    if isr = .irq32 then
      Function.update c.regs .rax (setLow (c.regs .rax) 0x20)
    else c.regs := by
  cases isr <;> rfl

theorem regs_epilogue_iff : (c.toIretq (epilogue isr)).regs = c.regs ↔
    isr ≠ .irq32 ∨ c.al = 0x20 := by
  rw [regs_epilogue]
  split
  · next hisr =>
      rw [Function.update_eq_self_iff, setLow_eq_iff]
      exact ⟨.inr, fun h => h.resolve_left fun hne => hne hisr⟩
  · next hisr => exact ⟨fun _ => .inl hisr, fun _ => rfl⟩

/-- The whole stub, around a function that returns. -/
theorem Returned.regs_iff (h : Returned b c)
    (hstack : Holds b.mem b.rsp (back :: (a.savedRegs ++ ws))) :
    (c.toIretq (behindCall (isr.code handler back))).regs = a.regs ↔
      isr ≠ .irq32 ∨ a.al = 0x20 := by
  have hholds := h.holds hstack
  rw [← List.append_nil a.savedRegs] at hholds
  have hregs := savedRegs_inj (holds_popAll hholds (length_savedRegs a)).1
  have hal : (c.pops saveOrder.reverse).al = a.al := by
    rw [al, hregs, al]
  rw [behindCall_code, popAll_eq, toIretq_pops, ← hregs, regs_epilogue_iff, hal]

end Cpu

/-- For every stub, every machine that enters it and every C function that
keeps its calling convention: all registers at `iretq` are those at entry if
and only if the stub is not `irq32`, or `al` was the acknowledgement anyway. -/
theorem transparent_iff (admits : IretFrame → Bool) (isr : Isr)
    (handler back : UInt64) (a : Cpu) :
    ∃ b, Cpu.run admits (isr.code handler back) a = some b ∧
      b.rip = handler ∧ ∀ c, Cpu.Returned b c → c.rip = back ∧
        ((c.toIretq (behindCall (isr.code handler back))).regs = a.regs ↔
          isr ≠ .irq32 ∨ a.al = 0x20) := by
  have hnil : Holds a.mem a.rsp [] := trivial
  obtain ⟨b, hrun, hrip, -, -, hstack⟩ :=
    @Cpu.run_code admits isr handler back a [] hnil (by decide)
  exact ⟨b, hrun, hrip, fun c hret =>
    ⟨hret.rip.trans hstack.1, hret.regs_iff hstack⟩⟩

/-- The timer interrupts a task whose registers are all zero, and
`schedule_wrapper` returns at once. The task goes on with 32 in `rax`. -/
theorem not_transparent_irq32 :
    let a := Cpu.deliver ⟨fun _ => 0, 0x8200, 0x18, 0x202, 0x90000, 0x10,
      fun _ => 0, []⟩ 0x8050 kernelCs
    let code := Isr.irq32.code 0x8400 0x8100
    ∃ b c, Cpu.run (fun _ => true) code a = some b ∧ Cpu.Returned b c ∧
      (c.toIretq (behindCall code)).regs ≠ a.regs := by
  intro a code
  have hnil : Holds a.mem a.rsp [] := trivial
  obtain ⟨b, hrun, -, -, -, hstack⟩ :=
    @Cpu.run_code (fun _ => true) .irq32 0x8400 0x8100 a [] hnil (by decide)
  have hret : Cpu.Returned b { b with rip := b.mem b.rsp, rsp := b.rsp + 8 } :=
    ⟨rfl, rfl, fun _ _ => rfl, fun _ _ => rfl⟩
  refine ⟨b, _, hrun, hret, mt (hret.regs_iff hstack).1 ?_⟩
  rw [not_or]
  exact ⟨fun hne => hne rfl, by decide⟩

end TermOS.Arch
