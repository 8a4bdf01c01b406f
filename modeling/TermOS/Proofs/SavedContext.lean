import TermOS.Lib.WordStack
import TermOS.Ref.Stubs

/-!
# What the stubs save and restore

Pushes and pops are straight-line code: they run one after the other and leave
the ports alone. On the list of words on the stack, `pushAll` conses the
fifteen registers and `popAll` takes fifteen words off, so the pops give the
registers back if the words are still the ones that were pushed.
-/

namespace TermOS.Arch

open TermOS.Lib

def saveOrder : List Reg :=
  [.rax, .rcx, .rdx, .rbx, .rbp, .rsi, .rdi, .r8, .r9, .r10, .r11, .r12, .r13,
    .r14, .r15]

theorem mem_saveOrder (r : Reg) : r ∈ saveOrder := by cases r <;> decide

def IretFrame.words (f : IretFrame) : List UInt64 :=
  [f.rip, f.cs, f.rflags, f.rsp, f.ss]

theorem pushAll_eq : pushAll = saveOrder.map .push := rfl

theorem popAll_eq : popAll = saveOrder.reverse.map .pop := rfl

namespace Cpu

variable {admits : IretFrame → Bool} {b c : Cpu} {rs : List Reg}
  {is : List Instr}

/-- The registers as a stub leaves them on the stack, `r15` on top. -/
def savedRegs (c : Cpu) : List UInt64 := (saveOrder.map c.regs).reverse

def interruptFrame (c : Cpu) : IretFrame := ⟨c.rip, c.cs, c.rflags, c.rsp, c.ss⟩

/-- The context a stub saves: the registers on the interrupt frame. -/
def context (c : Cpu) : List UInt64 := c.savedRegs ++ c.interruptFrame.words

theorem length_savedRegs (c : Cpu) : c.savedRegs.length = 15 := by
  simp [savedRegs, saveOrder]

theorem savedRegs_inj (h : b.savedRegs = c.savedRegs) : b.regs = c.regs := by
  have hmap := List.reverse_injective h
  exact funext fun r => List.map_inj_left.1 hmap r (mem_saveOrder r)

/-! ## Pushes -/

/-- Pushes, in turn. -/
def pushes (c : Cpu) (rs : List Reg) : Cpu :=
  rs.foldl (fun c r => c.exec (.push r)) c

theorem run_pushes (c : Cpu) :
    run admits (rs.map .push ++ is) c = run admits is (c.pushes rs) := by
  induction rs generalizing c with
  | nil => rfl
  | cons r rs ih => exact ih (c.exec (.push r))

theorem ports_pushes (c : Cpu) (rs : List Reg) :
    (c.pushes rs).ports = c.ports := by
  induction rs generalizing c with
  | nil => rfl
  | cons r rs ih => exact ih (c.exec (.push r))

theorem rsp_pushes (c : Cpu) (rs : List Reg) :
    wordAt (c.pushes rs).rsp rs.length = c.rsp := by
  induction rs generalizing c with
  | nil => exact wordAt_zero _
  | cons r rs ih =>
      rw [List.length_cons, ← wordAt_add]
      show wordAt (wordAt ((c.exec (.push r)).pushes rs).rsp rs.length) 1 = c.rsp
      rw [ih]
      exact UInt64.sub_add_cancel c.rsp 8

/-- Pushes cons the registers. -/
theorem holds_pushes {ws : List UInt64} (h : Holds c.mem c.rsp ws)
    (hlen : 8 * (ws.length + rs.length) < 2 ^ 64) :
    Holds (c.pushes rs).mem (c.pushes rs).rsp
      ((rs.map c.regs).reverse ++ ws) := by
  induction rs generalizing c ws with
  | nil => exact h
  | cons r rs ih =>
      rw [List.length_cons] at hlen
      have hpush : Holds (c.exec (.push r)).mem (c.exec (.push r)).rsp
          (c.regs r :: ws) := h.push (by omega) (c.regs r)
      have hrest := ih hpush (by
        rw [List.length_cons]
        omega)
      rw [List.map_cons, List.reverse_cons, List.append_assoc]
      exact hrest

/-! ## Pops -/

/-- Pops, in turn. -/
def pops (c : Cpu) (rs : List Reg) : Cpu :=
  rs.foldl (fun c r => c.exec (.pop r)) c

theorem run_pops (c : Cpu) :
    run admits (rs.map .pop ++ is) c = run admits is (c.pops rs) := by
  induction rs generalizing c with
  | nil => rfl
  | cons r rs ih => exact ih (c.exec (.pop r))

theorem toIretq_pops (c : Cpu) :
    toIretq (rs.map .pop ++ is) c = toIretq is (c.pops rs) := by
  induction rs generalizing c with
  | nil => rfl
  | cons r rs ih => exact ih (c.exec (.pop r))

theorem ports_pops (c : Cpu) (rs : List Reg) :
    (c.pops rs).ports = c.ports := by
  induction rs generalizing c with
  | nil => rfl
  | cons r rs ih => exact ih (c.exec (.pop r))

theorem rsp_pops (c : Cpu) (rs : List Reg) :
    (c.pops rs).rsp = wordAt c.rsp rs.length := by
  induction rs generalizing c with
  | nil => exact (wordAt_zero _).symm
  | cons r rs ih =>
      have hpop : (c.exec (.pop r)).rsp = c.rsp + 8 := rfl
      have hrest := ih (c.exec (.pop r))
      rw [hpop, wordAt_succ] at hrest
      exact hrest

theorem regs_pops_of_notMem {r : Reg} (hr : r ∉ rs) :
    (c.pops rs).regs r = c.regs r := by
  induction rs generalizing c with
  | nil => rfl
  | cons u rs ih =>
      rw [List.mem_cons, not_or] at hr
      have hrest := @ih (c.exec (.pop u)) hr.2
      exact hrest.trans (Function.update_of_ne hr.1 _ _)

/-- Pops take as many words off the stack and leave them in the registers. -/
theorem holds_pops (hnodup : rs.Nodup) {vs ws : List UInt64}
    (h : Holds c.mem c.rsp (vs ++ ws)) (hlen : vs.length = rs.length) :
    rs.map (c.pops rs).regs = vs ∧
      Holds (c.pops rs).mem (c.pops rs).rsp ws := by
  induction rs generalizing c vs with
  | nil =>
      obtain rfl := List.eq_nil_of_length_eq_zero hlen
      exact ⟨rfl, h⟩
  | cons r rs ih =>
      obtain ⟨v, vs, rfl⟩ := List.exists_cons_of_length_eq_add_one hlen
      obtain ⟨hr, hnodup⟩ := List.nodup_cons.1 hnodup
      obtain ⟨hv, htail⟩ := h
      have hpop : Holds (c.exec (.pop r)).mem (c.exec (.pop r)).rsp
          (vs ++ ws) := htail
      obtain ⟨hmap, hholds⟩ := ih hnodup hpop (Nat.succ_injective hlen)
      refine ⟨?_, hholds⟩
      have hkept := @regs_pops_of_notMem (c.exec (.pop r)) rs r hr
      have hhead : (c.pops (r :: rs)).regs r = v :=
        hkept.trans ((Function.update_self _ _ _).trans hv)
      rw [List.map_cons, hhead]
      exact congrArg (v :: ·) hmap

/-- The fifteen pops, on a stack that begins with saved registers. -/
theorem holds_popAll {vs ws : List UInt64}
    (h : Holds c.mem c.rsp (vs ++ ws)) (hlen : vs.length = 15) :
    (c.pops saveOrder.reverse).savedRegs = vs ∧
      Holds (c.pops saveOrder.reverse).mem (c.pops saveOrder.reverse).rsp
        ws := by
  have hpops := holds_pops (by decide : saveOrder.reverse.Nodup) h hlen
  refine ⟨?_, hpops.2⟩
  rw [savedRegs, ← List.map_reverse]
  exact hpops.1

/-- At the `iretq` behind them the stack pointer is above the registers. -/
theorem toIretq_popAll (c : Cpu) :
    toIretq (popAll ++ [.iretq]) c = c.pops saveOrder.reverse ∧
      (c.pops saveOrder.reverse).rsp = wordAt c.rsp 15 := by
  refine ⟨?_, rsp_pops c saveOrder.reverse⟩
  rw [popAll_eq, toIretq_pops]
  rfl

theorem run_iretq : run admits [.iretq] c =
    if admits c.frame then some (c.exec .iretq) else none := rfl

theorem frame_of_holds {f : IretFrame} {ws : List UInt64}
    (h : Holds c.mem c.rsp (f.words ++ ws)) : c.frame = f := by
  obtain ⟨hrip, hcs, hflags, hrsp, hss, -⟩ := h
  simp only [UInt64.add_assoc] at hcs hflags hrsp hss
  rw [frame, hrip]
  congr

/-- The fifteen pops and the `iretq`, on a stack that begins with fifteen
registers and a frame. -/
theorem run_restore {f : IretFrame} {vs ws : List UInt64}
    (hvs : vs.length = 15) (h : Holds c.mem c.rsp (vs ++ (f.words ++ ws))) :
    ∃ e : Cpu, run admits (popAll ++ [.iretq]) c =
        (if admits f then some e else none) ∧
      e.savedRegs = vs ∧ e.interruptFrame = f := by
  obtain ⟨hregs, hholds⟩ := holds_popAll h hvs
  have hframe := frame_of_holds hholds
  refine ⟨(c.pops saveOrder.reverse).exec .iretq, ?_, hregs, ?_⟩
  · rw [popAll_eq, run_pops, run_iretq, hframe]
  · rw [← hframe]
    rfl

/-- What the CPU pushes on delivery. -/
theorem deliver_holds (a : Cpu) (isr cs : UInt64) :
    Holds (a.deliver isr cs).mem (a.deliver isr cs).rsp
      a.interruptFrame.words := by
  have hnil : Holds a.mem (a.rsp &&& 0xFFFFFFFFFFFFFFF0) [] := trivial
  have hss := hnil.push (by simp) a.ss
  have hrsp := hss.push (by simp) a.rsp
  have hflags := hrsp.push (by simp) a.rflags
  have hcs := hflags.push (by simp) a.cs
  exact hcs.push (by simp) a.rip

/-! ## A stub around its call -/

/-- What a stub does between its pushes and its call. -/
def prologue : Isr → List Instr
  | .isrGeneric => [.readRsp .rdi, .add .rdi (15 * 8)]
  | _ => []

/-- What a stub does behind its pops. -/
def epilogue : Isr → List Instr
  | .irq32 => [.movAl 0x20, .outAl 0x20, .iretq]
  | _ => [.iretq]

theorem code_eq (isr : Isr) (handler back : UInt64) :
    isr.code handler back = pushAll ++ (prologue isr ++
      .call handler back :: (popAll ++ epilogue isr)) := by
  cases isr <;> rfl

theorem behindCall_code (isr : Isr) (handler back : UInt64) :
    behindCall (isr.code handler back) = popAll ++ epilogue isr := by
  cases isr <;> rfl

/-- The prologue changes a register that has been saved. -/
theorem run_prologue (isr : Isr) (c : Cpu) :
    ∃ d, (∀ is, run admits (prologue isr ++ is) c = run admits is d) ∧
      d.mem = c.mem ∧ d.rsp = c.rsp ∧ d.ports = c.ports := by
  cases isr with
  | isrGeneric =>
      exact ⟨(c.exec (.readRsp .rdi)).exec (.add .rdi (15 * 8)), fun _ => rfl,
        rfl, rfl, rfl⟩
  | _ => exact ⟨c, fun _ => rfl, rfl, rfl, rfl⟩

theorem holds_pushAll {ws : List UInt64} (h : Holds c.mem c.rsp ws)
    (hlen : 8 * (ws.length + 16) < 2 ^ 64) :
    Holds (c.pushes saveOrder).mem (c.pushes saveOrder).rsp
      (c.savedRegs ++ ws) := by
  have hwords : saveOrder.length = 15 := rfl
  exact holds_pushes h (by omega)

/-- The fifteen pushes and a call, with code between them that leaves the stack
alone: the words at the entry of the called function, and where the stack
pointer was. -/
theorem run_pushAll_call {a d : Cpu} {mid : List Instr} {ws : List UInt64}
    (hmid : ∀ is, run admits (mid ++ is) (a.pushes saveOrder) =
      run admits is d)
    (hmem : d.mem = (a.pushes saveOrder).mem)
    (hrsp : d.rsp = (a.pushes saveOrder).rsp) (h : Holds a.mem a.rsp ws)
    (hlen : 8 * (ws.length + 16) < 2 ^ 64) (handler back : UInt64) :
    run admits (pushAll ++ (mid ++ .call handler back :: is)) a =
        some (d.exec (.call handler back)) ∧
      wordAt ((d.exec (.call handler back)).rsp + 8) 15 = a.rsp ∧
      Holds (d.exec (.call handler back)).mem (d.exec (.call handler back)).rsp
        (back :: (a.savedRegs ++ ws)) := by
  have hpushed := holds_pushAll h hlen
  have htop := rsp_pushes a saveOrder
  rw [← hmem, ← hrsp] at hpushed
  rw [← hrsp] at htop
  have hback : (d.exec (.call handler back)).rsp + 8 = d.rsp :=
    UInt64.sub_add_cancel d.rsp 8
  refine ⟨?_, ?_, hpushed.push ?_ back⟩
  · rw [pushAll_eq, run_pushes, hmid]
    rfl
  · rw [hback]
    exact htop
  · rw [List.length_append, length_savedRegs]
    omega

/-- At the entry of the C function lie the address it is to return to, the
registers, and what lay on the stack before. -/
theorem run_code (isr : Isr) (handler back : UInt64) {a : Cpu}
    {ws : List UInt64} (h : Holds a.mem a.rsp ws)
    (hlen : 8 * (ws.length + 16) < 2 ^ 64) :
    ∃ b, run admits (isr.code handler back) a = some b ∧
      b.rip = handler ∧ b.ports = a.ports ∧
      wordAt (b.rsp + 8) 15 = a.rsp ∧
      Holds b.mem b.rsp (back :: (a.savedRegs ++ ws)) := by
  obtain ⟨d, hmid, hmem, hrsp, hports⟩ :=
    @run_prologue admits isr (a.pushes saveOrder)
  obtain ⟨hrun, hentry, hholds⟩ :=
    @run_pushAll_call admits (popAll ++ epilogue isr) a d _ ws hmid hmem hrsp h
      hlen handler back
  refine ⟨d.exec (.call handler back), ?_, rfl,
    hports.trans (ports_pushes a saveOrder), hentry, hholds⟩
  rw [code_eq]
  exact hrun

end Cpu

end TermOS.Arch
