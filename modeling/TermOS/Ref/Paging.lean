import TermOS.Lib.ByteMemory

/-!
# The page tables of the boot sector (`boot.asm`)

`setup_paging`, instruction by instruction, with the registers it uses.
It runs in 32-bit mode without paging and with segments that begin at zero, so
`edi` is a physical address; the direction flag is clear. The address of the
return is not in the state.
-/

namespace TermOS.Arch

open TermOS.Lib.ByteMemory

structure Pm where
  mem : Nat → UInt8
  eax : UInt32
  ebx : UInt32
  ecx : UInt32
  edi : UInt32
  cr3 : UInt32

namespace Pm

/-- `stosd`, with the decrement that `rep` adds. -/
def stosd (s : Pm) : Pm :=
  { s with
    mem := store32 s.mem s.edi.toNat s.eax
    edi := s.edi + 4
    ecx := s.ecx - 1 }

theorem toNat_pred {c : UInt32} (h : c ≠ 0) : (c - 1).toNat = c.toNat - 1 := by
  have hpos : c.toNat ≠ 0 := fun hzero => h (UInt32.toNat_inj.1 hzero)
  exact UInt32.toNat_sub_of_le c 1
    (UInt32.le_iff_toNat_le.2 (Nat.one_le_iff_ne_zero.2 hpos))

theorem toNat_pred_lt {c : UInt32} (h : c ≠ 0) : (c - 1).toNat < c.toNat := by
  have hpos : c.toNat ≠ 0 := fun hzero => h (UInt32.toNat_inj.1 hzero)
  rw [toNat_pred h]
  omega

/-- `rep stosd`, which looks at `ecx` first. -/
def repStosd (s : Pm) : Pm :=
  if s.ecx = 0 then s else repStosd s.stosd
termination_by s.ecx.toNat
decreasing_by exact toNat_pred_lt (by assumption)

/-- A round of `.set_entry`, with the decrement of `loop`. -/
def setEntry (s : Pm) : Pm :=
  { s with
    mem := store32 s.mem s.edi.toNat s.ebx
    ebx := s.ebx + 0x1000
    edi := s.edi + 8
    ecx := s.ecx - 1 }

/-- The loop, which looks at `ecx` behind the round. -/
def setEntries (s : Pm) : Pm :=
  if s.setEntry.ecx = 0 then s.setEntry else setEntries s.setEntry
termination_by (s.ecx - 1).toNat
decreasing_by exact toNat_pred_lt (by assumption)

/-- `mov dword [a], v`. -/
def movDword (s : Pm) (a : Nat) (v : UInt32) : Pm :=
  { s with mem := store32 s.mem a v }

def movEdi (s : Pm) (v : UInt32) : Pm := { s with edi := v }

def movEbx (s : Pm) (v : UInt32) : Pm := { s with ebx := v }

def movEcx (s : Pm) (v : UInt32) : Pm := { s with ecx := v }

/-- `mov cr3, edi`. -/
def movCr3Edi (s : Pm) : Pm := { s with cr3 := s.edi }

/-- `xor eax, eax`. -/
def xorEax (s : Pm) : Pm := { s with eax := s.eax ^^^ s.eax }

def setupPaging (s : Pm) : Pm :=
  s.movEdi 0x1000
    |>.movCr3Edi
    |>.xorEax
    |>.movEcx 4096
    |>.repStosd
    |>.movDword 0x1000 0x2003
    |>.movDword 0x2000 0x3003
    |>.movDword 0x3000 0x4003
    |>.movEdi 0x4000
    |>.movEbx 0x00000003
    |>.movEcx 512
    |>.setEntries

end Pm

end TermOS.Arch
