import TermOS.Lib.PageWalk
import TermOS.Ref.Fat32
import TermOS.Ref.Gdt
import TermOS.Ref.Paging

/-!
# The boot sector (`boot.asm`)

From `_start` to the call of `_kmain`. The BIOS is what it answers to the three
interrupts and the bytes it stores; what it uses below 0x7C00, and the stack
there in real mode, are not in the state. `_start` stores the number of the
drive while `ds` still is what the BIOS has left in it; `a20` says whether the
gate is open, and while it is closed addresses from 1 MiB on are folded back.
Behind that store all segments begin at zero.

`mov sp` sets the lower half of `esp` and nothing clears the direction flag, so
both are as the BIOS has left them when `init_pm` makes its calls: it gives the
flags back, carry apart, the upper halves of the registers and the gate. There
is memory at every address. A `ret` that does not find the address its call has
stored leads nowhere.

Nothing of the code is in the memory of the model but what it reads: the bytes
from `current_disk` on. `a20_error`, `no_ebios` and `disk_error` are an endless
loop behind `prints`.
-/

namespace TermOS.Arch

open TermOS.Lib (PageWalk)
open TermOS.Lib.ByteMemory
open TermOS.Lib.CString (apply storesAt)
open TermOS.Storage (Str lit)

/-! ## The bytes of the sector -/

def SegmentDescriptor.bytes (d : SegmentDescriptor) : List UInt8 :=
  bytes16 d.limitLow ++ bytes16 d.baseLow ++
    [d.baseMid, d.access, d.flags, d.baseHigh]

def noEbiosText : Str := lit "[BOOT] PANIC: EBIOS IS NOT SUPPORTED!"

def diskErrorText : Str := lit "[BOOT] PANIC: DISK READ ERROR!"

def a20ErrorText : Str := lit "[BOOT] PANIC: A20 GATE IS NOT OPENED!"

/-- `dap`. -/
def dapBytes : List UInt8 :=
  [0x10, 0x00] ++ bytes16 0x03a ++ bytes16 0x7e00 ++ bytes16 0x0000 ++
    bytes32 0x00000001 ++ bytes32 0

/-- Where the assembler puts `current_disk`, behind the code, and what the
calls of `_kmain`, `setup_paging` and `enable_long_mode` return to. The bytes
from `current_disk` on fit the sector. -/
structure BootImage where
  currentDisk : Nat
  back : UInt64
  backPaging : UInt32
  backLongMode : UInt32
  le : 0x7C00 ≤ currentDisk
  fits : currentDisk + 162 ≤ 0x7C00 + 510

namespace BootImage

def dap (img : BootImage) : Nat := img.currentDisk + 1

def gdtStart (img : BootImage) : Nat := img.dap + 16

def gdtDescriptor (img : BootImage) : Nat := img.gdtStart + 32

def noEbiosStr (img : BootImage) : Nat := img.gdtDescriptor + 6

def diskErrorStr (img : BootImage) : Nat := img.noEbiosStr + 38

def a20ErrorStr (img : BootImage) : Nat := img.diskErrorStr + 31

/-- From `current_disk` to the last string that is used. -/
def data (img : BootImage) : List UInt8 :=
  [0x00] ++ dapBytes ++ gdt.flatMap SegmentDescriptor.bytes ++
    (bytes16 (32 - 1) ++ bytes32 (UInt32.ofNat img.gdtStart)) ++
    (noEbiosText ++ [0]) ++ (diskErrorText ++ [0]) ++ (a20ErrorText ++ [0])

end BootImage

/-! ## The BIOS -/

/-- The packet at `ds:si`. -/
structure DiskAddressPacket where
  size : UInt8
  count : UInt16
  offset : UInt16
  segment : UInt16
  lba : UInt64

def DiskAddressPacket.ofMemory (m : Nat → UInt8) (a : Nat) :
    DiskAddressPacket where
  size := m a
  count := load16 m (a + 2)
  offset := load16 m (a + 4)
  segment := load16 m (a + 6)
  lba := load64 m (a + 8)

/-- What the BIOS answers. -/
structure Bios where
  /-- `int 0x13` with `ah = 0x41`: the carry and `bx`. -/
  extensions : UInt8 → Bool × UInt16
  /-- `int 0x13` with `ah = 0x42`: the carry and what is stored in the buffer. -/
  extendedRead : UInt8 → DiskAddressPacket → Bool × List UInt8
  /-- `int 0x10` with `ax = 0x2401`: the carry. -/
  video : Bool

/-! ## Real mode -/

/-- The machine at the first instruction. The 32-bit registers and `cr3` are
what `setup_paging` finds there and writes over, and `espHigh` is the upper half
of `esp`. -/
structure BootEntry where
  dl : UInt8
  ds : UInt16
  espHigh : UInt16
  df : Bool
  a20 : Bool
  mem : Nat → UInt8
  regs : Pm
  cr0 : UInt32
  cr4 : UInt32
  efer : UInt64

/-- What the gate makes of an address: bit 20 is zero while it is closed. -/
def BootEntry.gate (e : BootEntry) (a : Nat) : Nat :=
  if e.a20 ∨ a / 2 ^ 20 % 2 = 0 then a else a - 2 ^ 20

/-- `ds:offset`. -/
def BootEntry.linear (e : BootEntry) (offset : Nat) : Nat :=
  e.gate (e.ds.toNat * 16 + offset)

/-- Where the calls of `init_pm` store what they return to, behind
`mov sp, 0x7c00`. -/
def BootEntry.callSlot (e : BootEntry) : Nat :=
  e.espHigh.toNat * 2 ^ 16 + 0x7c00 - 4

/-- `prints`, with fuel for the length of the string. -/
def prints (m : Nat → UInt8) : Nat → Nat → Option Str
  | 0, _ => none
  | fuel + 1, si =>
      if m si = 0 then some []
      else (prints m fuel (si + 1)).map (m si :: ·)

/-- The machine at the first instruction of `_kmain`. -/
structure KernelEntry where
  mem : Nat → UInt8
  cr0 : UInt32
  cr3 : UInt32
  cr4 : UInt32
  efer : UInt64
  gdtLimit : UInt16
  gdtBase : UInt32
  cs : UInt64
  /-- `ds`, `es`, `ss`, `fs` and `gs`. -/
  segments : UInt64
  rsp : UInt64

/-- How `_start` ends; `lost` is behind a `ret`. -/
inductive BootOutcome where
  | hang (shown : Str)
  | lost
  | kernel (s : KernelEntry)

/-- A push of eight bytes. -/
def push64 (m : Nat → UInt8) (rsp : UInt64) (v : UInt64) : Nat → UInt8 :=
  apply m (storesAt (rsp.toNat - 8)
    (bytes32 v.toUInt32 ++ bytes32 (v >>> 32).toUInt32))

namespace Pm

/-- `rep stosd` with the direction flag set. -/
def repStosdDown (s : Pm) : Pm :=
  if s.ecx = 0 then s else repStosdDown { s.stosd with edi := s.edi - 4 }
termination_by s.ecx.toNat
decreasing_by exact toNat_pred_lt (by assumption)

/-- `setup_paging` with the direction flag set. -/
def setupPagingDown (s : Pm) : Pm :=
  s.movEdi 0x1000
    |>.movCr3Edi
    |>.xorEax
    |>.movEcx 4096
    |>.repStosdDown
    |>.movDword 0x1000 0x2003
    |>.movDword 0x2000 0x3003
    |>.movDword 0x3000 0x4003
    |>.movEdi 0x4000
    |>.movEbx 0x00000003
    |>.movEcx 512
    |>.setEntries

end Pm

namespace BootEntry

/-- `call setup_paging`, up to its `ret`. -/
def callPaging (e : BootEntry) (img : BootImage) (m : Nat → UInt8) : Pm :=
  let s : Pm := { e.regs with
    mem := store32 m (e.gate e.callSlot) img.backPaging }
  if e.df then s.setupPagingDown else s.setupPaging

/-- From `init_pm` to `_kmain`. The `ret` of `enable_long_mode` finds its stack
through the page tables. Both `lgdt` read the same six bytes. -/
def initPm (e : BootEntry) (img : BootImage) (m : Nat → UInt8) :
    Option KernelEntry :=
  let s := e.callPaging img m
  if load32 s.mem (e.gate e.callSlot) ≠ img.backPaging then none
  else
    let m := store32 s.mem (e.gate e.callSlot) img.backLongMode
    match (PageWalk.ofCr3 m s.cr3.toUInt64 (.ofNat 48 e.callSlot)).physical with
    | none => none
    | some a =>
        if load32 m (e.gate a) ≠ img.backLongMode then none
        else
          let rsp : UInt64 := 0x90000 - 8
          some
            { mem := push64 m rsp img.back
              -- `enable_long_mode`, behind the `or eax, 0x01` of `_start`.
              cr4 := e.cr4 ||| (1 : UInt32) <<< 5
              efer := e.efer ||| (1 : UInt64) <<< 8
              cr0 := (e.cr0 ||| (0x01 : UInt32)) ||| (1 : UInt32) <<< 31
              cr3 := s.cr3
              gdtLimit := load16 m img.gdtDescriptor
              gdtBase := load32 m (img.gdtDescriptor + 2)
              cs := codeSeg64
              segments := dataSeg
              rsp := rsp - 8 }

/-- `_start`. -/
def start (e : BootEntry) (bios : Bios) (img : BootImage) (fuel : Nat) :
    Option BootOutcome :=
  let m := apply e.mem (storesAt (e.linear img.currentDisk) [e.dl])
  let drive := m img.currentDisk
  let (carry, bx) := bios.extensions drive
  if carry then (prints m fuel img.noEbiosStr).map .hang
  else if bx ≠ 0xaa55 then (prints m fuel img.noEbiosStr).map .hang
  else
    let packet := DiskAddressPacket.ofMemory m img.dap
    let (carry, bytes) := bios.extendedRead drive packet
    let buffer := packet.segment.toNat * 16 + packet.offset.toNat
    let m := apply m (storesAt buffer bytes)
    if carry then (prints m fuel img.diskErrorStr).map .hang
    else if bios.video then (prints m fuel img.a20ErrorStr).map .hang
    else some ((e.initPm img m).elim .lost .kernel)

end BootEntry

/-- The descriptor a selector stands for, in the table `lgdt` has loaded. -/
def KernelEntry.descriptor (s : KernelEntry) (selector : UInt64) :
    Option SegmentDescriptor :=
  let row := s.gdtBase.toNat + selector.toNat / 8 * 8
  if selector.toNat / 8 * 8 + 7 ≤ s.gdtLimit.toNat then
    some
      { limitLow := load16 s.mem row
        baseLow := load16 s.mem (row + 2)
        baseMid := s.mem (row + 4)
        access := s.mem (row + 5)
        flags := s.mem (row + 6)
        baseHigh := s.mem (row + 7) }
  else none

end TermOS.Arch
