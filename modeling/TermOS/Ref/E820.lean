import TermOS.Ref.BootInfo

/-!
# The first sector of the Rust loader (`boot/primary.asm`)

The memory map is collected before anything else. All segments are zero, so
`es:di` is `di`. What the BIOS answers to a call is in the registers and the
flag that the code looks at, and in 24 bytes at `es:di` if the call succeeds;
the registers that hold the state of the loop are left alone by it. The n-th
call has the n-th answer, whatever `ebx` it was made with, and the loop runs on
fuel.

Behind the loop come the mode information of the VBE and the sectors of the
loader. A mode that cannot be had leaves the fields of the screen as they were,
and without the sectors there is no hand-off. The store of the drive number
into `dap` is left out; it goes into the boot sector itself.
-/

namespace TermOS.Boot

open TermOS.Lib.ByteMemory
open TermOS.Lib.CString (storesAt apply)

/-- `BOOT_INFO`. -/
def bootInfo : Nat := 0x0500

/-- `SMAP`. -/
def smap : UInt32 := 0x534D4150

structure E820Response where
  carry : Bool
  eax : UInt32
  ebx : UInt32
  entry : Vector UInt8 24

/-- The call succeeded: no carry and the signature. -/
def E820Response.Success (r : E820Response) : Prop :=
  r.carry = false ∧ r.eax = smap

instance (r : E820Response) : Decidable r.Success :=
  inferInstanceAs (Decidable (_ ∧ _))

/-- The registers of the loop, and the stores so far. -/
structure Scan where
  di : UInt16
  bp : UInt16
  stores : List (Nat × UInt8)

/-- A round of `.e820_loop`, and whether it goes back. -/
def e820Round (r : E820Response) (s : Scan) : Scan × Bool :=
  if r.carry then (s, false)
  else if r.eax ≠ smap then (s, false)
  else
    -- The entry was stored before `di` moves on.
    let s : Scan :=
      { di := s.di + 24
        bp := s.bp + 1
        stores := s.stores ++ storesAt s.di.toNat r.entry.toList }
    if s.bp = 32 then (s, false)
    else if r.ebx = 0 then (s, false)
    else (s, true)

def e820Loop (bios : Nat → E820Response) : Nat → Nat → Scan → Option Scan
  | 0, _, _ => none
  | fuel + 1, n, s =>
      match e820Round (bios n) s with
      | (s, true) => e820Loop bios fuel (n + 1) s
      | (s, false) => some s

/-- From the start to `.e820_done`, with the store there. -/
def e820 (bios : Nat → E820Response) (dl : UInt8) (fuel : Nat) : Option Scan :=
  let start : Scan :=
    { di := UInt16.ofNat (bootInfo + 14)
      bp := 0
      stores := storesAt (bootInfo + 11) [dl] }
  match e820Loop bios fuel 0 start with
  | none => none
  | some s =>
      some { s with
        stores := s.stores ++ storesAt (bootInfo + 12) (bytes16 s.bp) }

/-! ## Behind the loop -/

/-- The answer to `0x4F01`. -/
structure ModeInfo where
  ax : UInt16
  block : Vector UInt8 256

def copy8 (m : Nat → UInt8) (dest src : Nat) : Nat → UInt8 :=
  apply m (storesAt dest [m src])

def copy16 (m : Nat → UInt8) (dest src : Nat) : Nat → UInt8 :=
  apply m (storesAt dest (bytes16 (load16 m src)))

def copy32 (m : Nat → UInt8) (dest src : Nat) : Nat → UInt8 :=
  apply m (storesAt dest (bytes32 (load32 m src)))

/-- The five loads and stores in front of `.no_graphics`. -/
def screenFields (m : Nat → UInt8) : Nat → UInt8 :=
  let m := copy32 m bootInfo (0x2000 + 40)
  let m := copy16 m (bootInfo + 4) (0x2000 + 18)
  let m := copy16 m (bootInfo + 6) (0x2000 + 20)
  let m := copy8 m (bootInfo + 8) (0x2000 + 25)
  copy16 m (bootInfo + 9) (0x2000 + 16)

/-- The memory that `_kboot` finds, from that of `.e820_done`. -/
def handOff (m : Nat → UInt8) (mode : ModeInfo) (sectors : List UInt8) :
    Nat → UInt8 :=
  let m := apply m (storesAt 0x2000 mode.block.toList)
  let m := if mode.ax = 0x004F then screenFields m else m
  apply m (storesAt 0x7E00 sectors)

end TermOS.Boot
