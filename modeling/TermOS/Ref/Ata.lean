import TermOS.Ref.Disk

/-!
# The disks, down to the ports (`ata.cpp`)

`DiskManager` as the values it writes to the ports of a controller. What the
ports answer is an argument, in the order in which it is read; where a loop
that polls comes to the end of the answers it has not returned, `none`. What
`register_driver` prints is left out, and so is the field `model`, which is
never written.

The last part is the other side: what the two channels of a controller take
such values for, by the rules of LBA28.
-/

namespace TermOS.Ata

open TermOS.Lib
open TermOS.Storage (Sector)

/-- `DriveType`. -/
inductive DriveType where
  | master
  | slave
  deriving DecidableEq, Repr

/-- `Drive`. -/
structure Drive where
  basePort : UInt16
  type : DriveType
  present : Bool
  sizeSectors : UInt64

/-- The entries of `drives` that are in use; `drive_count` is how many. -/
structure DiskManager where
  drives : List Drive

/-- `outb(port, value)` and `outw(port, value)`. -/
inductive PortWrite where
  | outb (port : UInt16) (value : UInt8)
  | outw (port : UInt16) (value : UInt16)
  deriving DecidableEq, Repr

/-- `while (inb(port + 7) & 0x80);`, and the answers that are left. -/
def pollBusy : List UInt8 → Option (List UInt8)
  | [] => none
  | s :: status => if s &&& 0x80 ≠ 0 then pollBusy status else some status

/-- `while (!(inb(port + 7) & 0x40));`. -/
def pollReady : List UInt8 → Option (List UInt8)
  | [] => none
  | s :: status => if s &&& 0x40 = 0 then pollReady status else some status

def ataWaitReady (status : List UInt8) : Option (List UInt8) :=
  (pollBusy status).bind pollReady

/-! ## Which drives there are -/

/-- What a drive answers to IDENTIFY: the first status, the ones while it is
busy, registers 4 and 5, and its data. -/
structure Identity where
  status : UInt8
  busy : List UInt8
  mid : UInt8
  high : UInt8
  data : Nat → UInt16

namespace DiskManager

def registerDriver (m : DiskManager) (port : UInt16) (type : DriveType)
    (answer : Identity) : Option DiskManager :=
  if answer.status = 0 then some m
  else
    match pollBusy answer.busy with
    | none => none
    | some _ =>
        if answer.mid ≠ 0 ∨ answer.high ≠ 0 then some m
        else
          let size := (answer.data 60).toUInt32 |||
            (answer.data 61).toUInt32 <<< 16
          some ⟨m.drives ++ [⟨port, type, true, size.toUInt64⟩]⟩

def init (answer₁ answer₂ answer₃ answer₄ : Identity) : Option DiskManager :=
  (registerDriver ⟨[]⟩ 0x1F0 .master answer₁).bind fun m =>
    (m.registerDriver 0x1F0 .slave answer₂).bind fun m =>
      (m.registerDriver 0x170 .master answer₃).bind fun m =>
        m.registerDriver 0x170 .slave answer₄

end DiskManager

/-! ## Sectors -/

/-- `0xE0 | ((d.type == ATA_SLAVE) << 4) | ((lba >> 24) & 0x0F)`. -/
def Drive.head (d : Drive) (lba : UInt32) : UInt32 :=
  (0xE0 : UInt32) ||| (if d.type = .slave then 1 else 0 : UInt32) <<< 4 |||
    ((lba >>> 24) &&& 0x0F)

/-- The six writes in front of a transfer of one sector. -/
def Drive.command (d : Drive) (lba : UInt32) (command : UInt8) :
    List PortWrite :=
  [.outb (d.basePort + 6) (d.head lba).toUInt8,
   .outb (d.basePort + 2) 1,
   .outb (d.basePort + 3) lba.toUInt8,
   .outb (d.basePort + 4) (lba >>> 8).toUInt8,
   .outb (d.basePort + 5) (lba >>> 16).toUInt8,
   .outb (d.basePort + 7) command]

/-- The buffer as 256 words, `((uint16_t*)buffer)[i]`. -/
def words (buffer : Sector) : List UInt16 :=
  (List.range 256).map fun i =>
    le16 (buffer.toList.getD (2 * i) 0) (buffer.toList.getD (2 * i + 1) 0)

/-- The buffer into which 256 words have been stored. -/
def ofWords (data : Nat → UInt16) : Sector :=
  Vector.ofFn fun k => byte16 (data (k.val / 2)) (k.val % 2)

/-- What a call has returned, the port writes it has made, and the buffer. -/
structure Outcome where
  ok : Bool
  writes : List PortWrite
  buffer : Sector

namespace DiskManager

def readSector (m : DiskManager) (driveIdx : UInt8) (lba : UInt32)
    (buffer : Sector) (status : List UInt8) (data : Nat → UInt16) :
    Option Outcome :=
  match m.drives[driveIdx.toNat]? with
  | none => some ⟨false, [], buffer⟩
  | some d =>
      (ataWaitReady status).map fun _ =>
        ⟨true, d.command lba 0x20, ofWords data⟩

def writeSector (m : DiskManager) (driveIdx : UInt8) (lba : UInt32)
    (buffer : Sector) (status : List UInt8) : Option Outcome :=
  match m.drives[driveIdx.toNat]? with
  | none => some ⟨false, [], buffer⟩
  | some d =>
      (ataWaitReady status).bind fun status =>
        (ataWaitReady status).map fun _ =>
          ⟨true,
            d.command lba 0x30 ++
              (words buffer).map (.outw d.basePort) ++
              [.outb (d.basePort + 7) 0xE7],
            buffer⟩

end DiskManager

/-! ## The controller -/

/-- The registers of a channel that make up a request. -/
structure TaskFile where
  sectorCount : UInt8
  lbaLow : UInt8
  lbaMid : UInt8
  lbaHigh : UInt8
  driveHead : UInt8

/-- What a channel is asked for: 28 bits of an LBA, a number of sectors, and
one of its two drives. -/
structure Request where
  channel : UInt16
  command : UInt8
  lbaMode : Bool
  slave : Bool
  count : Nat
  lba : Nat
  deriving DecidableEq, Repr

namespace TaskFile

def put (t : TaskFile) (value : UInt8) : Nat → TaskFile
  | 2 => { t with sectorCount := value }
  | 3 => { t with lbaLow := value }
  | 4 => { t with lbaMid := value }
  | 5 => { t with lbaHigh := value }
  | 6 => { t with driveHead := value }
  | _ => t

/-- A count of zero stands for 256, and the low half of the drive register
holds the highest four bits of the LBA. -/
def request (t : TaskFile) (channel : UInt16) (command : UInt8) : Request where
  channel := channel
  command := command
  lbaMode := t.driveHead &&& 0x40 != 0
  slave := t.driveHead &&& 0x10 != 0
  count := if t.sectorCount = 0 then 256 else t.sectorCount.toNat
  lba := t.lbaLow.toNat + 256 * (t.lbaMid.toNat + 256 * (t.lbaHigh.toNat +
    256 * (t.driveHead &&& 0x0F).toNat))

end TaskFile

/-- The requests to transfer sectors, READ SECTORS and WRITE SECTORS, in what
is written to the ports. A channel has eight registers from a multiple of
eight on. -/
def requests (files : UInt16 → TaskFile) : List PortWrite → List Request
  | [] => []
  | .outw _ _ :: writes => requests files writes
  | .outb port value :: writes =>
      let channel := port &&& 0xFFF8
      if port &&& 7 = 7 then
        if value = 0x20 ∨ value = 0x30 then
          (files channel).request channel value :: requests files writes
        else requests files writes
      else
        requests (Function.update files channel
          ((files channel).put value (port &&& 7).toNat)) writes

/-- Where a request goes to: a channel, one of its drives, a sector. -/
def Request.place (r : Request) : UInt16 × Bool × Nat :=
  (r.channel, r.slave, r.lba)

end TermOS.Ata
