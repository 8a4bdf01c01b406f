import TermOS.Ref.Ata

/-!
# The disks on a bus (`ata.cpp`, `io.hpp`)

`DiskManager` once more, as a program that reads ports and not only writes
them. What a port does is up to the machine it is on, a `Bus` over some state.
Each loop that polls takes a unit of fuel for a round.

The last part is a machine: a controller with two drives on each channel, none,
a disk or something that takes packets. A command keeps a drive busy for so
many reads of its status, another number for each command. While a drive is
busy or has a transfer under way it drops commands, and while it is busy it
drops writes to its registers. A command that a disk does not know, or a sector
that it does not have, fails. On a channel without drives all bits float.
Transfers of more than one sector at once are left out, they fail.
-/

namespace TermOS.Ata

open TermOS.Lib
open TermOS.Storage (Sector)

/-- `outb`, `inb`, `outw` and `inw`. -/
structure Bus (σ : Type) where
  outb : σ → UInt16 → UInt8 → σ
  inb : σ → UInt16 → UInt8 × σ
  outw : σ → UInt16 → UInt16 → σ
  inw : σ → UInt16 → UInt16 × σ

namespace Bus

variable {σ : Type} (bus : Bus σ)

def write (s : σ) : PortWrite → σ
  | .outb port value => bus.outb s port value
  | .outw port value => bus.outw s port value

def writes (s : σ) (ws : List PortWrite) : σ := ws.foldl bus.write s

/-- `for (int i = 0; i < n; i++) data[i] = inw(port);` -/
def inws (port : UInt16) : Nat → σ → List UInt16 × σ
  | 0, s => ([], s)
  | n + 1, s =>
      let first := bus.inw s port
      let rest := inws port n first.2
      (first.1 :: rest.1, rest.2)

/-- `while (inb(port + 7) & 0x80);` -/
def waitBusy (port : UInt16) : Nat → σ → Option σ
  | 0, _ => none
  | fuel + 1, s =>
      let status := bus.inb s (port + 7)
      if status.1 &&& 0x80 ≠ 0 then waitBusy port fuel status.2
      else some status.2

/-- `while (!(inb(port + 7) & 0x40));` -/
def waitReady (port : UInt16) : Nat → σ → Option σ
  | 0, _ => none
  | fuel + 1, s =>
      let status := bus.inb s (port + 7)
      if status.1 &&& 0x40 = 0 then waitReady port fuel status.2
      else some status.2

def ataWaitReady (port : UInt16) (fuel : Nat) (s : σ) : Option σ :=
  (bus.waitBusy port fuel s).bind (bus.waitReady port fuel)

/-- The six writes in front of IDENTIFY. -/
def identify (port : UInt16) (type : DriveType) : List PortWrite :=
  [.outb (port + 6) (if type = .master then 0xA0 else 0xB0),
   .outb (port + 2) 0,
   .outb (port + 3) 0,
   .outb (port + 4) 0,
   .outb (port + 5) 0,
   .outb (port + 7) 0xEC]

/-- `*((uint32_t*)&data[60])`. -/
def sizeOf (data : List UInt16) : UInt64 :=
  ((data.getD 60 0).toUInt32 ||| (data.getD 61 0).toUInt32 <<< 16).toUInt64

def registerDriver (fuel : Nat) (m : DiskManager) (port : UInt16)
    (type : DriveType) (s : σ) : Option (DiskManager × σ) :=
  let s := bus.writes s (identify port type)
  let status := bus.inb s (port + 7)
  if status.1 = 0 then some (m, status.2)
  else
    (bus.waitBusy port fuel status.2).bind fun s =>
      let mid := bus.inb s (port + 4)
      if mid.1 ≠ 0 then some (m, mid.2)
      else
        let high := bus.inb mid.2 (port + 5)
        if high.1 ≠ 0 then some (m, high.2)
        else
          let data := bus.inws port 256 high.2
          some (⟨m.drives ++ [⟨port, type, true, sizeOf data.1⟩]⟩, data.2)

/-- `DiskManager::init`. -/
def init (fuel : Nat) (s : σ) : Option (DiskManager × σ) :=
  (bus.registerDriver fuel ⟨[]⟩ 0x1F0 .master s).bind fun r =>
    (bus.registerDriver fuel r.1 0x1F0 .slave r.2).bind fun r =>
      (bus.registerDriver fuel r.1 0x170 .master r.2).bind fun r =>
        bus.registerDriver fuel r.1 0x170 .slave r.2

/-- The value that is returned, and the buffer. -/
def readSector (fuel : Nat) (m : DiskManager) (driveIdx : UInt8) (lba : UInt32)
    (buffer : Sector) (s : σ) : Option ((Bool × Sector) × σ) :=
  match m.drives[driveIdx.toNat]? with
  | none => some ((false, buffer), s)
  | some d =>
      (bus.ataWaitReady d.basePort fuel
        (bus.writes s (d.command lba 0x20))).map fun s =>
          let data := bus.inws d.basePort 256 s
          ((true, ofWords fun i => data.1.getD i 0), data.2)

def writeSector (fuel : Nat) (m : DiskManager) (driveIdx : UInt8)
    (lba : UInt32) (buffer : Sector) (s : σ) : Option (Bool × σ) :=
  match m.drives[driveIdx.toNat]? with
  | none => some (false, s)
  | some d =>
      (bus.ataWaitReady d.basePort fuel
        (bus.writes s (d.command lba 0x30))).bind fun s =>
          (bus.ataWaitReady d.basePort fuel (bus.writes s
            ((words buffer).map (.outw d.basePort) ++
              [.outb (d.basePort + 7) 0xE7]))).map fun s => (true, s)

end Bus

/-! ## A controller -/

inductive Device where
  | disk (sectors : Nat → Sector) (identity : Nat → UInt16)
  | packet

/-- The sectors that a disk says it has. -/
def capacity (identity : Nat → UInt16) : Nat :=
  (identity 60).toNat + 65536 * (identity 61).toNat

/-- What of a transfer is still to come, or has come so far. -/
inductive Phase where
  | idle
  | receive (words : List UInt16)
  | send (lba : Nat) (words : List UInt16)

/-- The drives of a channel, `false` for the master, and what they share. -/
structure Channel where
  device : Bool → Option Device
  file : TaskFile
  failed : Bool
  busy : Nat
  phase : Phase

namespace Channel

def slave (c : Channel) : Bool := c.file.driveHead &&& 0x10 != 0

/-- The drive that the commands are for. -/
def selected (c : Channel) : Option Device := c.device c.slave

def isEmpty (c : Channel) : Bool :=
  (c.device false).isNone && (c.device true).isNone

/-- A master answers for a slave that is not there, and the other way round. -/
def status (c : Channel) : UInt8 :=
  if c.selected.isNone then 0
  else if 0 < c.busy then 0x80
  else
    match c.phase with
    | .idle => if c.failed then 0x51 else 0x50
    | _ => 0x58

def register (c : Channel) (floating : UInt8) (reg : Nat) : UInt8 :=
  if c.isEmpty then floating
  else
    match reg with
    | 1 => if c.failed then 0x04 else 0
    | 2 => c.file.sectorCount
    | 3 => c.file.lbaLow
    | 4 => c.file.lbaMid
    | 5 => c.file.lbaHigh
    | 6 => c.file.driveHead
    | 7 => c.status
    | _ => 0

def execute (c : Channel) (delay : Nat) (command : UInt8) : Channel :=
  match c.selected with
  | none => c
  | some .packet =>
      { c with
        file :=
          if command = 0xEC then { c.file with lbaMid := 0x14, lbaHigh := 0xEB }
          else c.file
        failed := true
        busy := delay }
  | some (.disk sectors identity) =>
      let request := c.file.request 0 command
      if command = 0xEC then
        { c with
          failed := false
          busy := delay
          phase := .receive ((List.range 256).map identity) }
      else if command = 0xE7 then { c with failed := false, busy := delay }
      else if (command = 0x20 ∨ command = 0x30) ∧ request.lbaMode ∧
          request.count = 1 ∧ request.lba < capacity identity then
        { c with
          failed := false
          busy := delay
          phase :=
            if command = 0x20 then .receive (words (sectors request.lba))
            else .send request.lba [] }
      else { c with failed := true, busy := delay }

/-- 256 words are stored as a sector of the selected disk. -/
def stored (c : Channel) (lba : Nat) (words : List UInt16) :
    Bool → Option Device :=
  match c.selected with
  | some (.disk sectors identity) =>
      Function.update c.device c.slave (some (.disk
        (Function.update sectors lba (ofWords fun i => words.getD i 0))
        identity))
  | _ => c.device

end Channel

structure Controller where
  channels : UInt16 → Channel
  floating : UInt8
  delay : Nat → Nat
  commands : Nat

namespace Controller

def set (s : Controller) (base : UInt16) (c : Channel) : Controller :=
  { s with channels := Function.update s.channels base c }

def outb (s : Controller) (port : UInt16) (value : UInt8) : Controller :=
  let base := port &&& 0xFFF8
  let c := s.channels base
  if port &&& 7 = 7 then
    if c.busy = 0 then
      match c.phase with
      | .idle =>
          { s.set base (c.execute (s.delay s.commands) value) with
            commands := s.commands + 1 }
      | _ => s
    else s
  else if c.busy = 0 then
    s.set base { c with file := c.file.put value (port &&& 7).toNat }
  else s

/-- Reading the status of a busy drive takes time. -/
def inb (s : Controller) (port : UInt16) : UInt8 × Controller :=
  let base := port &&& 0xFFF8
  let c := s.channels base
  (c.register s.floating (port &&& 7).toNat,
    if port &&& 7 = 7 ∧ c.selected.isSome then
      s.set base { c with busy := c.busy - 1 }
    else s)

def outw (s : Controller) (port : UInt16) (value : UInt16) : Controller :=
  let base := port &&& 0xFFF8
  let c := s.channels base
  if port &&& 7 = 0 ∧ c.busy = 0 then
    match c.phase with
    | .send lba words =>
        if words.length + 1 = 256 then
          { s.set base { c with
              device := c.stored lba (words ++ [value])
              busy := s.delay s.commands
              phase := .idle } with commands := s.commands + 1 }
        else s.set base { c with phase := .send lba (words ++ [value]) }
    | _ => s
  else s

def inw (s : Controller) (port : UInt16) : UInt16 × Controller :=
  let base := port &&& 0xFFF8
  let c := s.channels base
  if port &&& 7 = 0 ∧ c.busy = 0 then
    match c.phase with
    | .receive (value :: words) =>
        (value, s.set base { c with
          phase := if words = [] then .idle else .receive words })
    | _ => (0xFFFF, s)
  else (0xFFFF, s)

def bus : Bus Controller := ⟨outb, inb, outw, inw⟩

end Controller

end TermOS.Ata
