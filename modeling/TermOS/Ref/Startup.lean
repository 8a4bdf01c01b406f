import TermOS.Ref.Shell

/-!
# From `_kmain` to the shell (`kernel.cpp`, `ata.cpp`)

What the kernel does before `Shell::run`, in order. `vfs_init` sets the
terminal up, `Interrupts::init` fills in the descriptor table, which is not
state here, and nothing else but the calls below happens before the first
prompt.
-/

namespace TermOS.Shell

open TermOS.Console (Ostream Terminal)
open TermOS.Memory (pmmInit)
open TermOS.Storage (Fs Sector DiskManager lit slash)
open TermOS.Tasking (Sched StackArray)

/-- `DriveType`. -/
inductive DriveType where
  | ataMaster
  | ataSlave
  deriving DecidableEq, Repr

/-- What the kernel is started on: where the linker put the stacks, what the
memory it does not clear holds, and what the hardware answers. -/
structure Hardware where
  taskStacks : StackArray
  stackMem : UInt64 → UInt64
  bitmapMem : Nat → UInt8
  behindHistory : Nat → UInt8
  term : Terminal
  /-- `IDENTIFY`: the number of sectors, or `none` if there is no ATA disk. -/
  identify : UInt16 → DriveType → Option UInt32
  sectors : UInt8 → UInt32 → Sector

/-- The statics before `_kmain`. -/
def Kernel.initial (hw : Hardware) : Kernel where
  sched := .initial hw.taskStacks hw.stackMem
  pmm := ⟨hw.bitmapMem, 0, 0, by decide⟩
  fs :=
    { diskMgr := ⟨0, hw.sectors⟩, fatStartSector := 0, dataStartSector := 0
      sectorsPerClusterGlobal := 0, currentDirCluster := 2
      currentPath := [slash], cerr := [] }
  coutFmt := .dec
  term := hw.term
  history :=
    ⟨fun a => if a < historySize * entrySize then 0 else hw.behindHistory a, 0⟩

namespace Kernel

/-- `DiskManager::register_driver`. -/
def registerDriver (k : Kernel) (hw : Hardware) (port : UInt16)
    (type : DriveType) : Kernel :=
  match hw.identify port type with
  | none => k
  | some size =>
      let k := k.say fun o =>
        let o := o.str (lit "Found Disk: ")
        let o := o.str
          (if type = .ataMaster then lit "Master" else lit "Slave")
        let o := ((o.str (lit " at ")).fmt .hex).int port.toUInt32.toInt32
        let o := ((o.str (lit " Size ")).fmt .dec).uint
          (size.toUInt64 * 512 / 1024 / 1024)
        (o.str (lit " MB")).endl
      let d := k.fs.diskMgr
      { k with fs :=
          { k.fs with diskMgr := { d with driveCount := d.driveCount + 1 } } }

/-- `DiskManager::init`. -/
def diskMgrInit (k : Kernel) (hw : Hardware) : Kernel :=
  let k := k.sayLine (lit "Scanning ATA buses...")
  let k := k.registerDriver hw 0x1F0 .ataMaster
  let k := k.registerDriver hw 0x1F0 .ataSlave
  let k := k.registerDriver hw 0x170 .ataMaster
  k.registerDriver hw 0x170 .ataSlave

/-- `_kmain`, up to the first round of `Shell::run`. -/
def kmain (hw : Hardware) : Kernel :=
  let k := initial hw
  let k := { k with term := k.term.init }
  let k := { k with pmm := pmmInit k.pmm.bitmap (128 * 1024 * 1024) }
  let k := { k with pmm := k.pmm.pmmLockPages 0 512 }
  let k := k.sayLine (lit "TermOS 64-bit Kernel Started!")
  let k := k.say fun o =>
    let o := (o.str (lit "PMM Initialized. Free memory: ")).fmt .dec
    ((o.uint (k.pmm.getFreeMemory / 1024 / 1024)).str (lit " MB")).endl
  let k := k.diskMgrInit hw
  let k := k.after (k.fs.init k.out 1)
  let k := k.sayLine (lit "TermOS Shell v0.1")
  k.say fun o =>
    ((((o.str (lit "Kernel base: ")).fmt .hex).ptr 0x7E00).fmt .dec).endl

end Kernel

end TermOS.Shell
