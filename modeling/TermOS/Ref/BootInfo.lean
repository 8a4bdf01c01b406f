import TermOS.Lib.ByteMemory

/-!
# What the boot sector hands over (`sysshared/src/lib.rs`, `boot/src/main.rs`)

The two packed structs, read off a memory, and the loop of `_kboot` over the
memory map. An index outside the array is a panic, `none`. Of what the loop
prints the values and the choice of a text are kept.
-/

namespace TermOS.Boot

open TermOS.Lib.ByteMemory

structure MemoryMapEntry where
  baseAddress : UInt64
  length : UInt64
  entryType : UInt32
  acpiExtended : UInt32
  deriving DecidableEq, Repr

/-- `MemoryMapEntry`, 24 bytes. -/
def MemoryMapEntry.ofMemory (m : Nat → UInt8) (a : Nat) : MemoryMapEntry where
  baseAddress := load64 m a
  length := load64 m (a + 8)
  entryType := load32 m (a + 16)
  acpiExtended := load32 m (a + 20)

def MemoryMapEntry.ofBytes (bytes : Vector UInt8 24) : MemoryMapEntry :=
  .ofMemory (fun k => bytes.toList.getD k 0) 0

structure BootInfo where
  framebufferAddr : UInt32
  screenWidth : UInt16
  screenHeight : UInt16
  bpp : UInt8
  pitch : UInt16
  bootDrive : UInt8
  memoryMapCount : UInt16
  memoryMap : Vector MemoryMapEntry 32

/-- `BootInfo`, 782 bytes, with the offsets of the comments in the struct. -/
def BootInfo.ofMemory (m : Nat → UInt8) (a : Nat) : BootInfo where
  framebufferAddr := load32 m a
  screenWidth := load16 m (a + 4)
  screenHeight := load16 m (a + 6)
  bpp := m (a + 8)
  pitch := load16 m (a + 9)
  bootDrive := m (a + 11)
  memoryMapCount := load16 m (a + 12)
  memoryMap := Vector.ofFn fun i => .ofMemory m (a + 14 + 24 * i.val)

def BootInfo.size : Nat := 14 + 24 * 32

/-! ## `_kboot` -/

def typeStr (memType : UInt32) : String :=
  match memType with
  | 1 => "Available RAM"
  | 2 => "Reserved BIOS"
  | 3 => "ACPI Reclaim "
  | 4 => "ACPI NVS     "
  | _ => "Unknown      "

/-- What a round of the loop prints. -/
structure Region where
  index : Nat
  base : UInt64
  length : UInt64
  typeStr : String
  memType : UInt32

def BootInfo.region (info : BootInfo) (i : Nat) : Option Region :=
  match info.memoryMap[i]? with
  | none => none
  | some entry =>
      some ⟨i, entry.baseAddress, entry.length, typeStr entry.entryType,
        entry.entryType⟩

/-- `for i in 0..boot_info.memory_map_count`. -/
def BootInfo.regions (info : BootInfo) : Option (List Region) :=
  (List.range info.memoryMapCount.toNat).mapM info.region

end TermOS.Boot
