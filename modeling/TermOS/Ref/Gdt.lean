import TermOS.Ref.Stubs

/-!
# The segment descriptors (`boot.asm`)

The table at `gdt_start`, which `lgdt` loads before the kernel starts and
which stays loaded, and the selectors of its rows. `descriptor` is how the
processor reads a selector: bits 3 to 15 count rows, and bit 2 asks for a local
table, of which there is none. A code segment runs in 64-bit mode if its
`flags` have bit 5 (`L`) and not bit 6 (`D`).
-/

namespace TermOS.Arch

/-- Eight bytes of the table. -/
structure SegmentDescriptor where
  limitLow : UInt16
  baseLow : UInt16
  baseMid : UInt8
  access : UInt8
  /-- The flags, over the four high bits of the limit. -/
  flags : UInt8
  baseHigh : UInt8
  deriving DecidableEq, Repr

def gdtCode : SegmentDescriptor where
  limitLow := 0xffff
  baseLow := 0x0000
  baseMid := 0x00
  access := 0b10011010
  flags := 0b11001111
  baseHigh := 0x00

def gdtData : SegmentDescriptor where
  limitLow := 0xffff
  baseLow := 0x0000
  baseMid := 0x00
  access := 0b10010010
  flags := 0b11001111
  baseHigh := 0x00

def gdt64Code : SegmentDescriptor where
  limitLow := 0x0000
  baseLow := 0x0000
  baseMid := 0x00
  access := 0b10011010
  flags := 0b00100000
  baseHigh := 0x00

/-- The rows from `gdt_start` to `gdt_end`. -/
def gdt : List SegmentDescriptor :=
  [⟨0, 0, 0, 0, 0, 0⟩, gdtCode, gdtData, gdt64Code]

/-- `CODE_SEG`, `gdt_code - gdt_start`. -/
def codeSeg : UInt64 := 1 * 8

/-- `DATA_SEG`, `gdt_data - gdt_start`. -/
def dataSeg : UInt64 := 2 * 8

/-- `CODE_SEG_64`, `gdt64_code - gdt_start`. -/
def codeSeg64 : UInt64 := 3 * 8

def descriptor (selector : UInt64) : Option SegmentDescriptor :=
  if selector &&& 4 = 0 then gdt[selector.toNat % 65536 / 8]? else none

/-- A present code segment, neither a system segment nor one of data. -/
def SegmentDescriptor.isCode (d : SegmentDescriptor) : Bool :=
  d.access &&& 0b10011000 = 0b10011000

def SegmentDescriptor.isCode64 (d : SegmentDescriptor) : Bool :=
  d.isCode && d.flags &&& 0b01100000 = 0b00100000

/-- `cs` selects a 64-bit code segment. -/
def LongMode (cs : UInt64) : Prop :=
  ∃ d, descriptor cs = some d ∧ d.isCode64 = true

end TermOS.Arch
