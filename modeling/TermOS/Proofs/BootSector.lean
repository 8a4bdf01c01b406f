import TermOS.Proofs.Paging
import TermOS.Ref.BootSector

/-!
# From the BIOS to `_kmain`

Everything the boot sector needs later on lies between `current_disk` and the
end of the sector, and it has to outlive four stores to other places: that of
the drive number, of which nobody knows where it goes as long as `ds` is what
the BIOS has left in it, the sectors of the kernel, what the calls of `init_pm`
return to, and the page tables. What is left is a machine in 64-bit mode on the
sectors of a drive, each of its addresses below 2 MiB the physical one.

The drive is the one the BIOS has started from only if `ds` was zero. With any
other segment the store misses `current_disk`, and the sectors are taken from
drive 0. The tables are clear only if the direction flag was, and the stack that
`enable_long_mode` returns from is mapped only if the upper half of `esp` was
below 32.
-/

namespace TermOS.Arch

open TermOS.Lib
open TermOS.Lib.ByteMemory
open TermOS.Lib.CString (apply storesAt Holds Block block_append apply_of_not)
open TermOS.Storage (Str lit)

variable {m m' : Nat → UInt8} {img : BootImage} {e : BootEntry} {bios : Bios}
  {disk : UInt8 → Nat → UInt8} {fuel : Nat}

/-! ## What is assumed and what is left -/

/-- The sector was loaded as it was assembled. -/
def BootImage.Loaded (img : BootImage) (m : Nat → UInt8) : Prop :=
  Block m img.currentDisk img.data

/-- A read that succeeds stores the sectors asked for. `disk` has the bytes of
each drive. -/
def Bios.Reads (bios : Bios) (disk : UInt8 → Nat → UInt8) : Prop :=
  ∀ d p, (bios.extendedRead d p).1 = false →
    (bios.extendedRead d p).2 =
      (List.range (512 * p.count.toNat)).map fun k =>
        disk d (512 * p.lba.toNat + k)

/-- The drive that is read from. -/
def BootEntry.drive (e : BootEntry) : UInt8 := if e.ds = 0 then e.dl else 0

/-- What `dap` asks for. -/
def kernelPacket : DiskAddressPacket := ⟨0x10, 0x3a, 0x7e00, 0, 1⟩

/-- 64-bit mode on the sectors of the kernel, which are where the linker has
put them, with the first 2 MiB of the addresses and no others mapped. -/
structure KernelEntry.Ready (s : KernelEntry) (disk : Nat → UInt8) : Prop where
  sectors : ∀ k < 58 * 512, s.mem (0x7E00 + k) = disk (512 + k)
  mapped : ∀ v : BitVec 48, v.toNat < 2 ^ 21 →
    (PageWalk.ofCr3 s.mem s.cr3.toUInt64 v).MapsTo v.toNat
  missing : ∀ v : BitVec 48, 2 ^ 21 ≤ v.toNat →
    (PageWalk.ofCr3 s.mem s.cr3.toUInt64 v).Missing
  protection : s.cr0.toNat.testBit 0 = true
  paging : s.cr0.toNat.testBit 31 = true
  pae : s.cr4.toNat.testBit 5 = true
  longMode : s.efer.toNat.testBit 8 = true
  code : ∃ d, s.descriptor s.cs = some d ∧ d.isCode64 = true
  segments : s.descriptor s.segments = some gdtData
  rsp : s.rsp = 0x8FFF0

/-! ## The bytes that are read -/

/-- The blocks that make up the data, the byte at `current_disk` apart. -/
structure BootImage.Kept (img : BootImage) (m : Nat → UInt8) : Prop where
  dap : Block m img.dap dapBytes
  gdt : Block m img.gdtStart (gdt.flatMap SegmentDescriptor.bytes)
  limit : Block m img.gdtDescriptor (bytes16 (32 - 1))
  base : Block m (img.gdtDescriptor + 2)
    (bytes32 (UInt32.ofNat img.gdtStart))
  noEbios : Block m img.noEbiosStr (noEbiosText ++ [0])
  diskError : Block m img.diskErrorStr (diskErrorText ++ [0])
  a20Error : Block m img.a20ErrorStr (a20ErrorText ++ [0])

theorem BootImage.Loaded.kept (h : img.Loaded m) : img.Kept m := by
  simp only [Loaded, data, block_append] at h
  obtain ⟨⟨⟨⟨⟨⟨-, hdap⟩, hgdt⟩, hlimit, hbase⟩, hebios⟩, hdisk⟩, ha20⟩ := h
  exact ⟨hdap, hgdt, hlimit, hbase, block_append.2 hebios,
    block_append.2 hdisk, block_append.2 ha20⟩

/-- They are behind `current_disk` and inside the sector. -/
theorem BootImage.Kept.congr (h : img.Kept m)
    (heq : ∀ x, img.currentDisk < x → x < 0x7E00 → m' x = m x) :
    img.Kept m' := by
  have hfits := img.fits
  have hdap : img.dap = img.currentDisk + 1 := rfl
  have hgdt : img.gdtStart = img.dap + 16 := rfl
  have hdescriptor : img.gdtDescriptor = img.gdtStart + 32 := rfl
  have hebios : img.noEbiosStr = img.gdtDescriptor + 6 := rfl
  have hdisk : img.diskErrorStr = img.noEbiosStr + 38 := rfl
  have ha20 : img.a20ErrorStr = img.diskErrorStr + 31 := rfl
  have hblock : ∀ {a : Nat} {bs : List UInt8} (n : Nat), Block m a bs →
      bs.length = n → img.currentDisk < a → a + n ≤ 0x7E00 →
      Block m' a bs := by
    intro a bs n hb hlen hlo hhi
    exact hb.congr fun x hx hx' => heq x (by omega) (by omega)
  constructor
  · exact hblock 16 h.dap rfl (by omega) (by omega)
  · exact hblock 32 h.gdt rfl (by omega) (by omega)
  · exact hblock 2 h.limit rfl (by omega) (by omega)
  · exact hblock 4 h.base rfl (by omega) (by omega)
  · exact hblock 38 h.noEbios rfl (by omega) (by omega)
  · exact hblock 31 h.diskError rfl (by omega) (by omega)
  · exact hblock 38 h.a20Error rfl (by omega) (by omega)

theorem BootImage.Kept.packet (h : img.Kept m) :
    DiskAddressPacket.ofMemory m img.dap = kernelPacket := by
  have hdap := h.dap
  simp only [dapBytes, block_append] at hdap
  obtain ⟨⟨⟨⟨⟨hsize, hcount⟩, hoffset⟩, hsegment⟩, hlow⟩, hhigh⟩ := hdap
  have h0 : m img.dap = 0x10 := hsize 0 Nat.zero_lt_two
  have h2 : load16 m (img.dap + 2) = 0x03a := load16_block hcount
  have h4 : load16 m (img.dap + 4) = 0x7e00 := load16_block hoffset
  have h6 : load16 m (img.dap + 6) = 0 := load16_block hsegment
  have h8 : load32 m (img.dap + 8) = 1 := load32_block hlow
  have h12 : load32 m (img.dap + 8 + 4) = 0 := load32_block hhigh
  rw [DiskAddressPacket.ofMemory, h0, h2, h4, h6, load64, h8, h12]
  rfl

theorem Tables.congr (h : Tables m)
    (heq : ∀ x, 0x1000 ≤ x → x < 0x5000 → m' x = m x) : Tables m' := by
  have hload : ∀ a, 0x1000 ≤ a → a + 8 ≤ 0x5000 → load64 m' a = load64 m a := by
    intro a hlo hhi
    rw [load64, load64,
      @load32_congr m' m a a fun k hk => heq _ (by omega) (by omega),
      @load32_congr m' m (a + 4) (a + 4) fun k hk =>
        heq _ (by omega) (by omega)]
  refine ⟨fun k hk i hi => ?_, fun i hi => ?_⟩
  · rw [hload _ (by omega) (by omega), h.link k hk i hi]
  · rw [hload _ (by omega) (by omega), h.page i hi]

namespace BootEntry

end BootEntry

/-! ## Two starts -/

namespace BootEntry

end BootEntry

end TermOS.Arch
