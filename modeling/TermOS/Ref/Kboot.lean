import Mathlib.Data.Nat.Digits.Defs
import TermOS.Ref.Framebuffer

/-!
# The second stage of the loader (`boot/src/main.rs`, `sysshared/src/lib.rs`)

`_kboot` clears the screen, prints what it has been handed over and then asks
for the cursor for ever. `kprintln!` goes through `fmt::Write`, which takes the
text in pieces and draws no cursor; the one call of `write_str` is that of the
console and draws one. All texts are ASCII. An index beyond the memory map is a
panic, whose handler is an empty loop.
-/

namespace TermOS.Boot

/-- A literal. -/
def ascii (s : String) : List UInt8 :=
  s.toList.map fun ch => UInt8.ofNat ch.toNat

/-- A digit of `{}` or `{:X}`. -/
def radixDigit (d : Nat) : UInt8 :=
  if d < 10 then UInt8.ofNat (0x30 + d) else UInt8.ofNat (0x41 + (d - 10))

def radix (base n : Nat) : List UInt8 :=
  if n = 0 then [0x30]
  else (Nat.digits base n).reverse.map radixDigit

/-- `{}` of an integer without sign. -/
def display (n : Nat) : List UInt8 := radix 10 n

/-- `{:X}`. -/
def upperHex (n : Nat) : List UInt8 := radix 16 n

def kprintln (text : List UInt8) : List WriteCall :=
  [.fmtStr text, .char 0x0A]

/-- The lines of the header. -/
def headerLines (info : BootInfo) : List (List UInt8) :=
  [ascii "TERMOS Secondary Bootloader Successfully Started!",
    ascii "-------------------------------------------------",
    ascii "Boot Drive ID : 0x" ++ upperHex info.bootDrive.toNat,
    ascii "Screen Size   : " ++ display info.screenWidth.toNat ++ ascii "x" ++
      display info.screenHeight.toNat ++ ascii " @ " ++
      display info.bpp.toNat ++ ascii "bpp",
    ascii "Framebuffer   : 0x" ++ upperHex info.framebufferAddr.toNat,
    ascii "Memory Map Cnt: " ++ display info.memoryMapCount.toNat,
    []]

/-- The lines of a round of the loop. -/
def Region.lines (r : Region) : List (List UInt8) :=
  [ascii "  Reg [" ++ display r.index ++ ascii "]: Base: 0x" ++
      upperHex r.base.toNat ++ ascii " | Length: 0x" ++
      upperHex r.length.toNat ++ ascii " | Type: " ++ ascii r.typeStr ++
      ascii " (0x" ++ upperHex r.memType.toNat ++ ascii ")",
    ascii "----------------------------------",
    []]

/-- The rounds of the loop over the given indices, and whether it comes to its
end. -/
def regionCalls (info : BootInfo) : List Nat → List WriteCall × Bool
  | [] => ([], true)
  | i :: is =>
      match info.region i with
      | none => ([], false)
      | some r =>
          let rest := regionCalls info is
          (r.lines.flatMap kprintln ++ rest.1, rest.2)

def kbootCalls (info : BootInfo) : List WriteCall × Bool :=
  let regions := regionCalls info (List.range info.memoryMapCount.toNat)
  ((headerLines info).flatMap kprintln ++
    .str (ascii "kernel_shell \n") :: regions.1, regions.2)

/-- `_kboot`, up to so many rounds of the loop at its end. -/
def kboot (info : BootInfo) (fontData : Vector UInt8 4096) (rounds : Nat) :
    TickingConsole × List Event :=
  let console := FramebufferConsole.new info fontData
  let calls := kbootCalls info
  let written := console.performAll calls.1
  let ticking : TickingConsole := ⟨written.1, 0⟩
  let events := console.clear ++ written.2
  if calls.2 then
    ((ticking.idle rounds).1, events ++ (ticking.idle rounds).2)
  else (ticking, events)

end TermOS.Boot
