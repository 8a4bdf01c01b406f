import Mathlib.Data.Finset.Card
import Mathlib.Data.Finset.Range
import Mathlib.Data.UInt
import TermOS.Lib.PackedBits
import TermOS.Lib.Trace

/-!
# The physical memory manager (`pmm.cpp`)

The three globals of `namespace Memory`: the byte bitmap that lives at the
fixed address `0x100000`, the number of pages it speaks of, and the counter
of free bytes kept beside it. A set bit is a page in use. Addresses are the
64-bit values the code casts to and from `void*`, with `0` for `nullptr`.
-/

namespace TermOS.Memory

open TermOS.Lib

/-- `PAGE_SIZE`: one page is 4096 bytes. -/
def pageSize : UInt64 := 4096

/-- The allocator's globals. `bitmap` reads the bytes from `0x100000` on.
`max_pages` is only ever written by `pmm_init`, as a quotient by the page
size, and `fits` is what that leaves true of it. -/
structure Pmm where
  bitmap : Nat → UInt8
  maxPages : UInt64
  freeMemory : UInt64
  fits : maxPages.toNat < 2 ^ 52

namespace Pmm

def setBit (s : Pmm) (page : UInt64) : Pmm :=
  { s with bitmap :=
      modifyByte s.bitmap page.toNat (· ||| bitMask (page.toNat % 8)) }

def clearBit (s : Pmm) (page : UInt64) : Pmm :=
  { s with bitmap :=
      modifyByte s.bitmap page.toNat (· &&& ~~~bitMask (page.toNat % 8)) }

def getBit (s : Pmm) (page : UInt64) : Bool := packedMem s.bitmap page.toNat

/-- The loop of `pmm_init`: the first `n` bytes become `0xFF`. -/
def fillOnes (m : Nat → UInt8) : Nat → Nat → UInt8
  | 0 => m
  | n + 1 => Function.update (fillOnes m n) n 0xFF

end Pmm

theorem div_pageSize_fits (total : UInt64) :
    (total / pageSize).toNat < 2 ^ 52 := by
  have hlt := total.toNat_lt
  rw [UInt64.toNat_div, show pageSize.toNat = 4096 from rfl]
  omega

/-- `pmm_init`, over whatever the bitmap's memory held before. -/
def pmmInit (mem : Nat → UInt8) (totalMemory : UInt64) : Pmm where
  bitmap := Pmm.fillOnes mem ((totalMemory / pageSize).toNat / 8)
  maxPages := totalMemory / pageSize
  freeMemory := totalMemory
  fits := div_pageSize_fits totalMemory

namespace Pmm

/-- One round of the loop of `pmm_lock_pages`. -/
def lockPage (s : Pmm) (page : UInt64) : Pmm :=
  if !s.getBit page then
    { s.setBit page with freeMemory := s.freeMemory - pageSize }
  else s

/-- The loop of `pmm_lock_pages`, with `n` rounds to go at index `i`. -/
def lockLoop (startPage : UInt64) : Nat → UInt64 → Pmm → Pmm
  | 0, _, s => s
  | n + 1, i, s => lockLoop startPage n (i + 1) (s.lockPage (startPage + i))

def pmmLockPages (s : Pmm) (addr count : UInt64) : Pmm :=
  lockLoop (addr / pageSize) count.toNat 0 s

/-- The loop of `alloc_page`, with `n` pages to go at page `i`. -/
def allocLoop (s : Pmm) : Nat → UInt64 → Pmm × UInt64
  | 0, _ => (s, 0)
  | n + 1, i =>
      if !s.getBit i then
        ({ s.setBit i with freeMemory := s.freeMemory - pageSize },
          i * pageSize)
      else allocLoop s n (i + 1)

def allocPage (s : Pmm) : Pmm × UInt64 := s.allocLoop s.maxPages.toNat 0

def freePage (s : Pmm) (addr : UInt64) : Pmm :=
  let page := addr / pageSize
  if s.getBit page then
    { s.clearBit page with freeMemory := s.freeMemory + pageSize }
  else s

def getFreeMemory (s : Pmm) : UInt64 := s.freeMemory

end Pmm

/-- A call to the allocator, with what `alloc_page` answered. -/
inductive Call where
  | allocPage (ret : UInt64)
  | freePage (addr : UInt64)
  | pmmLockPages (addr count : UInt64)
  deriving DecidableEq, Repr

/-- The page an address lies in. -/
def pageOf (addr : UInt64) : Nat := addr.toNat / 4096

/-- One call, by a caller that frees and locks only pages below
`max_pages`. -/
def Pmm.Step (s : Pmm) : Call → Pmm → Prop
  | .allocPage ret, s' => s.allocPage = (s', ret)
  | .freePage addr, s' =>
      pageOf addr < s.maxPages.toNat ∧ s' = s.freePage addr
  | .pmmLockPages addr count, s' =>
      (∀ i < count.toNat, pageOf addr + i < s.maxPages.toNat) ∧
        s' = s.pmmLockPages addr count

/-- The pages below `max_pages` whose bit is clear. -/
def Pmm.freePages (s : Pmm) : Finset Nat :=
  (Finset.range s.maxPages.toNat).filter fun p => packedMem s.bitmap p = false

/-! ## What one update does to the bitmap -/

namespace Pmm

variable {s : Pmm}

theorem mem_freePages {p : Nat} :
    p ∈ s.freePages ↔ p < s.maxPages.toNat ∧ packedMem s.bitmap p = false := by
  simp [freePages]

theorem setBit_mem (page : UInt64) (q : Nat) :
    packedMem (s.setBit page).bitmap q =
      (decide (q = page.toNat) || packedMem s.bitmap q) :=
  packedMem_insert s.bitmap page.toNat q

theorem clearBit_mem (page : UInt64) (q : Nat) :
    packedMem (s.clearBit page).bitmap q =
      (decide (q ≠ page.toNat) && packedMem s.bitmap q) :=
  packedMem_erase s.bitmap page.toNat q

theorem fillOnes_apply (m : Nat → UInt8) (n i : Nat) :
    fillOnes m n i = if i < n then 0xFF else m i := by
  induction n with
  | zero => simp [fillOnes]
  | succ n ih =>
      rw [fillOnes]
      by_cases hi : i = n
      · rw [hi, Function.update_self, if_pos (Nat.lt_succ_self n)]
      · rw [Function.update_of_ne hi, ih]
        by_cases hlt : i < n
        · rw [if_pos hlt, if_pos (by omega)]
        · rw [if_neg hlt, if_neg (by omega)]

end Pmm

end TermOS.Memory
