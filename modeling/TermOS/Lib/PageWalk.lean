import TermOS.Lib.ByteMemory

/-!
# The page walk of an x86-64

Four levels of tables of 512 entries, with 9 bits of a linear address of 48 for
each and 12 bits for the place in a page. Level 3 is that of the PML4 and level
0 that of the page tables. Bit 7 of an entry ends the walk early, at level 1
with a page of 2 MiB and at level 2 with one of 1 GiB; at level 3 it is
reserved. The other reserved bits, and those that ask for a privilege or forbid
execution, are not looked at.
-/

namespace TermOS.Lib

open ByteMemory

namespace PageEntry

def present (e : UInt64) : Bool := e.toNat.testBit 0

def writable (e : UInt64) : Bool := e.toNat.testBit 1

def large (e : UInt64) : Bool := e.toNat.testBit 7

/-- Bits 12 to 51, where the next table or the page lies. -/
def base (e : UInt64) : Nat := e.toNat % 2 ^ 52 / 2 ^ 12 * 2 ^ 12

end PageEntry

/-- The entries a walk has read, and the physical address, `none` if an entry
on the way does not lead on. -/
structure PageWalk where
  entries : List UInt64
  physical : Option Nat

namespace PageWalk

open PageEntry

/-- The bits of an address for a level, and those below them. -/
def index (v : BitVec 48) (level : Nat) : Nat :=
  v.toNat / 2 ^ (12 + 9 * level) % 512

def offset (v : BitVec 48) (level : Nat) : Nat := v.toNat % 2 ^ (12 + 9 * level)

def entryAt (m : Nat → UInt8) (v : BitVec 48) (level table : Nat) : UInt64 :=
  load64 m (table + 8 * index v level)

/-- A large page begins at a multiple of its size. -/
def largePage (e : UInt64) (v : BitVec 48) (level : Nat) : Option Nat :=
  if level = 3 then none
  else some (base e / 2 ^ (12 + 9 * level) * 2 ^ (12 + 9 * level) +
    offset v level)

def walk (m : Nat → UInt8) (v : BitVec 48) : Nat → Nat → PageWalk
  | 0, table =>
      let e := entryAt m v 0 table
      if present e then ⟨[e], some (base e + offset v 0)⟩ else ⟨[e], none⟩
  | level + 1, table =>
      let e := entryAt m v (level + 1) table
      if !present e then ⟨[e], none⟩
      else if large e then ⟨[e], largePage e v (level + 1)⟩
      else
        let rest := walk m v level (base e)
        ⟨e :: rest.entries, rest.physical⟩

/-- The walk from `CR3`. -/
def ofCr3 (m : Nat → UInt8) (cr3 : UInt64) (v : BitVec 48) : PageWalk :=
  walk m v 3 (base cr3)

/-- The address is mapped by four entries with the present and the writable
bit. -/
def MapsTo (w : PageWalk) (p : Nat) : Prop :=
  w.physical = some p ∧ w.entries.length = 4 ∧
    ∀ e ∈ w.entries, present e ∧ writable e

/-- The walk has ended at an entry that is not present. -/
def Missing (w : PageWalk) : Prop :=
  w.physical = none ∧ ∃ e ∈ w.entries, present e = false

variable {m : Nat → UInt8} {v : BitVec 48} {level table : Nat} {e : UInt64}

/-! ## One level -/

theorem walk_page (he : entryAt m v 0 table = e) (hp : present e) :
    walk m v 0 table = ⟨[e], some (base e + offset v 0)⟩ := by
  rw [walk, he]
  exact if_pos hp

theorem walk_next (he : entryAt m v (level + 1) table = e) (hp : present e)
    (hl : large e = false) : walk m v (level + 1) table =
      ⟨e :: (walk m v level (base e)).entries,
        (walk m v level (base e)).physical⟩ := by
  simp only [walk, he, hp, hl, Bool.not_true, Bool.false_eq_true, if_false]

theorem walk_absent (he : entryAt m v (level + 1) table = e)
    (hp : present e = false) : walk m v (level + 1) table = ⟨[e], none⟩ := by
  simp only [walk, he, hp, Bool.not_false, if_true]

/-- A walk that goes on misses if the rest of it does. -/
theorem missing_next (he : entryAt m v (level + 1) table = e)
    (hp : present e) (hl : large e = false)
    (h : (walk m v level (base e)).Missing) :
    (walk m v (level + 1) table).Missing := by
  obtain ⟨hphysical, e', hmem, habsent⟩ := h
  rw [walk_next he hp hl]
  exact ⟨hphysical, e', List.mem_cons_of_mem e hmem, habsent⟩

theorem missing_absent (he : entryAt m v (level + 1) table = e)
    (hp : present e = false) : (walk m v (level + 1) table).Missing := by
  rw [walk_absent he hp]
  exact ⟨rfl, e, List.mem_singleton.2 rfl, hp⟩

end PageWalk

end TermOS.Lib
