import Mathlib.Logic.Function.Basic

/-!
# Sets of numbers packed eight to a byte

A byte store `Nat → UInt8` holds one bit for each number: number `p` is bit
`p % 8` of byte `p / 8`. Setting a bit ORs a one-bit mask into its byte and
clearing it ANDs the complement, so the whole question is whether the seven
neighbours in that byte survive. It is answered once, on one byte, and then
carried to the store.
-/

namespace TermOS.Lib

/-- The one-bit mask of position `k`. -/
def bitMask (k : Nat) : UInt8 := 1 <<< UInt8.ofNat k

/-- A masked byte is tested for being non-zero, as C tests it. -/
def hasBit (b : UInt8) (k : Nat) : Bool := b &&& bitMask k != 0

theorem bitMask_toBitVec {k : Nat} (hk : k < 8) :
    (bitMask k).toBitVec = BitVec.twoPow 8 k := by
  match k, hk with
  | 0, _ | 1, _ | 2, _ | 3, _ | 4, _ | 5, _ | 6, _ | 7, _ => decide

theorem twoPow_ne_zero {k : Nat} (hk : k < 8) : BitVec.twoPow 8 k ≠ 0#8 := by
  intro h
  have hbit := congrArg (fun v => v.getLsbD k) h
  simp [hk] at hbit

/-- The C test reads one bit of the byte. -/
theorem hasBit_eq_getLsbD {b : UInt8} {k : Nat} (hk : k < 8) :
    hasBit b k = b.toBitVec.getLsbD k := by
  have hz : hasBit b k = (b.toBitVec &&& BitVec.twoPow 8 k != 0#8) := by
    rw [← bitMask_toBitVec hk, ← UInt8.toBitVec_and, hasBit,
      Bool.eq_iff_iff, bne_iff_ne, bne_iff_ne, ne_eq, ne_eq,
      ← UInt8.toBitVec_inj]
    rfl
  rw [hz, BitVec.and_twoPow]
  cases b.toBitVec.getLsbD k with
  | false => simp
  | true => simpa using twoPow_ne_zero hk

theorem hasBit_or_bitMask {b : UInt8} {j k : Nat} (hj : j < 8) (hk : k < 8) :
    hasBit (b ||| bitMask k) j = (decide (j = k) || hasBit b j) := by
  rw [hasBit_eq_getLsbD hj, hasBit_eq_getLsbD hj, UInt8.toBitVec_or,
    BitVec.getLsbD_or, bitMask_toBitVec hk, BitVec.getLsbD_twoPow, Bool.or_comm]
  simp [hk, eq_comm]

theorem hasBit_and_not_bitMask {b : UInt8} {j k : Nat} (hj : j < 8)
    (hk : k < 8) :
    hasBit (b &&& ~~~bitMask k) j = (decide (j ≠ k) && hasBit b j) := by
  rw [hasBit_eq_getLsbD hj, hasBit_eq_getLsbD hj, UInt8.toBitVec_and,
    BitVec.getLsbD_and, UInt8.toBitVec_not, BitVec.getLsbD_not,
    bitMask_toBitVec hk, BitVec.getLsbD_twoPow, Bool.and_comm]
  simp [hj, hk, eq_comm]

/-- Number `p` is in the packed set. -/
def packedMem (m : Nat → UInt8) (p : Nat) : Bool := hasBit (m (p / 8)) (p % 8)

/-- The store with the byte of `p` rewritten by `f`. -/
def modifyByte (m : Nat → UInt8) (p : Nat) (f : UInt8 → UInt8) : Nat → UInt8 :=
  Function.update m (p / 8) (f (m (p / 8)))

theorem packedMem_insert (m : Nat → UInt8) (p q : Nat) :
    packedMem (modifyByte m p (· ||| bitMask (p % 8))) q =
      (decide (q = p) || packedMem m q) := by
  have hp : p % 8 < 8 := Nat.mod_lt _ (by decide)
  have hq : q % 8 < 8 := Nat.mod_lt _ (by decide)
  rw [packedMem, packedMem, modifyByte]
  by_cases hbyte : q / 8 = p / 8
  · rw [hbyte, Function.update_self, hasBit_or_bitMask hq hp]
    have hiff : q % 8 = p % 8 ↔ q = p := by omega
    simp [hiff]
  · rw [Function.update_of_ne hbyte]
    have hne : q ≠ p := fun h => hbyte (by rw [h])
    simp [hne]

theorem packedMem_erase (m : Nat → UInt8) (p q : Nat) :
    packedMem (modifyByte m p (· &&& ~~~bitMask (p % 8))) q =
      (decide (q ≠ p) && packedMem m q) := by
  have hp : p % 8 < 8 := Nat.mod_lt _ (by decide)
  have hq : q % 8 < 8 := Nat.mod_lt _ (by decide)
  rw [packedMem, packedMem, modifyByte]
  by_cases hbyte : q / 8 = p / 8
  · rw [hbyte, Function.update_self, hasBit_and_not_bitMask hq hp]
    have hiff : q % 8 = p % 8 ↔ q = p := by omega
    simp [hiff]
  · rw [Function.update_of_ne hbyte]
    have hne : q ≠ p := fun h => hbyte (by rw [h])
    simp [hne]

/-- A byte of ones holds all its eight numbers. -/
theorem packedMem_of_ones {m : Nat → UInt8} {p : Nat} (h : m (p / 8) = 0xFF) :
    packedMem m p = true := by
  have hp : p % 8 < 8 := Nat.mod_lt _ (by decide)
  rw [packedMem, h, hasBit_eq_getLsbD hp]
  generalize p % 8 = k at hp
  match k, hp with
  | 0, _ | 1, _ | 2, _ | 3, _ | 4, _ | 5, _ | 6, _ | 7, _ => decide

/-- The store is determined by its numbers. -/
theorem packedMem_ext {m m' : Nat → UInt8}
    (h : ∀ p, packedMem m p = packedMem m' p) : m = m' := by
  funext i
  apply UInt8.toBitVec_inj.1
  apply BitVec.eq_of_getLsbD_eq
  intro k hk
  have hbit := h (8 * i + k)
  have hbyte : (8 * i + k) / 8 = i := by omega
  have hpos : (8 * i + k) % 8 = k := by omega
  rwa [packedMem, packedMem, hbyte, hpos, hasBit_eq_getLsbD hk,
    hasBit_eq_getLsbD hk] at hbit

end TermOS.Lib
