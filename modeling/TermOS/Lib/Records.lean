import Mathlib.Data.UInt
import Mathlib.Logic.Basic

/-!
# Records in a block of bytes

A block of `n * m` cells read as an array of `n` records of `m` cells each.
Writing one record and reading it back gives what was written, and reading any
other gives what was there: two facts, for every block and record size.
Integers of two and four bytes are stored with the low byte first.
-/

namespace TermOS.Lib

/-! ## Little-endian integers -/

def le16 (a b : UInt8) : UInt16 := UInt16.ofNat (a.toNat + 256 * b.toNat)

def byte16 (x : UInt16) (i : Nat) : UInt8 := UInt8.ofNat (x.toNat / 256 ^ i)

def le32 (a b c d : UInt8) : UInt32 :=
  UInt32.ofNat
    (a.toNat + 256 * (b.toNat + 256 * (c.toNat + 256 * d.toNat)))

def byte32 (x : UInt32) (i : Nat) : UInt8 := UInt8.ofNat (x.toNat / 256 ^ i)

@[simp]
theorem le16_byte16 (x : UInt16) : le16 (byte16 x 0) (byte16 x 1) = x := by
  have hx := x.toNat_lt
  apply UInt16.toNat_inj.1
  simp only [le16, byte16, UInt8.toNat_ofNat', UInt16.toNat_ofNat']
  omega

theorem byte16_le16 (a b : UInt8) :
    byte16 (le16 a b) 0 = a ∧ byte16 (le16 a b) 1 = b := by
  have ha := a.toNat_lt
  have hb := b.toNat_lt
  have hword : (le16 a b).toNat = a.toNat + 256 * b.toNat := by
    rw [le16, UInt16.toNat_ofNat']
    omega
  refine ⟨UInt8.toNat_inj.1 ?_, UInt8.toNat_inj.1 ?_⟩ <;>
    rw [byte16, UInt8.toNat_ofNat', hword]
  · rw [Nat.pow_zero, Nat.div_one]
    omega
  · rw [Nat.pow_one]
    omega

@[simp]
theorem le32_byte32 (x : UInt32) :
    le32 (byte32 x 0) (byte32 x 1) (byte32 x 2) (byte32 x 3) = x := by
  have hx := x.toNat_lt
  apply UInt32.toNat_inj.1
  simp only [le32, byte32, UInt8.toNat_ofNat', UInt32.toNat_ofNat']
  omega

/-! ## Arrays of records -/

section Records

variable {β : Type*} {n m N : Nat}

theorem record_lt (hN : n * m = N) {i k : Nat} (hi : i < n) (hk : k < m) :
    i * m + k < N := by
  have h : (i + 1) * m ≤ n * m := Nat.mul_le_mul_right m hi
  rw [Nat.succ_mul] at h
  omega

/-- The `i`-th record of a block. -/
def record (hN : n * m = N) (b : Vector β N) (i : Fin n) : Vector β m :=
  Vector.ofFn fun k =>
    have hlt := record_lt hN i.isLt k.isLt
    b[i.val * m + k.val]

/-- A block with its `i`-th record replaced. -/
def setRecord (_ : n * m = N) (b : Vector β N) (i : Fin n)
    (r : Vector β m) : Vector β N :=
  Vector.ofFn fun k =>
    if h : k.val / m = i.val ∧ k.val % m < m then
      have hlt := h.2
      r[k.val % m]
    else b[k]

theorem record_setRecord_self (hN : n * m = N) (b : Vector β N) (i : Fin n)
    (r : Vector β m) : record hN (setRecord hN b i r) i = r := by
  ext k hk
  have hmod : (i.val * m + k) % m = k := by
    rw [Nat.mul_comm, Nat.mul_add_mod, Nat.mod_eq_of_lt hk]
  have hdiv : (i.val * m + k) / m = i.val := by
    rw [Nat.mul_comm, Nat.mul_add_div (by omega), Nat.div_eq_of_lt hk,
      Nat.add_zero]
  simp only [record, setRecord, Vector.getElem_ofFn, hmod, hdiv, hk, and_self,
    dite_true]

theorem record_setRecord_of_ne (hN : n * m = N) (b : Vector β N) {i j : Fin n}
    (hne : j ≠ i) (r : Vector β m) :
    record hN (setRecord hN b i r) j = record hN b j := by
  ext k hk
  have hdiv : (j.val * m + k) / m = j.val := by
    rw [Nat.mul_comm, Nat.mul_add_div (by omega), Nat.div_eq_of_lt hk,
      Nat.add_zero]
  have hne' : ¬ j.val = i.val := fun h => hne (Fin.ext h)
  simp only [record, setRecord, Vector.getElem_ofFn, hdiv, hne', false_and,
    dite_false]
  rfl

end Records

end TermOS.Lib
