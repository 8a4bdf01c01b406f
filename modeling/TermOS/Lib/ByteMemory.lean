import TermOS.Lib.CString
import TermOS.Lib.Records

/-!
# Integers in a memory of bytes

Words of two, four and eight bytes in a memory that is its bytes by address, the
low byte first. A load behind a store gives the word that was stored, and a load
elsewhere what was there.
-/

namespace TermOS.Lib.ByteMemory

open CString (apply storesAt apply_at apply_of_not)

def bytes16 (v : UInt16) : List UInt8 := [byte16 v 0, byte16 v 1]

def bytes32 (v : UInt32) : List UInt8 :=
  [byte32 v 0, byte32 v 1, byte32 v 2, byte32 v 3]

def store32 (m : Nat → UInt8) (a : Nat) (v : UInt32) : Nat → UInt8 :=
  apply m (storesAt a (bytes32 v))

def load16 (m : Nat → UInt8) (a : Nat) : UInt16 := le16 (m a) (m (a + 1))

def load32 (m : Nat → UInt8) (a : Nat) : UInt32 :=
  le32 (m a) (m (a + 1)) (m (a + 2)) (m (a + 3))

def load64 (m : Nat → UInt8) (a : Nat) : UInt64 :=
  UInt64.ofNat ((load32 m a).toNat + 2 ^ 32 * (load32 m (a + 4)).toNat)

variable {m m' : Nat → UInt8} {a b x : Nat} {v : UInt32}

/-- A load is a matter of the bytes it reads. -/
theorem load32_congr (h : ∀ k < 4, m (a + k) = m' (b + k)) :
    load32 m a = load32 m' b := by
  have h0 := h 0 (by omega)
  have h1 := h 1 (by omega)
  have h2 := h 2 (by omega)
  have h3 := h 3 (by omega)
  rw [Nat.add_zero, Nat.add_zero] at h0
  rw [load32, load32, h0, h1, h2, h3]

theorem store32_of_not (m : Nat → UInt8) (v : UInt32)
    (h : x < a ∨ a + 4 ≤ x) : store32 m a v x = m x :=
  apply_of_not m h

theorem load32_store32 (m : Nat → UInt8) (a : Nat) (v : UInt32) :
    load32 (store32 m a v) a = v := by
  have hbyte : ∀ k < 4, store32 m a v (a + k) = (bytes32 v).getD k 0 :=
    fun k hk => apply_at m a hk
  have h0 := hbyte 0 (by omega)
  rw [Nat.add_zero] at h0
  rw [load32, h0, hbyte 1 (by omega), hbyte 2 (by omega), hbyte 3 (by omega)]
  exact le32_byte32 v

theorem load32_store32_of_disjoint (m : Nat → UInt8) (v : UInt32)
    (h : b + 4 ≤ a ∨ a + 4 ≤ b) : load32 (store32 m a v) b = load32 m b :=
  load32_congr fun _ _ => store32_of_not m v (by omega)

theorem toNat_load64 (m : Nat → UInt8) (a : Nat) : (load64 m a).toNat =
    (load32 m a).toNat + 2 ^ 32 * (load32 m (a + 4)).toNat := by
  have hlow := (load32 m a).toNat_lt
  have hhigh := (load32 m (a + 4)).toNat_lt
  rw [load64, UInt64.toNat_ofNat', Nat.mod_eq_of_lt (by omega)]

theorem load32_of_zero (h : ∀ k < 4, m (a + k) = 0) : load32 m a = 0 := by
  have hzero : load32 m a = load32 (fun _ => 0) 0 := load32_congr h
  rw [hzero]
  rfl

/-! ## Words in a block -/

theorem load16_block {v : UInt16} (h : CString.Block m a (bytes16 v)) :
    load16 m a = v := by
  have h0 := h 0 Nat.zero_lt_two
  rw [Nat.add_zero] at h0
  rw [load16, h0, h 1 Nat.one_lt_two]
  exact le16_byte16 v

theorem load32_block (h : CString.Block m a (bytes32 v)) : load32 m a = v := by
  have hbyte : ∀ k < 4, m (a + k) = store32 m a v (a + k) := fun k hk =>
    (h k hk).trans (apply_at m a hk).symm
  rw [load32_congr hbyte, load32_store32]

end TermOS.Lib.ByteMemory
