import Mathlib.Data.UInt
import Mathlib.Logic.Function.Basic

/-!
# A stack of words in memory

A machine stack grows down in a memory of 64-bit words, each eight bytes from
the next, and addresses wrap. `Holds mem sp ws` says that the words `ws` lie
from `sp` upwards, the top of the stack first. With it a push is `::` on a
list and a pop its tail, and addresses do not appear again.
-/

namespace TermOS.Lib

variable {mem mem' : UInt64 → UInt64} {sp a v : UInt64} {ws vs : List UInt64}

def Holds (mem : UInt64 → UInt64) : UInt64 → List UInt64 → Prop
  | _, [] => True
  | sp, w :: ws => mem sp = w ∧ Holds mem (sp + 8) ws

/-- The address of the `i`-th word above `sp`. -/
def wordAt (sp : UInt64) (i : Nat) : UInt64 := sp + UInt64.ofNat (8 * i)

@[simp]
theorem wordAt_zero (sp : UInt64) : wordAt sp 0 = sp := by simp [wordAt]

theorem wordAt_succ (sp : UInt64) (i : Nat) :
    wordAt (sp + 8) i = wordAt sp (i + 1) := by
  have h : UInt64.ofNat (8 * (i + 1)) = 8 + UInt64.ofNat (8 * i) := by
    rw [Nat.mul_succ, Nat.add_comm, UInt64.ofNat_add]
    rfl
  rw [wordAt, wordAt, h, UInt64.add_assoc]

theorem wordAt_add (sp : UInt64) (i j : Nat) :
    wordAt (wordAt sp i) j = wordAt sp (i + j) := by
  rw [wordAt, wordAt, wordAt, Nat.mul_add, UInt64.ofNat_add, UInt64.add_assoc]

/-- Words fewer than 2^61 apart have different addresses. -/
theorem wordAt_ne (sp : UInt64) {i : Nat} (hpos : 0 < i) (hlt : 8 * i < 2 ^ 64) :
    wordAt sp i ≠ sp := by
  intro h
  have hzero : UInt64.ofNat (8 * i) = 0 := by
    rw [wordAt] at h
    exact left_eq_add.1 h.symm
  have hnat : (8 * i) % 2 ^ 64 = 0 := by
    rw [← UInt64.toNat_ofNat', hzero]
    rfl
  rw [Nat.mod_eq_of_lt hlt] at hnat
  omega

theorem wordAt_ne_of_lt (sp : UInt64) {i j : Nat} (hij : i < j)
    (hlt : 8 * j < 2 ^ 64) : wordAt sp j ≠ wordAt sp i := by
  have hne := wordAt_ne (wordAt sp i) (by omega : 0 < j - i) (by omega)
  rwa [wordAt_add, Nat.add_sub_of_le (Nat.le_of_lt hij)] at hne

namespace Holds

theorem iff_getElem : Holds mem sp ws ↔
    ∀ (i : Nat) (h : i < ws.length), mem (wordAt sp i) = ws[i] := by
  induction ws generalizing sp with
  | nil => exact ⟨fun _ i h => absurd h (Nat.not_lt_zero i), fun _ => trivial⟩
  | cons w ws ih =>
      rw [Holds, ih]
      refine ⟨?_, ?_⟩
      · rintro ⟨hw, hws⟩ i hi
        cases i with
        | zero => simpa using hw
        | succ i =>
            rw [← wordAt_succ]
            exact hws i (Nat.lt_of_succ_lt_succ hi)
      · intro h
        refine ⟨by simpa using h 0 (Nat.succ_pos _), fun i hi => ?_⟩
        rw [wordAt_succ]
        exact h (i + 1) (Nat.succ_lt_succ hi)

theorem append_iff : Holds mem sp (ws ++ vs) ↔
    Holds mem sp ws ∧ Holds mem (wordAt sp ws.length) vs := by
  induction ws generalizing sp with
  | nil => simp [Holds]
  | cons w ws ih =>
      rw [List.cons_append, Holds, Holds, ih, wordAt_succ, List.length_cons,
        and_assoc]

/-- The words are a matter of the memory where they lie. -/
theorem congr (h : Holds mem sp ws)
    (heq : ∀ i < ws.length, mem' (wordAt sp i) = mem (wordAt sp i)) :
    Holds mem' sp ws :=
  iff_getElem.2 fun i hi => (heq i hi).trans (iff_getElem.1 h i hi)

/-- A store outside the words. -/
theorem update (h : Holds mem sp ws)
    (hne : ∀ i < ws.length, wordAt sp i ≠ a) :
    Holds (Function.update mem a v) sp ws :=
  h.congr fun i hi => Function.update_of_ne (hne i hi) v mem

/-- A store into one of the words. -/
theorem set (h : Holds mem sp ws) (hlen : 8 * ws.length < 2 ^ 64) {k : Nat}
    (hk : k < ws.length) (v : UInt64) :
    Holds (Function.update mem (wordAt sp k) v) sp (ws.set k v) := by
  refine iff_getElem.2 fun i hi => ?_
  rw [List.length_set] at hi
  rw [List.getElem_set]
  split
  · next heq => rw [heq, Function.update_self]
  · next hne =>
      rw [Function.update_of_ne, iff_getElem.1 h i hi]
      intro heq
      rcases Nat.lt_or_gt_of_ne hne with hlt | hgt
      · exact wordAt_ne_of_lt sp hlt (by omega) heq
      · exact wordAt_ne_of_lt sp hgt (by omega) heq.symm

/-- A push, unless the stack fills the whole address space. -/
theorem push (h : Holds mem sp ws) (hlen : 8 * ws.length + 8 < 2 ^ 64)
    (v : UInt64) :
    Holds (Function.update mem (sp - 8) v) (sp - 8) (v :: ws) := by
  have hsp : sp - 8 + 8 = sp := UInt64.sub_add_cancel sp 8
  refine ⟨Function.update_self _ _ _, ?_⟩
  rw [hsp]
  refine h.update fun i hi => ?_
  have hne := wordAt_ne (sp - 8) (Nat.succ_pos i) (by omega : 8 * (i + 1) < 2 ^ 64)
  rwa [← wordAt_succ, hsp] at hne

end Holds

end TermOS.Lib
