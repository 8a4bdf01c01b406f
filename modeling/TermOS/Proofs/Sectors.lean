import TermOS.Ref.Fat32

/-!
# Storing through a cast pointer

What `setDirEntry` and `setFatWord` store is what `dirEntry` and `fatWord`
read, and the other slots of the sector keep what they held. The cluster of an
entry, which the struct keeps in two halves, is what was split into them.
-/

namespace TermOS.Storage

open TermOS.Lib

theorem DirEntry.ofBytes_toBytes (e : DirEntry) : .ofBytes e.toBytes = e := by
  obtain ⟨name, _, _, _, _, _, _, _, _, _, _, _⟩ := e
  simp only [ofBytes, toBytes, byteAt, Vector.getElem_ofFn, mk.injEq]
  refine ⟨?_, ?_⟩
  · ext k hk
    simp
  · simp

@[simp]
theorem dirEntry_setDirEntry_self (s : Sector) (i : Fin 16) (e : DirEntry) :
    dirEntry (setDirEntry s i e) i = e := by
  rw [dirEntry, setDirEntry, record_setRecord_self, DirEntry.ofBytes_toBytes]

theorem dirEntry_setDirEntry_of_ne (s : Sector) {i j : Fin 16} (h : j ≠ i)
    (e : DirEntry) : dirEntry (setDirEntry s i e) j = dirEntry s j := by
  rw [dirEntry, setDirEntry, record_setRecord_of_ne _ _ h, dirEntry]

/-- The sixteen entries of a sector with one of them replaced. -/
theorem dirEntry_setDirEntry (s : Sector) (i : Fin 16) (e : DirEntry) :
    dirEntry (setDirEntry s i e) = Function.update (dirEntry s) i e := by
  funext j
  by_cases hj : j = i
  · rw [hj, dirEntry_setDirEntry_self, Function.update_self]
  · rw [dirEntry_setDirEntry_of_ne s hj, Function.update_of_ne hj]

@[simp]
theorem fatWord_setFatWord_self (s : Sector) (j : Fin 128) (v : UInt32) :
    fatWord (setFatWord s j v) j = v := by
  rw [fatWord, setFatWord, record_setRecord_self]
  simp

theorem fatWord_setFatWord_of_ne (s : Sector) {i j : Fin 128} (h : j ≠ i)
    (v : UInt32) : fatWord (setFatWord s i v) j = fatWord s j := by
  rw [fatWord, setFatWord, record_setRecord_of_ne _ _ h, fatWord]

/-! ## A word stored among entries -/

theorem getElem_setFatWord (s : Sector) (j : Fin 128) (v : UInt32) {k : Nat}
    (hk : k < 512) : (setFatWord s j v)[k] =
      if k / 4 = j.val then byte32 v (k % 4) else s[k] := by
  have hmod : k % 4 < 4 := Nat.mod_lt k (Nat.succ_pos 3)
  simp [setFatWord, setRecord, hmod]

/-- An entry that does not have the word in it. -/
theorem dirEntry_setFatWord_of_ne (s : Sector) {i : Fin 16} {j : Fin 128}
    (h : j.val / 8 ≠ i.val) (v : UInt32) :
    dirEntry (setFatWord s j v) i = dirEntry s i := by
  have hrecord : record entries_size (setFatWord s j v) i =
      record entries_size s i := by
    ext k hk
    have hne : (i.val * 32 + k) / 4 ≠ j.val := by omega
    simp only [record, Vector.getElem_ofFn, getElem_setFatWord, if_neg hne]
  rw [dirEntry, dirEntry, hrecord]

theorem firstByte_setFatWord (s : Sector) (i : Fin 16) (j : Fin 128)
    (v : UInt32) : firstByte (dirEntry (setFatWord s j v) i).name =
      if i.val * 8 = j.val then byte32 v 0
      else firstByte (dirEntry s i).name := by
  have hi := i.isLt
  have hiff : i.val * 32 / 4 = j.val ↔ i.val * 8 = j.val := by omega
  have hmod : i.val * 32 % 4 = 0 := by omega
  simp only [firstByte, dirEntry, DirEntry.ofBytes, record,
    Vector.getElem_ofFn, getElem_setFatWord, Nat.add_zero, hiff, hmod]

theorem DirEntry.toNat_cluster (e : DirEntry) :
    e.cluster.toNat = e.clusterHigh.toNat * 2 ^ 16 + e.clusterLow.toNat := by
  have hhigh := e.clusterHigh.toNat_lt
  have hlow := e.clusterLow.toNat_lt
  have hshift : (e.clusterHigh.toUInt32 <<< 16).toNat =
      e.clusterHigh.toNat <<< 16 := by
    rw [UInt32.toNat_shiftLeft, UInt16.toNat_toUInt32]
    simp only [UInt32.reduceToNat, Nat.reduceMod, Nat.shiftLeft_eq]
    omega
  rw [cluster, UInt32.toNat_or, hshift, UInt16.toNat_toUInt32,
    ← Nat.shiftLeft_add_eq_or_of_lt hlow, Nat.shiftLeft_eq]

@[simp]
theorem DirEntry.cluster_withCluster (e : DirEntry) (c : UInt32) :
    (e.withCluster c).cluster = c := by
  have hc := c.toNat_lt
  have hmask : ∀ n : Nat, n &&& 65535 = n % 2 ^ 16 := fun n =>
    Nat.and_two_pow_sub_one_eq_mod n 16
  apply UInt32.toNat_inj.1
  simp only [toNat_cluster, withCluster, UInt32.toNat_toUInt16, UInt32.toNat_and,
    UInt32.toNat_shiftRight, UInt32.reduceToNat, Nat.reduceMod, hmask,
    Nat.shiftRight_eq_div_pow]
  omega

/-- A cluster in two zero halves is zero. -/
theorem DirEntry.cluster_eq_zero {e : DirEntry} (hhigh : e.clusterHigh = 0)
    (hlow : e.clusterLow = 0) : e.cluster = 0 := by
  rw [cluster, hhigh, hlow]
  rfl

theorem fatWord_zeroSector (j : Fin 128) : fatWord zeroSector j = 0 := by
  simp [fatWord, zeroSector, record, le32]

theorem firstSlot_some {p : Fin 16 → Bool} {i : Fin 16}
    (h : firstSlot p = some i) : p i = true := List.find?_some h

theorem firstSlot_none {p : Fin 16 → Bool} (h : firstSlot p = none)
    (i : Fin 16) : ¬ p i = true :=
  List.find?_eq_none.1 h i (List.mem_finRange i)

/-- The slots in front of the first one do not have the property. -/
theorem firstSlot_before {p : Fin 16 → Bool} {i j : Fin 16}
    (h : firstSlot p = some i) (hlt : j < i) : ¬ p j = true := by
  obtain ⟨-, k, hk, hget, hbefore⟩ := List.find?_eq_some_iff_getElem.1 h
  rw [List.getElem_finRange] at hget
  have hki : k = i.val := congrArg Fin.val hget
  have hj := hbefore j.val (by omega)
  rw [List.getElem_finRange] at hj
  simpa using hj

theorem firstSlot_zero {p : Fin 16 → Bool} (h : p 0 = true) :
    firstSlot p = some 0 := by
  rw [firstSlot, List.finRange_succ, List.find?_cons_of_pos h]

theorem firstSlot_unique {p : Fin 16 → Bool} {i : Fin 16} (h : p i = true)
    (hu : ∀ j, p j = true → j = i) : firstSlot p = some i := by
  cases hfind : firstSlot p with
  | none => exact absurd h (firstSlot_none hfind i)
  | some j => rw [hu j (firstSlot_some hfind)]

end TermOS.Storage
