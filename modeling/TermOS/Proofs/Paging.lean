import Mathlib.Tactic.IntervalCases
import TermOS.Lib.PageWalk
import TermOS.Ref.Paging

/-!
# The first two megabytes are mapped to themselves

`setup_paging` fills 64-bit entries with 32-bit stores. The upper halves are
zero because the loop before has cleared all four tables, whatever was there:
its 4096 stores are of four bytes each. In three of the tables the first entry
alone is present, and the fourth maps its 512 pages in order. Which addresses a
walk maps is then a matter of the three upper indices.
-/

namespace TermOS.Arch

open TermOS.Lib
open TermOS.Lib.ByteMemory
open TermOS.Lib.PageEntry
open TermOS.Lib.PageWalk (walk entryAt index offset walk_page walk_next
  missing_next missing_absent)

/-! ## The two loops -/

theorem byte32_zero (k : Nat) : byte32 0 k = 0 := by
  rw [byte32, show (0 : UInt32).toNat = 0 from rfl, Nat.zero_div]
  rfl

theorem store32_zero (m : Nat → UInt8) (a x : Nat) :
    store32 m a 0 x = if a ≤ x ∧ x < a + 4 then 0 else m x := by
  split
  · next h =>
      obtain ⟨k, rfl⟩ := Nat.exists_eq_add_of_le h.1
      have hk : k < (bytes32 0).length := Nat.lt_of_add_lt_add_left h.2
      rw [store32, CString.apply_at m a hk, bytes32, byte32_zero, byte32_zero,
        byte32_zero, byte32_zero]
      have hlt : k < 4 := hk
      interval_cases k <;> rfl
  · next h => exact store32_of_not m 0 (by omega)

namespace Pm

variable {s : Pm} {n : Nat}

theorem toNat_add_of_lt {a b : UInt32} (h : a.toNat + b.toNat < 2 ^ 32) :
    (a + b).toNat = a.toNat + b.toNat := by
  rw [UInt32.toNat_add, Nat.mod_eq_of_lt h]

theorem ecx_ne_zero (hcount : s.ecx.toNat = n + 1) : s.ecx ≠ 0 := by
  intro h
  rw [h] at hcount
  cases hcount

/-- `rep stosd` of zero clears four bytes for each count and leaves the rest of
the memory. -/
theorem repStosd_zero (hcount : s.ecx.toNat = n) (hzero : s.eax = 0)
    (hfit : s.edi.toNat + 4 * n < 2 ^ 32) :
    s.repStosd.cr3 = s.cr3 ∧ ∀ x, s.repStosd.mem x =
      if s.edi.toNat ≤ x ∧ x < s.edi.toNat + 4 * n then 0 else s.mem x := by
  induction n generalizing s with
  | zero =>
      have hecx : s.ecx = 0 := UInt32.toNat_inj.1 hcount
      rw [repStosd, if_pos hecx]
      refine ⟨rfl, ?_⟩
      intro x
      rw [if_neg (by omega)]
  | succ n ih =>
      have hecx := ecx_ne_zero hcount
      have hedi : s.stosd.edi.toNat = s.edi.toNat + 4 :=
        toNat_add_of_lt (show s.edi.toNat + 4 < 2 ^ 32 by omega)
      have hcount' : s.stosd.ecx.toNat = n := by
        rw [stosd, toNat_pred hecx, hcount, Nat.add_sub_cancel]
      obtain ⟨hcr3, hmem⟩ := ih hcount' hzero (by omega)
      rw [repStosd, if_neg hecx]
      refine ⟨hcr3, ?_⟩
      intro x
      rw [hmem x, hedi]
      show (if _ then 0 else store32 s.mem s.edi.toNat s.eax x) = _
      rw [hzero, store32_zero]
      -- The first four bytes, or the others.
      split
      · next h => rw [if_pos (by omega)]
      · next h =>
          split
          · next h' => rw [if_pos (by omega)]
          · next h' => rw [if_neg (by omega)]

/-! One round of `.set_entry`. -/

theorem setEntry_ecx (hcount : s.ecx.toNat = n + 1) :
    s.setEntry.ecx.toNat = n := by
  show (s.ecx - 1).toNat = n
  rw [toNat_pred (ecx_ne_zero hcount), hcount, Nat.add_sub_cancel]

theorem setEntry_edi (h : s.edi.toNat + 8 < 2 ^ 32) :
    s.setEntry.edi.toNat = s.edi.toNat + 8 := toNat_add_of_lt h

theorem setEntry_ebx (h : s.ebx.toNat + 0x1000 < 2 ^ 32) :
    s.setEntry.ebx.toNat = s.ebx.toNat + 0x1000 := toNat_add_of_lt h

theorem load32_setEntry (s : Pm) : load32 s.setEntry.mem s.edi.toNat = s.ebx :=
  load32_store32 s.mem s.edi.toNat s.ebx

/-- The loop of `.set_entry` stores ascending words eight bytes apart and leaves
the bytes between them. -/
theorem setEntries_spec (hcount : s.ecx.toNat = n + 1)
    (hfit : s.edi.toNat + 8 * (n + 1) < 2 ^ 32)
    (hword : s.ebx.toNat + (n + 1) * 0x1000 < 2 ^ 32) :
    s.setEntries.cr3 = s.cr3 ∧
    (∀ i ≤ n, (load32 s.setEntries.mem (s.edi.toNat + 8 * i)).toNat =
      s.ebx.toNat + i * 0x1000) ∧
    ∀ x, (∀ i ≤ n, x < s.edi.toNat + 8 * i ∨ s.edi.toNat + 8 * i + 4 ≤ x) →
      s.setEntries.mem x = s.mem x := by
  induction n generalizing s with
  | zero =>
      have hlast : s.setEntry.ecx = 0 := UInt32.toNat_inj.1 (setEntry_ecx hcount)
      rw [setEntries, if_pos hlast]
      refine ⟨rfl, ?_, ?_⟩
      · intro i hi
        obtain rfl : i = 0 := Nat.le_zero.1 hi
        rw [Nat.mul_zero, Nat.add_zero, load32_setEntry]
        rfl
      · intro x hx
        exact store32_of_not s.mem s.ebx (hx 0 (Nat.le_refl 0))
  | succ n ih =>
      have hcount' := setEntry_ecx hcount
      have hmore := ecx_ne_zero hcount'
      have hedi := @setEntry_edi s (by omega)
      have hebx := @setEntry_ebx s (by omega)
      obtain ⟨hcr3, hwords, hframe⟩ := ih hcount' (by omega) (by omega)
      rw [setEntries, if_neg hmore]
      rw [hedi, hebx] at hwords
      rw [hedi] at hframe
      refine ⟨hcr3, ?_, ?_⟩
      · intro i hi
        cases i with
        | zero =>
            -- The first word lies in front of those of the rounds to come.
            have hfirst : load32 s.setEntry.setEntries.mem s.edi.toNat =
                load32 s.setEntry.mem s.edi.toNat :=
              load32_congr fun k hk => hframe _ fun i _ => by omega
            rw [Nat.mul_zero, Nat.add_zero, hfirst, load32_setEntry]
            rfl
        | succ i =>
            have hnext := hwords i (by omega)
            have haddr : s.edi.toNat + 8 * (i + 1) = s.edi.toNat + 8 + 8 * i := by
              omega
            rw [haddr, hnext]
            omega
      · intro x hx
        rw [hframe x]
        · exact store32_of_not s.mem s.ebx (hx 0 (Nat.zero_le _))
        · intro i hi
          have hnext := hx (i + 1) (by omega)
          omega

end Pm

/-! ## The tables -/

/-- The entries of the four tables: three with a first entry that leads to the
next table and no other, and one of 512 pages in order. -/
structure Tables (m : Nat → UInt8) : Prop where
  link : ∀ k < 3, ∀ i < 512, (load64 m ((k + 1) * 0x1000 + 8 * i)).toNat =
    if i = 0 then (k + 2) * 0x1000 + 3 else 0
  page : ∀ i < 512, (load64 m (0x4000 + 8 * i)).toNat = i * 0x1000 + 3

theorem toNat_load64_of_zero {m : Nat → UInt8} {a : Nat}
    (h : ∀ k < 8, m (a + k) = 0) : (load64 m a).toNat = 0 := by
  have hlow : load32 m a = 0 := load32_of_zero fun k hk => h k (by omega)
  have hhigh : load32 m (a + 4) = 0 := load32_of_zero fun k hk => by
    rw [Nat.add_assoc]
    exact h _ (by omega)
  rw [toNat_load64, hlow, hhigh]
  rfl

namespace Pm

/-- The three entries that lead to a table. -/
def linkStores (s : Pm) : Pm :=
  ((s.movDword 0x1000 0x2003).movDword 0x2000 0x3003).movDword 0x3000 0x4003

theorem linkStores_of_not (s : Pm) {x : Nat}
    (h : ∀ k < 3, x < (k + 1) * 0x1000 ∨ (k + 1) * 0x1000 + 4 ≤ x) :
    s.linkStores.mem x = s.mem x := by
  show store32 (store32 (store32 s.mem 0x1000 0x2003) 0x2000 0x3003) 0x3000
    0x4003 x = s.mem x
  rw [store32_of_not _ _ (h 2 (by omega)), store32_of_not _ _ (h 1 (by omega)),
    store32_of_not _ _ (h 0 (by omega))]

theorem load32_linkStores (s : Pm) {k : Nat} (hk : k < 3) :
    (load32 s.linkStores.mem ((k + 1) * 0x1000)).toNat =
      (k + 2) * 0x1000 + 3 := by
  have hmem : s.linkStores.mem = store32 (store32 (store32 s.mem 0x1000 0x2003)
    0x2000 0x3003) 0x3000 0x4003 := rfl
  rw [hmem]
  interval_cases k
  · rw [load32_store32_of_disjoint _ _ (by omega),
      load32_store32_of_disjoint _ _ (by omega), load32_store32]
    rfl
  · rw [load32_store32_of_disjoint _ _ (by omega), load32_store32]
    rfl
  · rw [load32_store32]
    rfl

/-- The state in front of `rep stosd`. -/
def clearing (s : Pm) : Pm :=
  s.movEdi 0x1000 |>.movCr3Edi |>.xorEax |>.movEcx 4096

/-- From the clearing to the loop. -/
def filling (s : Pm) : Pm :=
  s.linkStores.movEdi 0x4000 |>.movEbx 0x00000003 |>.movEcx 512

theorem setupPaging_eq (s : Pm) :
    s.setupPaging = s.clearing.repStosd.filling.setEntries := rfl

theorem clearing_spec (s : Pm) : s.clearing.repStosd.cr3 = 0x1000 ∧
    ∀ x, 0x1000 ≤ x → x < 0x5000 → s.clearing.repStosd.mem x = 0 := by
  have hedi : s.clearing.edi.toNat = 0x1000 := rfl
  obtain ⟨hcr3, hmem⟩ := repStosd_zero (s := s.clearing) (n := 4096) rfl
    UInt32.xor_self (by rw [hedi]; omega)
  rw [hedi] at hmem
  refine ⟨hcr3, ?_⟩
  intro x hlo hhi
  rw [hmem x]
  exact if_pos ⟨hlo, by omega⟩

theorem filling_spec (s : Pm) : s.filling.setEntries.cr3 = s.cr3 ∧
    (∀ i ≤ 511, (load32 s.filling.setEntries.mem (0x4000 + 8 * i)).toNat =
      3 + i * 0x1000) ∧
    ∀ x, (∀ i ≤ 511, x < 0x4000 + 8 * i ∨ 0x4000 + 8 * i + 4 ≤ x) →
      s.filling.setEntries.mem x = s.linkStores.mem x := by
  have hedi : s.filling.edi.toNat = 0x4000 := rfl
  have hebx : s.filling.ebx.toNat = 3 := rfl
  have hspec := setEntries_spec (s := s.filling) (n := 511) rfl
    (by rw [hedi]; omega) (by rw [hebx]; omega)
  rw [hedi, hebx] at hspec
  exact hspec

theorem cr3_setupPaging (s : Pm) : s.setupPaging.cr3 = 0x1000 := by
  rw [setupPaging_eq, (filling_spec _).1, s.clearing_spec.1]

theorem tables_setupPaging (s : Pm) : Tables s.setupPaging.mem := by
  have hclear := s.clearing_spec.2
  rw [setupPaging_eq]
  generalize s.clearing.repStosd = s at *
  obtain ⟨-, hwords, hframe⟩ := s.filling_spec
  -- A byte of the tables that no store after the clearing is for.
  have hzero : ∀ x, 0x1000 ≤ x → x < 0x5000 →
      (∀ k < 3, x < (k + 1) * 0x1000 ∨ (k + 1) * 0x1000 + 4 ≤ x) →
      (∀ i ≤ 511, x < 0x4000 + 8 * i ∨ 0x4000 + 8 * i + 4 ≤ x) →
      s.filling.setEntries.mem x = 0 := by
    intro x hlo hhi hlink hpage
    rw [hframe x hpage]
    rw [linkStores_of_not _ hlink]
    exact hclear x hlo hhi
  have hupper : (0 : UInt32).toNat = 0 := rfl
  refine ⟨?_, ?_⟩
  · intro k hk i hi
    by_cases hfirst : i = 0
    · have hlow : load32 s.filling.setEntries.mem ((k + 1) * 0x1000) =
          load32 s.linkStores.mem ((k + 1) * 0x1000) :=
        load32_congr fun j hj => hframe _ fun l hl => by omega
      have hhigh : load32 s.filling.setEntries.mem ((k + 1) * 0x1000 + 4) = 0 :=
        load32_of_zero fun j hj => hzero _ (by omega) (by omega)
          (fun l hl => by omega) fun l hl => by omega
      rw [if_pos hfirst, hfirst, Nat.mul_zero, Nat.add_zero, toNat_load64, hlow,
        hhigh, load32_linkStores _ hk, hupper, Nat.mul_zero, Nat.add_zero]
    · rw [if_neg hfirst]
      exact toNat_load64_of_zero fun j hj => hzero _ (by omega) (by omega)
        (fun l hl => by omega) fun l hl => by omega
  · intro i hi
    have hhigh : load32 s.filling.setEntries.mem (0x4000 + 8 * i + 4) = 0 :=
      load32_of_zero fun j hj => hzero _ (by omega) (by omega)
        (fun l hl => by omega) fun l hl => by omega
    rw [toNat_load64, hwords i (by omega), hhigh, hupper, Nat.mul_zero,
      Nat.add_zero, Nat.add_comm]

end Pm

/-! ## The walk -/

section Walk

variable {m : Nat → UInt8} {v : BitVec 48} {e : UInt64} {j level : Nat}

/-- An entry with the present and the writable bit for the page or table with
number `j`. -/
theorem flags_of_toNat (he : e.toNat = j * 0x1000 + 3) (hj : j < 2 ^ 40) :
    present e = true ∧ writable e = true ∧ large e = false ∧
      base e = j * 0x1000 := by
  refine ⟨?_, ?_, ?_, ?_⟩
  · rw [present, he, Nat.testBit_eq_decide_div_mod_eq, decide_eq_true_iff]
    omega
  · rw [writable, he, Nat.testBit_eq_decide_div_mod_eq, decide_eq_true_iff]
    omega
  · rw [large, he, Nat.testBit_eq_decide_div_mod_eq, decide_eq_false_iff_not]
    omega
  · rw [base, he]
    omega

theorem present_of_zero (he : e.toNat = 0) : present e = false := by
  rw [present, he]
  rfl

theorem index_lt (v : BitVec 48) (level : Nat) : index v level < 512 :=
  Nat.mod_lt _ (by omega)

/-- The entry that a walk reads above the last level. -/
theorem Tables.toNat_entryAt (h : Tables m) (hlevel : level < 3) :
    (entryAt m v (level + 1) ((3 - level) * 0x1000)).toNat =
      if index v (level + 1) = 0 then (4 - level) * 0x1000 + 3 else 0 := by
  have hlink := h.link (2 - level) (by omega) _ (index_lt v (level + 1))
  have hthis : 2 - level + 1 = 3 - level := by omega
  have hnext : 2 - level + 2 = 4 - level := by omega
  rw [hthis, hnext] at hlink
  exact hlink

/-- Zero indices lead from table to table to a page. -/
theorem Tables.mapped (h : Tables m) (hlevel : level ≤ 3)
    (hzero : ∀ l < level, index v (l + 1) = 0) :
    (walk m v level ((4 - level) * 0x1000)).physical =
        some (index v 0 * 0x1000 + offset v 0) ∧
      (walk m v level ((4 - level) * 0x1000)).entries.length = level + 1 ∧
      ∀ e ∈ (walk m v level ((4 - level) * 0x1000)).entries,
        present e ∧ writable e := by
  induction level with
  | zero =>
      have hindex := index_lt v 0
      obtain ⟨hp, hw, -, hbase⟩ :=
        flags_of_toNat (h.page _ hindex) (by omega)
      rw [show (4 - 0) * 0x1000 = 0x4000 from rfl, walk_page rfl hp]
      refine ⟨?_, rfl, ?_⟩
      · rw [entryAt, hbase]
      · intro e he
        rw [List.mem_singleton.1 he]
        exact ⟨hp, hw⟩
  | succ level ih =>
      have hentry := h.toNat_entryAt (v := v) hlevel
      rw [if_pos (hzero level (Nat.lt_succ_self level))] at hentry
      obtain ⟨hp, hw, hl, hbase⟩ := flags_of_toNat hentry (by omega)
      obtain ⟨hphysical, hlength, hall⟩ :=
        ih (by omega) fun l hl => hzero l (by omega)
      have htable : 4 - (level + 1) = 3 - level := by omega
      rw [htable, walk_next rfl hp hl, hbase]
      refine ⟨hphysical, ?_, ?_⟩
      · rw [List.length_cons, hlength]
      · intro e he
        rcases List.mem_cons.1 he with rfl | hrest
        · exact ⟨hp, hw⟩
        · exact hall e hrest

/-- An index that is not zero leads to an entry that is not present. -/
theorem Tables.missing (h : Tables m) (hlevel : level ≤ 3)
    (hne : ∃ l < level, index v (l + 1) ≠ 0) :
    (walk m v level ((4 - level) * 0x1000)).Missing := by
  induction level with
  | zero =>
      obtain ⟨l, hl, -⟩ := hne
      exact absurd hl (Nat.not_lt_zero l)
  | succ level ih =>
      have hentry := h.toNat_entryAt (v := v) hlevel
      have htable : 4 - (level + 1) = 3 - level := by omega
      rw [htable]
      by_cases hhere : index v (level + 1) = 0
      · rw [if_pos hhere] at hentry
        obtain ⟨hp, -, hl, hbase⟩ := flags_of_toNat hentry (by omega)
        refine missing_next rfl hp hl ?_
        rw [hbase]
        refine ih (by omega) ?_
        obtain ⟨l, hlt, hindex⟩ := hne
        refine ⟨l, ?_, hindex⟩
        rcases Nat.lt_succ_iff_lt_or_eq.1 hlt with hlt | rfl
        · exact hlt
        · exact absurd hhere hindex
      · rw [if_neg hhere] at hentry
        exact missing_absent rfl (present_of_zero hentry)

theorem index_eq_zero_iff (v : BitVec 48) :
    (∀ l < 3, index v (l + 1) = 0) ↔ v.toNat < 2 ^ 21 := by
  have hv := v.isLt
  refine ⟨?_, ?_⟩
  · intro h
    have h1 := h 0 (by omega)
    have h2 := h 1 (by omega)
    have h3 := h 2 (by omega)
    simp only [index] at h1 h2 h3
    omega
  · intro h l hl
    interval_cases l <;> simp only [index] <;> omega

theorem index_zero_add_offset (hlow : v.toNat < 2 ^ 21) :
    index v 0 * 0x1000 + offset v 0 = v.toNat := by
  have hindex : index v 0 = v.toNat / 0x1000 := by
    rw [index]
    exact Nat.mod_eq_of_lt (by omega)
  rw [hindex, offset, Nat.mul_comm]
  exact Nat.div_add_mod v.toNat 0x1000

end Walk

/-- Behind `setup_paging`, whatever the memory was before, `CR3` is 0x1000, a
walk from there maps every address below 2^21 to itself by four entries that
are present and writable, and for any other address it ends at an entry that
is not present. -/
theorem walk_setupPaging (s : Pm) (v : BitVec 48) :
    s.setupPaging.cr3 = 0x1000 ∧
      if v.toNat < 2 ^ 21 then
        (PageWalk.ofCr3 s.setupPaging.mem s.setupPaging.cr3.toUInt64 v).MapsTo
          v.toNat
      else
        (PageWalk.ofCr3 s.setupPaging.mem
          s.setupPaging.cr3.toUInt64 v).Missing := by
  have hcr3 := s.cr3_setupPaging
  have htables := s.tables_setupPaging
  have hroot : base s.setupPaging.cr3.toUInt64 = (4 - 3) * 0x1000 := by
    rw [hcr3]
    rfl
  refine ⟨hcr3, ?_⟩
  rw [PageWalk.ofCr3, hroot]
  split
  · next hlow =>
      obtain ⟨hphysical, hlength, hall⟩ :=
        htables.mapped (Nat.le_refl 3) ((index_eq_zero_iff v).2 hlow)
      refine ⟨?_, hlength, hall⟩
      rw [hphysical, index_zero_add_offset hlow]
  · next hhigh =>
      refine htables.missing (Nat.le_refl 3) ?_
      by_contra hall
      refine hhigh ((index_eq_zero_iff v).1 ?_)
      intro l hl
      by_contra hne
      exact hall ⟨l, hl, hne⟩

end TermOS.Arch
