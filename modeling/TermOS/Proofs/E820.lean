import Mathlib.Data.ENat.Lattice
import Mathlib.Data.Set.Card
import Mathlib.Order.Interval.Finset.Nat
import TermOS.Ref.E820

/-!
# The memory map arrives

The loop of the boot sector stores entries of 24 bytes one behind the other from
where the array of the struct begins, so that it is enough to know how many
there are: the stores are those of one block of bytes. The loop ends after 32
calls at most, also with a BIOS that never ends its list.
-/

namespace TermOS.Boot

open TermOS.Lib
open TermOS.Lib.ByteMemory
open TermOS.Lib.CString (storesAt apply apply_at apply_of_not apply_append
  mem_storesAt storesAt_append)

variable {bios : Nat → E820Response} {m m' : Nat → UInt8} {a b n c : Nat}

/-! ## The calls that succeed -/

/-- The calls before the `n`-th succeed and ask for another. -/
def Reached (bios : Nat → E820Response) (n : Nat) : Prop :=
  ∀ k < n, (bios k).Success ∧ (bios k).ebx ≠ 0

/-- The calls that a caller without a bound makes and that succeed. -/
def successful (bios : Nat → E820Response) : Set Nat :=
  {n | Reached bios n ∧ (bios n).Success}

theorem Reached.succ (h : Reached bios n) (hs : (bios n).Success)
    (he : (bios n).ebx ≠ 0) : Reached bios (n + 1) := by
  intro k hk
  rcases Nat.lt_succ_iff_lt_or_eq.1 hk with hlt | rfl
  · exact h k hlt
  · exact ⟨hs, he⟩

theorem Reached.mono (h : Reached bios n) (hle : c ≤ n) : Reached bios c :=
  fun k hk => h k (by omega)

theorem encard_Iio (n : Nat) : (Set.Iio n).encard = (n : ENat) := by
  rw [← Finset.coe_Iio, Set.encard_coe_eq_coe_finsetCard, Nat.card_Iio]

/-- A call that fails ends the list. -/
theorem successful_of_failure (h : Reached bios n) (hs : ¬ (bios n).Success) :
    successful bios = Set.Iio n := by
  ext k
  refine ⟨?_, ?_⟩
  · rintro ⟨hreached, hsuccess⟩
    by_contra hle
    rcases Nat.eq_or_lt_of_le (not_lt.1 hle) with rfl | hlt
    · exact hs hsuccess
    · exact hs (hreached n hlt).1
  · intro hlt
    exact ⟨h.mono (Nat.le_of_lt hlt), (h k hlt).1⟩

/-- So does one that asks for no other. -/
theorem successful_of_last (h : Reached bios n) (hs : (bios n).Success)
    (he : (bios n).ebx = 0) : successful bios = Set.Iio (n + 1) := by
  ext k
  refine ⟨?_, ?_⟩
  · rintro ⟨hreached, -⟩
    by_contra hle
    have hlt : n < k := Nat.lt_of_succ_le (not_lt.1 hle)
    exact (hreached n hlt).2 he
  · intro hlt
    rcases Nat.lt_succ_iff_lt_or_eq.1 hlt with hlt | rfl
    · exact ⟨h.mono (Nat.le_of_lt hlt), (h k hlt).1⟩
    · exact ⟨h, hs⟩

theorem Iio_subset_successful (h : Reached bios n) (hs : (bios n).Success) :
    Set.Iio (n + 1) ⊆ successful bios := by
  intro k hlt
  rcases Nat.lt_succ_iff_lt_or_eq.1 hlt with hlt | rfl
  · exact ⟨h.mono (Nat.le_of_lt hlt), (h k hlt).1⟩
  · exact ⟨h, hs⟩

/-! ## The loop -/

/-- The entries of the first calls as one block. -/
def entryBytes (bios : Nat → E820Response) (n : Nat) : List UInt8 :=
  (List.range n).flatMap fun k => (bios k).entry.toList

theorem entryBytes_succ (bios : Nat → E820Response) (n : Nat) :
    entryBytes bios (n + 1) = entryBytes bios n ++ (bios n).entry.toList := by
  rw [entryBytes, List.range_succ, List.flatMap_append, List.flatMap_singleton]
  rfl

theorem length_entryBytes (bios : Nat → E820Response) (n : Nat) :
    (entryBytes bios n).length = 24 * n := by
  induction n with
  | zero => rfl
  | succ n ih =>
      rw [entryBytes_succ, List.length_append, ih, Vector.length_toList]
      omega

theorem getD_entryBytes {i k : Nat} (hi : i < n) (hk : k < 24) :
    (entryBytes bios n).getD (24 * i + k) 0 =
      (bios i).entry.toList.getD k 0 := by
  induction n with
  | zero => exact absurd hi (Nat.not_lt_zero i)
  | succ n ih =>
      have hlen := length_entryBytes bios n
      rw [entryBytes_succ]
      rcases Nat.lt_succ_iff_lt_or_eq.1 hi with hlt | rfl
      · rw [List.getD_append _ _ _ _ (by omega), ih hlt]
      · rw [List.getD_append_right _ _ _ _ (by omega), hlen,
          Nat.add_sub_cancel_left]

/-- Where the array of the struct begins. -/
def mapStart : Nat := bootInfo + 14

/-- The loop after the entries of `n` calls, behind some stores. -/
structure Scan.Holds (s : Scan) (bios : Nat → E820Response)
    (first : List (Nat × UInt8)) (n : Nat) : Prop where
  di : s.di.toNat = mapStart + 24 * n
  bp : s.bp.toNat = n
  stores : s.stores = first ++ storesAt mapStart (entryBytes bios n)

theorem toNat_add16 {x y : UInt16} (h : x.toNat + y.toNat < 2 ^ 16) :
    (x + y).toNat = x.toNat + y.toNat := by
  rw [UInt16.toNat_add, Nat.mod_eq_of_lt h]

variable {s : Scan} {first : List (Nat × UInt8)}

/-- The state after a call that succeeded. -/
def Scan.push (s : Scan) (r : E820Response) : Scan where
  di := s.di + 24
  bp := s.bp + 1
  stores := s.stores ++ storesAt s.di.toNat r.entry.toList

theorem Scan.Holds.push (h : s.Holds bios first n) (hn : n < 32) :
    (s.push (bios n)).Holds bios first (n + 1) := by
  have hstart : mapStart = 0x50E := rfl
  have hdi := h.di
  have hbp := h.bp
  refine ⟨?_, ?_, ?_⟩
  · rw [Scan.push, toNat_add16, hdi]
    · rfl
    · show s.di.toNat + 24 < 2 ^ 16
      omega
  · rw [Scan.push, toNat_add16, hbp]
    · rfl
    · show s.bp.toNat + 1 < 2 ^ 16
      omega
  · rw [Scan.push, h.stores, entryBytes_succ, storesAt_append, hdi,
      length_entryBytes, List.append_assoc]

/-- The three ways a round of the loop can go. -/
theorem e820Round_cases (r : E820Response) (s : Scan) :
    (¬ r.Success ∧ e820Round r s = (s, false)) ∨
    (r.Success ∧ ((s.push r).bp = 32 ∨ r.ebx = 0) ∧
      e820Round r s = (s.push r, false)) ∨
    (r.Success ∧ (s.push r).bp ≠ 32 ∧ r.ebx ≠ 0 ∧
      e820Round r s = (s.push r, true)) := by
  have hround : r.Success → e820Round r s =
      if (s.push r).bp = 32 then (s.push r, false)
      else if r.ebx = 0 then (s.push r, false) else (s.push r, true) := by
    rintro ⟨hcarry, heax⟩
    rw [e820Round, hcarry, if_neg Bool.false_ne_true, if_neg (not_not.2 heax)]
    rfl
  by_cases hs : r.Success
  · rw [hround hs]
    by_cases hbp : (s.push r).bp = 32
    · exact .inr (.inl ⟨hs, .inl hbp, if_pos hbp⟩)
    · by_cases he : r.ebx = 0
      · refine .inr (.inl ⟨hs, .inr he, ?_⟩)
        rw [if_neg hbp, if_pos he]
      · refine .inr (.inr ⟨hs, hbp, he, ?_⟩)
        rw [if_neg hbp, if_neg he]
  · refine .inl ⟨hs, ?_⟩
    rw [e820Round]
    by_cases hcarry : r.carry
    · exact if_pos hcarry
    · have heax : r.eax ≠ smap :=
        fun heax => hs ⟨Bool.eq_false_iff.2 hcarry, heax⟩
      rw [if_neg hcarry, if_pos heax]

/-- With a call left for each entry that fits, the loop ends, and with as many
entries as there are, up to 32. -/
theorem e820Loop_spec (fuel : Nat) (hfuel : fuel + 1 + n = 32)
    (hreached : Reached bios n) (h : s.Holds bios first n) :
    ∃ s' c, e820Loop bios (fuel + 1) n s = some s' ∧
      s'.Holds bios first c ∧ c ≤ 32 ∧
      (c : ENat) = min (successful bios).encard 32 := by
  induction fuel generalizing n s with
  | zero =>
      -- The last call that the bound allows.
      have hn : n = 31 := by omega
      have hpush := h.push (by omega)
      rw [e820Loop]
      rcases e820Round_cases (bios n) s with
        ⟨hs, hround⟩ | ⟨hs, -, hround⟩ | ⟨-, hbp, -, -⟩
      · refine ⟨s, n, by rw [hround], h, by omega, ?_⟩
        rw [successful_of_failure hreached hs, encard_Iio, hn]
        rfl
      · have hle : (32 : ENat) ≤ (successful bios).encard := by
          have hsubset := Set.encard_le_encard
            (Iio_subset_successful hreached hs)
          rw [encard_Iio, hn] at hsubset
          exact hsubset
        refine ⟨s.push (bios n), n + 1, by rw [hround], hpush, by omega, ?_⟩
        rw [min_eq_right hle, hn]
        rfl
      · refine absurd (UInt16.toNat_inj.1 ?_) hbp
        rw [hpush.bp, hn]
        rfl
  | succ fuel ih =>
      have hpush := h.push (by omega)
      rw [e820Loop]
      rcases e820Round_cases (bios n) s with
        ⟨hs, hround⟩ | ⟨hs, hlast, hround⟩ | ⟨hs, -, he, hround⟩
      · refine ⟨s, n, by rw [hround], h, by omega, ?_⟩
        rw [successful_of_failure hreached hs, encard_Iio,
          min_eq_left (by exact_mod_cast (by omega : n ≤ 32))]
      · have he : (bios n).ebx = 0 := by
          refine hlast.resolve_left fun hbp => ?_
          have hnat : _ = (32 : UInt16).toNat := congrArg UInt16.toNat hbp
          have hbound : (32 : UInt16).toNat = 32 := rfl
          rw [hpush.bp, hbound] at hnat
          omega
        refine ⟨s.push (bios n), n + 1, by rw [hround], hpush, by omega, ?_⟩
        rw [successful_of_last hreached hs he, encard_Iio,
          min_eq_left (by exact_mod_cast (by omega : n + 1 ≤ 32))]
      · rw [hround]
        exact ih (by omega) (hreached.succ hs he) hpush

/-! ## The structs -/

theorem load64_congr (h : ∀ k < 8, m (a + k) = m' (b + k)) :
    load64 m a = load64 m' b := by
  have hlow : load32 m a = load32 m' b :=
    load32_congr fun k hk => h k (by omega)
  have hhigh : load32 m (a + 4) = load32 m' (b + 4) :=
    load32_congr fun k hk => by
      rw [Nat.add_assoc, Nat.add_assoc]
      exact h _ (by omega)
  rw [load64, load64, hlow, hhigh]

theorem MemoryMapEntry.ofMemory_congr (h : ∀ k < 24, m (a + k) = m' (b + k)) :
    MemoryMapEntry.ofMemory m a = .ofMemory m' b := by
  have hpart : ∀ d j, d + j < 24 → m (a + d + j) = m' (b + d + j) := by
    intro d j hlt
    rw [Nat.add_assoc, Nat.add_assoc]
    exact h _ hlt
  have hbase : load64 m a = load64 m' b :=
    load64_congr fun k hk => h k (by omega)
  have hlength : load64 m (a + 8) = load64 m' (b + 8) :=
    load64_congr fun k hk => hpart 8 k (by omega)
  have htype : load32 m (a + 16) = load32 m' (b + 16) :=
    load32_congr fun k hk => hpart 16 k (by omega)
  have hacpi : load32 m (a + 20) = load32 m' (b + 20) :=
    load32_congr fun k hk => hpart 20 k (by omega)
  rw [MemoryMapEntry.ofMemory, MemoryMapEntry.ofMemory, hbase, hlength, htype,
    hacpi]

theorem load16_bytes16 {v : UInt16}
    (h : ∀ k < 2, m (a + k) = (bytes16 v).getD k 0) : load16 m a = v := by
  have hlow := h 0 (by omega)
  rw [Nat.add_zero] at hlow
  rw [load16, hlow, h 1 (by omega)]
  exact le16_byte16 v

/-- What comes behind the loop leaves the drive, the count and the array. -/
theorem handOff_of_mem {x : Nat} (m : Nat → UInt8) (mode : ModeInfo)
    (sectors : List UInt8) (hlo : bootInfo + 11 ≤ x)
    (hhi : x < bootInfo + BootInfo.size) : handOff m mode sectors x = m x := by
  have hstart : bootInfo = 0x500 := rfl
  have hsize : BootInfo.size = 782 := rfl
  have hfields : ∀ m : Nat → UInt8, screenFields m x = m x := by
    intro m
    rw [screenFields, copy16, apply_of_not _ (.inr (by
        show bootInfo + 9 + 2 ≤ x
        omega)),
      copy8, apply_of_not _ (.inr (by show bootInfo + 8 + 1 ≤ x; omega)),
      copy16, apply_of_not _ (.inr (by show bootInfo + 6 + 2 ≤ x; omega)),
      copy16, apply_of_not _ (.inr (by show bootInfo + 4 + 2 ≤ x; omega)),
      copy32, apply_of_not _ (.inr (by show bootInfo + 4 ≤ x; omega))]
  rw [handOff, apply_of_not _ (.inl (by omega))]
  split
  · rw [hfields, apply_of_not _ (.inl (by omega))]
  · rw [apply_of_not _ (.inl (by omega))]

/-- The hand-off: as many entries as there were, up to 32, each of them what the
BIOS had written, and a loop of `_kboot` that finds all it looks for. -/
structure HandedOver (bios : Nat → E820Response) (dl : UInt8)
    (info : BootInfo) : Prop where
  drive : info.bootDrive = dl
  count : (info.memoryMapCount.toNat : ENat) = min (successful bios).encard 32
  entries : ∀ i < info.memoryMapCount.toNat,
    info.memoryMap[i]? = some (.ofBytes (bios i).entry)
  regions : ∃ regions, info.regions = some regions

theorem mapM_isSome {α β : Type} (f : α → Option β) (l : List α)
    (h : ∀ x ∈ l, ∃ y, f x = some y) : ∃ ys, l.mapM f = some ys := by
  induction l with
  | nil => exact ⟨[], rfl⟩
  | cons x l ih =>
      obtain ⟨y, hy⟩ := h x List.mem_cons_self
      obtain ⟨ys, hys⟩ := ih fun z hz => h z (List.mem_cons_of_mem x hz)
      refine ⟨y :: ys, ?_⟩
      rw [List.mapM_cons, hy, hys]
      rfl

theorem regions_isSome {info : BootInfo}
    (h : info.memoryMapCount.toNat ≤ 32) :
    ∃ regions, info.regions = some regions := by
  refine mapM_isSome _ _ fun i hi => ?_
  have hlt : i < 32 := Nat.lt_of_lt_of_le (List.mem_range.1 hi) h
  rw [BootInfo.region, Vector.getElem?_eq_getElem hlt]
  exact ⟨_, rfl⟩

/-- The stores of the boot sector up to `.e820_done`. -/
def doneStores (dl : UInt8) (bp : UInt16) (bytes : List UInt8) :
    List (Nat × UInt8) :=
  storesAt (bootInfo + 11) [dl] ++ storesAt mapStart bytes ++
    storesAt (bootInfo + 12) (bytes16 bp)

theorem mem_doneStores {dl : UInt8} {bp : UInt16} {bytes : List UInt8}
    (hlen : bytes.length ≤ 24 * 32) {y : Nat × UInt8}
    (hy : y ∈ doneStores dl bp bytes) :
    bootInfo ≤ y.1 ∧ y.1 < bootInfo + BootInfo.size := by
  have hstart : mapStart = bootInfo + 14 := rfl
  have hsize : BootInfo.size = 782 := rfl
  rw [doneStores, List.mem_append, List.mem_append] at hy
  rcases hy with (hdrive | hentry) | hcount
  · have hmem := mem_storesAt hdrive
    rw [List.length_singleton] at hmem
    omega
  · have hmem := mem_storesAt hentry
    omega
  · have hmem := mem_storesAt hcount
    have hlength : (bytes16 bp).length = 2 := rfl
    omega

theorem apply_doneStores_drive (m : Nat → UInt8) (dl : UInt8) (bp : UInt16)
    (bytes : List UInt8) :
    apply m (doneStores dl bp bytes) (bootInfo + 11) = dl := by
  have hstart : mapStart = bootInfo + 14 := rfl
  rw [doneStores, apply_append, apply_append, apply_of_not _ (.inl (by omega)),
    apply_of_not _ (.inl (by omega))]
  exact apply_at m _ (k := 0) (Nat.lt_succ_self 0)

theorem apply_doneStores_count (m : Nat → UInt8) (dl : UInt8) (bp : UInt16)
    (bytes : List UInt8) {k : Nat} (hk : k < 2) :
    apply m (doneStores dl bp bytes) (bootInfo + 12 + k) =
      (bytes16 bp).getD k 0 := by
  rw [doneStores, apply_append]
  exact apply_at _ _ hk

theorem apply_doneStores_entry (m : Nat → UInt8) (dl : UInt8) (bp : UInt16)
    {bytes : List UInt8} {k : Nat} (hk : k < bytes.length) :
    apply m (doneStores dl bp bytes) (mapStart + k) = bytes.getD k 0 := by
  have hstart : mapStart = bootInfo + 14 := rfl
  rw [doneStores, apply_append, apply_append, apply_of_not _ (.inr ?_)]
  · exact apply_at _ _ hk
  · show bootInfo + 12 + 2 ≤ mapStart + k
    omega

theorem handedOver {dl : UInt8} {bp : UInt16} {mode : ModeInfo}
    {sectors : List UInt8} (hbp : bp.toNat = c) (hc : c ≤ 32)
    (hcount : (c : ENat) = min (successful bios).encard 32) :
    HandedOver bios dl (.ofMemory (handOff
      (apply m (doneStores dl bp (entryBytes bios c))) mode sectors)
      bootInfo) := by
  have hsize : BootInfo.size = 782 := rfl
  have hlen := length_entryBytes bios c
  have hload : load16 (handOff (apply m (doneStores dl bp (entryBytes bios c)))
      mode sectors) (bootInfo + 12) = bp := by
    refine load16_bytes16 fun k hk => ?_
    rw [handOff_of_mem _ _ _ (by omega) (by omega),
      apply_doneStores_count m dl bp _ hk]
  have hnat : (BootInfo.ofMemory (handOff
      (apply m (doneStores dl bp (entryBytes bios c))) mode sectors)
      bootInfo).memoryMapCount.toNat = c := by
    rw [BootInfo.ofMemory, hload, hbp]
  refine ⟨?_, ?_, ?_, regions_isSome (by omega)⟩
  · rw [BootInfo.ofMemory, handOff_of_mem _ _ _ (Nat.le_refl _) (by omega),
      apply_doneStores_drive]
  · rw [hnat, hcount]
  · intro i hi
    rw [hnat] at hi
    have hlt : i < 32 := by omega
    rw [Vector.getElem?_eq_getElem hlt, BootInfo.ofMemory,
      Vector.getElem_ofFn, MemoryMapEntry.ofBytes]
    refine congrArg some (MemoryMapEntry.ofMemory_congr fun k hk => ?_)
    rw [handOff_of_mem _ _ _ (by omega) (by omega)]
    have hplace : bootInfo + 14 + 24 * i + k = mapStart + (24 * i + k) := by
      rw [mapStart]
      omega
    rw [hplace, apply_doneStores_entry m dl bp (by omega),
      getD_entryBytes hi hk, Nat.zero_add]

/-- Whatever the BIOS answers, the loop ends within 32 calls, all stores up to
its end go into the struct, and whatever the VBE answers and the disk holds,
the struct that `_kboot` finds has the entries of the calls that succeeded, up
to 32. -/
theorem handOff_e820 (bios : Nat → E820Response) (dl : UInt8)
    (m : Nat → UInt8) :
    ∃ s, e820 bios dl 32 = some s ∧
      (∀ y ∈ s.stores, bootInfo ≤ y.1 ∧ y.1 < bootInfo + BootInfo.size) ∧
      ∀ mode sectors, HandedOver bios dl
        (.ofMemory (handOff (apply m s.stores) mode sectors) bootInfo) := by
  have hreached : Reached bios 0 := fun k hk => absurd hk (Nat.not_lt_zero k)
  have hstart : Scan.Holds ⟨UInt16.ofNat (bootInfo + 14), 0,
      storesAt (bootInfo + 11) [dl]⟩ bios (storesAt (bootInfo + 11) [dl]) 0 :=
    ⟨rfl, rfl, (List.append_nil _).symm⟩
  obtain ⟨s, c, hloop, hholds, hc, hcount⟩ :=
    e820Loop_spec 31 rfl hreached hstart
  have hstores : s.stores ++ storesAt (bootInfo + 12) (bytes16 s.bp) =
      doneStores dl s.bp (entryBytes bios c) := by
    rw [hholds.stores, doneStores]
  refine ⟨{ s with stores := doneStores dl s.bp (entryBytes bios c) }, ?_, ?_,
    ?_⟩
  · rw [e820, hloop, ← hstores]
  · intro y hy
    refine mem_doneStores ?_ hy
    rw [length_entryBytes]
    omega
  · intro mode sectors
    exact handedOver hholds.bp hc hcount

end TermOS.Boot
