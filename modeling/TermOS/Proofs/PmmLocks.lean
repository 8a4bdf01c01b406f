import TermOS.Proofs.PmmAccount

/-!
# Locking ranges of pages

A list of `pmm_lock_pages` calls acts as one lock of the union of their pages.
Bit by bit that is an induction on the list. It carries over to the bytes,
because a bitmap is determined by its bits, and to the counter, because locking
leaves the slack alone: what the counter loses is what the free set loses.
-/

namespace TermOS.Memory

open TermOS.Lib

/-- The arguments of a call of `pmm_lock_pages`. -/
structure LockCall where
  addr : UInt64
  count : UInt64
  deriving DecidableEq, Repr

/-- The pages a call names. The address need not be a multiple of the page
size. -/
def LockCall.pages (lock : LockCall) : Finset Nat :=
  Finset.Ico (pageOf lock.addr) (pageOf lock.addr + lock.count.toNat)

/-- The union of the locked pages. -/
def lockedPages (locks : List LockCall) : Finset Nat :=
  locks.foldr (fun lock pages => lock.pages ∪ pages) ∅

namespace Pmm

variable {s : Pmm} {xs ys : List LockCall} {lock : LockCall}

/-- The calls, in turn. -/
def lockAll (s : Pmm) (locks : List LockCall) : Pmm :=
  locks.foldl (fun s lock => s.pmmLockPages lock.addr lock.count) s

/-- The calls are on pages below `max_pages`. -/
def Covers (s : Pmm) (locks : List LockCall) : Prop :=
  ∀ p ∈ lockedPages locks, p < s.maxPages.toNat

theorem mem_lockedPages {p : Nat} :
    p ∈ lockedPages xs ↔ ∃ lock ∈ xs, p ∈ lock.pages := by
  induction xs with
  | nil => simp [lockedPages]
  | cons lock xs ih =>
      show p ∈ lock.pages ∪ lockedPages xs ↔ _
      rw [Finset.mem_union, ih, List.exists_mem_cons_iff]

/-- Order and repetition of the calls do not matter to the union. -/
theorem lockedPages_congr (h : ∀ lock, lock ∈ xs ↔ lock ∈ ys) :
    lockedPages xs = lockedPages ys := by
  ext p
  simp only [mem_lockedPages, h]

theorem Covers.head (h : s.Covers (lock :: xs)) :
    ∀ i < lock.count.toNat, pageOf lock.addr + i < s.maxPages.toNat := by
  intro i hi
  refine h _ (mem_lockedPages.2 ⟨lock, List.mem_cons_self, ?_⟩)
  rw [LockCall.pages, Finset.mem_Ico]
  omega

theorem Covers.tail (h : s.Covers (lock :: xs)) :
    (s.pmmLockPages lock.addr lock.count).Covers xs := by
  intro p hp
  rw [pmmLockPages_maxPages]
  exact h p (Finset.mem_union_right _ hp)

theorem Covers.step (h : s.Covers (lock :: xs)) :
    s.Step (.pmmLockPages lock.addr lock.count)
      (s.pmmLockPages lock.addr lock.count) :=
  ⟨h.head, rfl⟩

theorem lockAll_maxPages (s : Pmm) (xs : List LockCall) :
    (s.lockAll xs).maxPages = s.maxPages := by
  induction xs generalizing s with
  | nil => rfl
  | cons lock xs ih =>
      exact (ih _).trans (pmmLockPages_maxPages s lock.addr lock.count)

theorem lockAll_mem (h : s.Covers xs) (q : Nat) :
    packedMem (s.lockAll xs).bitmap q =
      (decide (q ∈ lockedPages xs) || packedMem s.bitmap q) := by
  induction xs generalizing s with
  | nil => simp [lockAll, lockedPages]
  | cons lock xs ih =>
      have hone : packedMem (s.pmmLockPages lock.addr lock.count).bitmap q =
          (decide (q ∈ lock.pages) || packedMem s.bitmap q) := by
        have hfit := lockPages_fits h.head
        have hloop := lockLoop_mem _ q _ _ s hfit
        rwa [UInt64.toNat_zero, Nat.add_zero, pageOf_eq] at hloop
      show packedMem ((s.pmmLockPages lock.addr lock.count).lockAll xs).bitmap
        q = _
      rw [ih h.tail, hone, ← Bool.or_assoc, ← Bool.decide_or]
      refine congrArg₂ _ (decide_eq_decide.2 ?_) rfl
      rw [or_comm]
      exact Finset.mem_union.symm

theorem lockAll_slack (h : s.Covers xs) : (s.lockAll xs).slack = s.slack := by
  induction xs generalizing s with
  | nil => rfl
  | cons lock xs ih => exact (ih h.tail).trans (step_slack h.step)

theorem freePages_lockAll (h : s.Covers xs) :
    (s.lockAll xs).freePages = s.freePages \ lockedPages xs := by
  ext p
  rw [mem_freePages, lockAll_mem h, lockAll_maxPages, Finset.mem_sdiff,
    mem_freePages]
  simp only [Bool.or_eq_false_iff, decide_eq_false_iff_not]
  tauto

/-- The counter drops by one page for every page of the union that was
free. -/
theorem freeMemory_lockAll (h : s.Covers xs) :
    (s.lockAll xs).freeMemory = s.freeMemory -
      UInt64.ofNat (4096 * (s.freePages ∩ lockedPages xs).card) := by
  have hslack := lockAll_slack h
  have hcard := Finset.card_sdiff_add_card_inter s.freePages (lockedPages xs)
  rw [slack, slack, freePages_lockAll h, ← hcard, Nat.mul_add,
    UInt64.ofNat_add] at hslack
  grind

theorem ext_of_packedMem {t : Pmm}
    (hmem : ∀ p, packedMem s.bitmap p = packedMem t.bitmap p)
    (hmax : s.maxPages = t.maxPages) (hfree : s.freeMemory = t.freeMemory) :
    s = t := by
  have hbitmap := packedMem_ext hmem
  cases s
  cases t
  simp_all

theorem lockAll_congr (h : s.Covers xs)
    (hunion : lockedPages xs = lockedPages ys) :
    s.lockAll xs = s.lockAll ys := by
  have h' : s.Covers ys := by rwa [Covers, ← hunion]
  refine ext_of_packedMem (fun p => ?_) ?_ ?_
  · rw [lockAll_mem h, lockAll_mem h', hunion]
  · rw [lockAll_maxPages, lockAll_maxPages]
  · rw [freeMemory_lockAll h, freeMemory_lockAll h', hunion]

end Pmm

/-- For every state and all calls on pages below `max_pages`: the state they
lead to depends on the union of the locked pages alone, so neither on the order
of the calls nor on their repetition, and `free_memory` drops by 4096 for each
page of the union that was free. -/
theorem locks_depend_on_union (s : Pmm) (xs : List LockCall)
    (hxs : s.Covers xs) :
    (∀ ys, lockedPages xs = lockedPages ys → s.lockAll xs = s.lockAll ys) ∧
      (∀ ys, (∀ lock, lock ∈ xs ↔ lock ∈ ys) → s.lockAll xs = s.lockAll ys) ∧
      (∀ p, packedMem (s.lockAll xs).bitmap p =
        (decide (p ∈ lockedPages xs) || packedMem s.bitmap p)) ∧
      (s.lockAll xs).freeMemory = s.freeMemory -
        UInt64.ofNat (4096 * (s.freePages ∩ lockedPages xs).card) :=
  ⟨fun _ => Pmm.lockAll_congr hxs,
    fun _ h => Pmm.lockAll_congr hxs (Pmm.lockedPages_congr h),
    Pmm.lockAll_mem hxs, Pmm.freeMemory_lockAll hxs⟩

/-- Two overlapping ranges in seven free pages, the second at an address inside
a page, and the same pages as one range. -/
theorem locks_depend_on_union_overlap :
    let s := pmmInit (fun _ => 0) 28672
    s.lockAll [⟨0, 2⟩, ⟨4100, 2⟩] = s.lockAll [⟨0, 3⟩] := by
  intro s
  have hcovers : s.Covers [⟨0, 2⟩, ⟨4100, 2⟩] := by
    show ∀ p ∈ lockedPages [⟨0, 2⟩, ⟨4100, 2⟩], p < (pmmInit _ _).maxPages.toNat
    decide
  exact (locks_depend_on_union s _ hcovers).1 _ (by decide)

end TermOS.Memory
