import TermOS.Proofs.PmmRefine

/-!
# The counter of free memory never catches up with the bitmap

`free_memory` is kept beside the bitmap, and every function moves it by one
page exactly when one bit flips. So the difference between the counter and
what the clear bits are worth, `Pmm.slack`, is the same after every call: no
function drifts, neither a double free nor overlapping locks. All that is left
is the value it starts from, and that one is wrong. `pmm_init` marks every
page as used and still sets the counter to all of memory, so the counter is
right only where marking marks nothing: below eight whole pages, with the bits
of the one partial byte already clear.
-/

namespace TermOS.Memory

open TermOS.Lib

namespace Pmm

/-- How far the counter is ahead of the bitmap. -/
def slack (s : Pmm) : UInt64 :=
  s.freeMemory - UInt64.ofNat (4096 * s.freePages.card)

theorem ofNat_card_succ (c : Nat) :
    UInt64.ofNat (4096 * (c + 1)) = UInt64.ofNat (4096 * c) + pageSize := by
  rw [Nat.mul_add, UInt64.ofNat_add]
  rfl

theorem lockPage_slack {s : Pmm} {page : UInt64}
    (hpage : page.toNat < s.maxPages.toNat) :
    (s.lockPage page).slack = s.slack := by
  rw [slack, freePages_lockPage, slack]
  by_cases hbit : s.getBit page = true
  · -- Nothing is written, and the page was not in the set.
    have hnot : page.toNat ∉ s.freePages := by
      intro hmem
      exact absurd (hbit.symm.trans (mem_freePages.1 hmem).2) (by decide)
    rw [Finset.erase_eq_of_notMem hnot]
    simp [lockPage, hbit]
  · have hclear : s.getBit page = false := by simpa using hbit
    have hmem : page.toNat ∈ s.freePages := mem_freePages.2 ⟨hpage, hclear⟩
    have hfree : (s.lockPage page).freeMemory = s.freeMemory - pageSize := by
      simp [lockPage, hclear]
    rw [hfree, ← Finset.card_erase_add_one hmem, ofNat_card_succ]
    grind

theorem freePage_slack {s : Pmm} {addr : UInt64}
    (hpage : pageOf addr < s.maxPages.toNat) :
    (s.freePage addr).slack = s.slack := by
  rw [slack, freePages_freePage hpage, slack]
  by_cases hbit : s.getBit (addr / pageSize) = true
  · have hnot : pageOf addr ∉ s.freePages := by
      intro hmem
      have hclear := (mem_freePages.1 hmem).2
      rw [← pageOf_eq] at hclear
      exact absurd (hbit.symm.trans hclear) (by decide)
    have hfree : (s.freePage addr).freeMemory = s.freeMemory + pageSize := by
      simp [freePage, hbit]
    rw [hfree, Finset.card_insert_of_notMem hnot, ofNat_card_succ]
    grind
  · have hclear : s.getBit (addr / pageSize) = false := by simpa using hbit
    have hmem : pageOf addr ∈ s.freePages := by
      refine mem_freePages.2 ⟨hpage, ?_⟩
      rw [← pageOf_eq]
      exact hclear
    rw [Finset.insert_eq_of_mem hmem]
    simp [freePage, hclear]

theorem lockLoop_slack (startPage : UInt64) (n : Nat) :
    ∀ (i : UInt64) (s : Pmm), i.toNat + n < 2 ^ 64 →
      (∀ k < n, startPage.toNat + i.toNat + k < s.maxPages.toNat) →
      (lockLoop startPage n i s).slack = s.slack := by
  induction n with
  | zero => intro i s _ _; rfl
  | succ n ih =>
      intro i s hfit hrange
      have hmax := s.maxPages.toNat_lt
      have hfirst := hrange 0 (by omega)
      obtain ⟨hi, hpage⟩ := @toNat_round startPage i (by omega)
      rw [lockLoop, ih _ _ (by omega), lockPage_slack (by omega)]
      intro k hk
      have hnext := hrange (k + 1) (by omega)
      rw [lockPage_maxPages]
      omega

/-- Every call leaves the slack where it was. -/
theorem step_slack {s s' : Pmm} {call : Call} (h : s.Step call s') :
    s'.slack = s.slack := by
  cases call with
  | allocPage ret =>
      rcases step_allocPage h with ⟨-, -, rfl⟩ | ⟨page, hleast, -, rfl⟩
      · rfl
      · exact lockPage_slack (mem_freePages.1 (Finset.mem_coe.1 hleast.1)).1
  | freePage addr =>
      obtain ⟨hpage, rfl⟩ := h
      exact freePage_slack hpage
  | pmmLockPages addr count =>
      obtain ⟨hrange, rfl⟩ := h
      have hcount := count.toNat_lt
      refine lockLoop_slack _ _ _ _ (by simpa using hcount) fun k hk => ?_
      rw [pageOf_eq]
      simpa using hrange k hk

theorem card_freePages_le (s : Pmm) : s.freePages.card ≤ s.maxPages.toNat := by
  have hcard := Finset.card_filter_le (Finset.range s.maxPages.toNat)
    fun p => packedMem s.bitmap p = false
  rwa [Finset.card_range] at hcard

/-- The counter is exact precisely where the slack is zero. -/
theorem getFreeMemory_eq_iff_slack (s : Pmm) :
    s.getFreeMemory.toNat = 4096 * s.freePages.card ↔ s.slack = 0 := by
  have hcard := card_freePages_le s
  have hfits := s.fits
  have hlt : 4096 * s.freePages.card < UInt64.size := by
    rw [show UInt64.size = 2 ^ 64 from rfl]
    omega
  have hnat := UInt64.toNat_ofNat_of_lt' hlt
  have heq : s.freeMemory.toNat = 4096 * s.freePages.card ↔
      s.freeMemory = UInt64.ofNat (4096 * s.freePages.card) := by
    rw [← UInt64.toNat_inj, hnat]
  rw [slack, getFreeMemory, heq]
  constructor <;> intro h <;> grind

end Pmm

/-- The start from which the counter is right: less than eight whole pages of
memory, and their bits clear in what the bitmap's memory held before. -/
def StartsExact (mem : Nat → UInt8) (totalMemory : UInt64) : Prop :=
  totalMemory.toNat < 8 * 4096 ∧ totalMemory.toNat % 4096 = 0 ∧
    ∀ p < totalMemory.toNat / 4096, packedMem mem p = false

/-- After `pmm_init` the whole bytes are full, and the pages of the last,
partial byte are what they were. -/
theorem mem_freePages_pmmInit {mem : Nat → UInt8} {totalMemory : UInt64}
    {p : Nat} : p ∈ (pmmInit mem totalMemory).freePages ↔
      p < totalMemory.toNat / 4096 ∧ 8 * (totalMemory.toNat / 4096 / 8) ≤ p ∧
        packedMem mem p = false := by
  have hmax : (pmmInit mem totalMemory).maxPages.toNat =
      totalMemory.toNat / 4096 := pageOf_eq totalMemory
  rw [Pmm.mem_freePages, hmax]
  refine and_congr_right fun hp => ?_
  have hbyte : (pmmInit mem totalMemory).bitmap (p / 8) =
      if p / 8 < totalMemory.toNat / 4096 / 8 then 0xFF else mem (p / 8) := by
    rw [← hmax]
    exact Pmm.fillOnes_apply mem _ (p / 8)
  by_cases hfull : p / 8 < totalMemory.toNat / 4096 / 8
  · rw [if_pos hfull] at hbyte
    rw [packedMem_of_ones hbyte]
    refine ⟨?_, ?_⟩
    · intro h
      exact absurd h (by decide)
    · intro hmem
      obtain ⟨hge, -⟩ := hmem
      omega
  · rw [if_neg hfull] at hbyte
    rw [packedMem, packedMem, hbyte]
    exact ⟨fun h => ⟨by omega, h⟩, And.right⟩

theorem pmmInit_exact_iff (mem : Nat → UInt8) (totalMemory : UInt64) :
    totalMemory.toNat = 4096 * (pmmInit mem totalMemory).freePages.card ↔
      StartsExact mem totalMemory := by
  set n := totalMemory.toNat / 4096 with hn
  refine ⟨?_, ?_⟩
  · intro h
    -- Only the partial byte can hold clear bits, so there are at most seven.
    have hsub : (pmmInit mem totalMemory).freePages ⊆
        Finset.Ico (8 * (n / 8)) n := by
      intro p hp
      obtain ⟨hlt, hge, -⟩ := mem_freePages_pmmInit.1 hp
      exact Finset.mem_Ico.2 ⟨hge, hlt⟩
    have hcard := Finset.card_le_card hsub
    rw [Nat.card_Ico] at hcard
    have hall : (pmmInit mem totalMemory).freePages =
        Finset.Ico (8 * (n / 8)) n := by
      refine Finset.eq_of_subset_of_card_le hsub ?_
      rw [Nat.card_Ico]
      omega
    refine ⟨by omega, by omega, fun p hp => ?_⟩
    have hmem : p ∈ (pmmInit mem totalMemory).freePages := by
      rw [hall, Finset.mem_Ico]
      omega
    exact (mem_freePages_pmmInit.1 hmem).2.2
  · intro hcond
    obtain ⟨hsmall, hwhole, hclear⟩ := hcond
    have hall : (pmmInit mem totalMemory).freePages = Finset.range n := by
      ext p
      rw [mem_freePages_pmmInit, Finset.mem_range]
      exact ⟨And.left, fun hp => ⟨hp, by omega, hclear p hp⟩⟩
    rw [hall, Finset.card_range]
    omega

/-- At every point of every run after `pmm_init(total_memory)`, the counter
agrees with the bitmap if and only if it did so from the start. -/
theorem getFreeMemory_exact_iff {mem : Nat → UInt8} {totalMemory : UInt64}
    {calls : List Call} {s : Pmm}
    (h : Trace Pmm.Step (pmmInit mem totalMemory) calls s) :
    s.getFreeMemory.toNat = 4096 * s.freePages.card ↔
      StartsExact mem totalMemory := by
  have hslack : s.slack = (pmmInit mem totalMemory).slack :=
    h.invariant (I := fun t => t.slack = (pmmInit mem totalMemory).slack)
      (fun _ _ _ ht hstep => (Pmm.step_slack hstep).trans ht) rfl
  rw [Pmm.getFreeMemory_eq_iff_slack, hslack, ← Pmm.getFreeMemory_eq_iff_slack]
  exact pmmInit_exact_iff mem totalMemory

/-- One locked page of the kernel's own 128 MiB, over a cleared bitmap. -/
theorem getFreeMemory_exact_iff_kernel :
    ((pmmInit (fun _ => 0) 134217728).pmmLockPages 0 1).getFreeMemory.toNat =
        4096 * ((pmmInit (fun _ => 0) 134217728).pmmLockPages 0 1).freePages.card ↔
      StartsExact (fun _ => 0) 134217728 := by
  have hlock : (pmmInit (fun _ => 0) 134217728).Step (.pmmLockPages 0 1)
      ((pmmInit (fun _ => 0) 134217728).pmmLockPages 0 1) := ⟨by decide, rfl⟩
  exact getFreeMemory_exact_iff (.cons hlock (.nil _))

/-- The kernel's own start: after `pmm_init(128 MiB)` and locking the first 512
pages, the counter does not agree with the bitmap. -/
theorem getFreeMemory_kernel_ne :
    Trace Pmm.Step (pmmInit (fun _ => 0) 134217728) [.pmmLockPages 0 512]
        ((pmmInit (fun _ => 0) 134217728).pmmLockPages 0 512) ∧
      ((pmmInit (fun _ => 0) 134217728).pmmLockPages 0 512).getFreeMemory.toNat ≠
        4096 *
          ((pmmInit (fun _ => 0) 134217728).pmmLockPages 0 512).freePages.card := by
  have hlock : (pmmInit (fun _ => 0) 134217728).Step (.pmmLockPages 0 512)
      ((pmmInit (fun _ => 0) 134217728).pmmLockPages 0 512) := by
    refine ⟨fun i hi => ?_, rfl⟩
    have hi : i < 512 := hi
    show 0 + i < 32768
    omega
  refine ⟨.cons hlock (.nil _), fun h => ?_⟩
  rw [Pmm.getFreeMemory_eq_iff_slack, Pmm.step_slack hlock,
    ← Pmm.getFreeMemory_eq_iff_slack] at h
  have hstart : StartsExact (fun _ => 0) 134217728 := (pmmInit_exact_iff _ _).1 h
  exact absurd hstart.1 (by decide)

end TermOS.Memory
