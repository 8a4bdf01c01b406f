import Mathlib.Data.Finset.Sort
import Mathlib.Order.Bounds.Basic
import Mathlib.Order.Interval.Finset.Nat
import TermOS.Ref.Pmm

/-!
# The page allocator is a set of free pages

What the bitmap is for is a set `F` of page numbers below `max_pages`:
allocation takes the least of them, freeing puts one back, locking takes a
run out. `PageSet.Step` says that and nothing about bytes. The proofs read
each function's effect off one bit at a time, for every page including those
beyond `max_pages`, so that the set equations and the frame are the same
lemma; the two loops are inductions on the rounds they have left.

The consequences about pages handed out twice are facts of the set alone. A
page outside `F` stays outside until a `free_page` names it, and `alloc_page`
answers only from `F`.
-/

namespace TermOS.Memory

open TermOS.Lib

/-- The purpose of the allocator: a set of free pages, and what one call does
to it. -/
def PageSet.Step (F : Finset Nat) : Call → Finset Nat → Prop
  | .allocPage ret, F' =>
      (∃ m, IsLeast (F : Set Nat) m ∧ ret.toNat = m * 4096 ∧ F' = F.erase m) ∨
        (F = ∅ ∧ ret = 0 ∧ F' = F)
  | .freePage addr, F' => F' = insert (pageOf addr) F
  | .pmmLockPages addr count, F' =>
      F' = F \ Finset.Ico (pageOf addr) (pageOf addr + count.toNat)

theorem pageOf_eq (addr : UInt64) : (addr / pageSize).toNat = pageOf addr := by
  rw [UInt64.toNat_div]
  rfl

namespace Pmm

variable {s : Pmm}

/-! ## One page -/

@[simp] theorem lockPage_maxPages (s : Pmm) (page : UInt64) :
    (s.lockPage page).maxPages = s.maxPages := by
  unfold lockPage
  split <;> rfl

theorem lockPage_mem (s : Pmm) (page : UInt64) (q : Nat) :
    packedMem (s.lockPage page).bitmap q =
      (decide (q = page.toNat) || packedMem s.bitmap q) := by
  unfold lockPage
  split
  · exact setBit_mem page q
  · next hset =>
      -- The bit was set already, so nothing is written and nothing changes.
      have hmem : packedMem s.bitmap page.toNat = true := by
        simpa [getBit] using hset
      by_cases hq : q = page.toNat
      · simp [hq, hmem]
      · simp [hq]

theorem freePages_lockPage (s : Pmm) (page : UInt64) :
    (s.lockPage page).freePages = s.freePages.erase page.toNat := by
  ext p
  rw [mem_freePages, lockPage_mem, Finset.mem_erase, mem_freePages,
    lockPage_maxPages]
  by_cases hp : p = page.toNat <;> simp [hp]

@[simp] theorem freePage_maxPages (s : Pmm) (addr : UInt64) :
    (s.freePage addr).maxPages = s.maxPages := by
  simp only [freePage]
  split <;> rfl

theorem freePage_mem (s : Pmm) (addr : UInt64) (q : Nat) :
    packedMem (s.freePage addr).bitmap q =
      (decide (q ≠ pageOf addr) && packedMem s.bitmap q) := by
  simp only [freePage]
  split
  · show packedMem (s.clearBit (addr / pageSize)).bitmap q = _
    rw [clearBit_mem, pageOf_eq]
  · next hclear =>
      have hmem : packedMem s.bitmap (pageOf addr) = false := by
        rw [← pageOf_eq]
        simpa [getBit] using hclear
      by_cases hq : q = pageOf addr
      · simp [hq, hmem]
      · simp [hq]

theorem freePages_freePage {addr : UInt64}
    (hpage : pageOf addr < s.maxPages.toNat) :
    (s.freePage addr).freePages = insert (pageOf addr) s.freePages := by
  ext p
  rw [mem_freePages, freePage_mem, Finset.mem_insert, mem_freePages,
    freePage_maxPages]
  by_cases hp : p = pageOf addr
  · simp [hp, hpage]
  · simp [hp]

/-! ## The two loops -/

@[simp] theorem lockLoop_maxPages (startPage : UInt64) (n : Nat) :
    ∀ (i : UInt64) (s : Pmm),
      (lockLoop startPage n i s).maxPages = s.maxPages := by
  induction n with
  | zero => intro i s; rfl
  | succ n ih => intro i s; rw [lockLoop, ih, lockPage_maxPages]

/-- A round of the loop computes page numbers that do not wrap. -/
theorem toNat_round {startPage i : UInt64}
    (hfit : startPage.toNat + i.toNat + 1 < 2 ^ 64) :
    (i + 1).toNat = i.toNat + 1 ∧
      (startPage + i).toNat = startPage.toNat + i.toNat := by
  rw [UInt64.toNat_add, UInt64.toNat_add,
    show (1 : UInt64).toNat = 1 from rfl]
  omega

theorem lockLoop_mem (startPage : UInt64) (q n : Nat) :
    ∀ (i : UInt64) (s : Pmm), startPage.toNat + i.toNat + n < 2 ^ 64 →
      packedMem (lockLoop startPage n i s).bitmap q =
        (decide (q ∈ Finset.Ico (startPage.toNat + i.toNat)
          (startPage.toNat + i.toNat + n)) || packedMem s.bitmap q) := by
  induction n with
  | zero => intro i s _; simp [lockLoop]
  | succ n ih =>
      intro i s hfit
      obtain ⟨hi, hpage⟩ := @toNat_round startPage i (by omega)
      rw [lockLoop, ih _ _ (by omega), lockPage_mem, hpage, hi, ← Bool.or_assoc,
        ← Bool.decide_or]
      -- The page of this round and the interval of the later rounds make up
      -- the interval of all of them.
      refine congrArg₂ _ (decide_eq_decide.2 ?_) rfl
      rw [Finset.mem_Ico, Finset.mem_Ico]
      omega

/-- A run of pages below `max_pages` has page numbers that do not wrap. -/
theorem lockPages_fits {addr count : UInt64}
    (hrange : ∀ i < count.toNat, pageOf addr + i < s.maxPages.toNat) :
    (addr / pageSize).toNat + (0 : UInt64).toNat + count.toNat < 2 ^ 64 := by
  have haddr := addr.toNat_lt
  have hfits := s.fits
  have hpage : pageOf addr = addr.toNat / 4096 := rfl
  rw [pageOf_eq, UInt64.toNat_zero]
  rcases Nat.eq_zero_or_pos count.toNat with hzero | hpos
  · omega
  · have hlast := hrange (count.toNat - 1) (by omega)
    omega

theorem freePages_pmmLockPages {addr count : UInt64}
    (hrange : ∀ i < count.toNat, pageOf addr + i < s.maxPages.toNat) :
    (s.pmmLockPages addr count).freePages =
      s.freePages \ Finset.Ico (pageOf addr) (pageOf addr + count.toNat) := by
  have hfit := lockPages_fits hrange
  ext p
  rw [mem_freePages, Finset.mem_sdiff, mem_freePages, pmmLockPages,
    lockLoop_maxPages, lockLoop_mem _ _ _ _ _ hfit, pageOf_eq]
  simp only [UInt64.toNat_zero, Nat.add_zero, Bool.or_eq_false_iff,
    decide_eq_false_iff_not]
  tauto

/-- The scan stops at the least free page, locks it and answers its address;
with no free page it answers `nullptr` and has written nothing. -/
theorem allocLoop_spec (s : Pmm) (n : Nat) :
    ∀ i : UInt64, i.toNat + n = s.maxPages.toNat →
      (∀ p ∈ s.freePages, i.toNat ≤ p) →
      (s.freePages = ∅ ∧ s.allocLoop n i = (s, 0)) ∨
        ∃ page : UInt64, IsLeast (s.freePages : Set Nat) page.toNat ∧
          s.allocLoop n i = (s.lockPage page, page * pageSize) := by
  induction n with
  | zero =>
      intro i hi hlow
      left
      refine ⟨Finset.eq_empty_of_forall_notMem fun p hp => ?_, rfl⟩
      have hlt := (mem_freePages.1 hp).1
      have hge := hlow p hp
      omega
  | succ n ih =>
      intro i hi hlow
      have hmax := s.maxPages.toNat_lt
      by_cases hbit : s.getBit i = true
      · -- A page in use: no free page is here, so the bound moves up.
        have hi' : (i + 1).toNat = i.toNat + 1 := by
          rw [UInt64.toNat_add, show (1 : UInt64).toNat = 1 from rfl]
          omega
        have hlow' : ∀ p ∈ s.freePages, (i + 1).toNat ≤ p := by
          intro p hp
          have hge := hlow p hp
          have hne : p ≠ i.toNat := by
            intro h
            have hclear := (mem_freePages.1 hp).2
            rw [h] at hclear
            exact absurd (hbit.symm.trans hclear) (by decide)
          omega
        have hstep : s.allocLoop (n + 1) i = s.allocLoop n (i + 1) := by
          simp [allocLoop, hbit]
        rw [hstep]
        exact ih (i + 1) (by omega) hlow'
      · right
        have hclear : s.getBit i = false := by simpa using hbit
        refine ⟨i, ⟨?_, hlow⟩, ?_⟩
        · exact mem_freePages.2 ⟨by omega, hclear⟩
        · simp [allocLoop, lockPage, hclear]

theorem allocPage_spec (s : Pmm) :
    (s.freePages = ∅ ∧ s.allocPage = (s, 0)) ∨
      ∃ page : UInt64, IsLeast (s.freePages : Set Nat) page.toNat ∧
        s.allocPage = (s.lockPage page, page * pageSize) :=
  allocLoop_spec s s.maxPages.toNat 0 (by simp) (by simp)

/-- The address of a page below `max_pages` does not wrap. -/
theorem toNat_mul_pageSize {page : UInt64} (h : page.toNat ∈ s.freePages) :
    (page * pageSize).toNat = page.toNat * 4096 := by
  have hlt := (mem_freePages.1 h).1
  have hfits := s.fits
  have hmul : page.toNat * 4096 < 2 ^ 64 := by omega
  rw [UInt64.toNat_mul, show pageSize.toNat = 4096 from rfl,
    Nat.mod_eq_of_lt hmul]

/-! ## Calls and traces of calls -/

theorem step_allocPage {s s' : Pmm} {ret : UInt64}
    (h : s.Step (.allocPage ret) s') :
    (s.freePages = ∅ ∧ ret = 0 ∧ s' = s) ∨
      ∃ page : UInt64, IsLeast (s.freePages : Set Nat) page.toNat ∧
        ret = page * pageSize ∧ s' = s.lockPage page := by
  have halloc : s.allocPage = (s', ret) := h
  rcases allocPage_spec s with ⟨hempty, hnone⟩ | ⟨page, hleast, hsome⟩
  · rw [hnone, Prod.mk.injEq] at halloc
    exact .inl ⟨hempty, halloc.2.symm, halloc.1.symm⟩
  · rw [hsome, Prod.mk.injEq] at halloc
    exact .inr ⟨page, hleast, halloc.2.symm, halloc.1.symm⟩

/-- One call does to the free set what `PageSet.Step` says. -/
theorem step_refines {s s' : Pmm} {call : Call} (h : s.Step call s') :
    PageSet.Step s.freePages call s'.freePages := by
  cases call with
  | allocPage ret =>
      rcases step_allocPage h with ⟨hempty, hret, rfl⟩ | ⟨page, hleast, rfl, rfl⟩
      · exact .inr ⟨hempty, hret, rfl⟩
      · left
        refine ⟨page.toNat, hleast, ?_, ?_⟩
        · rw [toNat_mul_pageSize (Finset.mem_coe.1 hleast.1)]
        · rw [freePages_lockPage]
  | freePage addr =>
      obtain ⟨hpage, rfl⟩ := h
      exact freePages_freePage hpage
  | pmmLockPages addr count =>
      obtain ⟨hrange, rfl⟩ := h
      exact freePages_pmmLockPages hrange

@[simp] theorem pmmLockPages_maxPages (s : Pmm) (addr count : UInt64) :
    (s.pmmLockPages addr count).maxPages = s.maxPages :=
  lockLoop_maxPages _ _ _ _

theorem step_maxPages {s s' : Pmm} {call : Call} (h : s.Step call s') :
    s'.maxPages = s.maxPages := by
  cases call with
  | allocPage ret =>
      rcases step_allocPage h with ⟨-, -, rfl⟩ | ⟨page, -, -, rfl⟩
      · rfl
      · exact lockPage_maxPages s page
  | freePage addr => rw [h.2, freePage_maxPages]
  | pmmLockPages addr count => rw [h.2, pmmLockPages_maxPages]

/-- No call touches a bit beyond `max_pages`. -/
theorem step_frame {s s' : Pmm} {call : Call} (h : s.Step call s') {q : Nat}
    (hq : s.maxPages.toNat ≤ q) :
    packedMem s'.bitmap q = packedMem s.bitmap q := by
  cases call with
  | allocPage ret =>
      rcases step_allocPage h with ⟨-, -, rfl⟩ | ⟨page, hleast, -, rfl⟩
      · rfl
      · have hlt := (mem_freePages.1 (Finset.mem_coe.1 hleast.1)).1
        have hne : q ≠ page.toNat := by omega
        rw [lockPage_mem]
        simp [hne]
  | freePage addr =>
      obtain ⟨hpage, rfl⟩ := h
      have hne : q ≠ pageOf addr := by omega
      rw [freePage_mem]
      simp [hne]
  | pmmLockPages addr count =>
      obtain ⟨hrange, rfl⟩ := h
      rw [pmmLockPages, lockLoop_mem _ _ _ _ _ (lockPages_fits hrange),
        pageOf_eq]
      have hout : ¬ (pageOf addr ≤ q ∧ q < pageOf addr + count.toNat) := by
        intro hrange
        obtain ⟨hge, hlt⟩ := hrange
        have hlast := hrange (q - pageOf addr) (by omega)
        omega
      simp [hout]

theorem trace_refines {s s' : Pmm} {calls : List Call}
    (h : Trace Step s calls s') :
    Trace PageSet.Step s.freePages calls s'.freePages := by
  obtain ⟨F, htrace, rfl⟩ := h.simulate (R := fun s F => s.freePages = F)
    (fun s F call s' hF hstep =>
      ⟨s'.freePages, by rw [← hF]; exact step_refines hstep, rfl⟩) rfl
  exact htrace

theorem trace_frame {s s' : Pmm} {calls : List Call}
    (h : Trace Step s calls s') {q : Nat} (hq : s.maxPages.toNat ≤ q) :
    packedMem s'.bitmap q = packedMem s.bitmap q := by
  have hinv := h.invariant
    (I := fun t => t.maxPages = s.maxPages ∧
      packedMem t.bitmap q = packedMem s.bitmap q)
    (fun t call t' ht hstep =>
      ⟨(step_maxPages hstep).trans ht.1,
        (step_frame hstep (by rw [ht.1]; exact hq)).trans ht.2⟩) ⟨rfl, rfl⟩
  exact hinv.2

end Pmm

/-! ## A page in use stays in use until it is freed -/

theorem PageSet.notMem_until {F F' : Finset Nat} {calls : List Call} {p : Nat}
    (h : Trace PageSet.Step F calls F') (hp : p ∉ F) :
    p ∉ F' ∨ ∃ call ∈ calls, ∃ addr, call = .freePage addr ∧ pageOf addr = p := by
  refine h.until_label (P := fun G => p ∉ G) ?_ hp
  intro G call G' hG hstep
  cases call with
  | allocPage ret =>
      left
      rcases hstep with ⟨m, -, -, rfl⟩ | ⟨-, -, rfl⟩
      · exact fun hmem => hG (Finset.mem_of_mem_erase hmem)
      · exact hG
  | freePage addr =>
      have hstep : G' = insert (pageOf addr) G := hstep
      by_cases hpage : pageOf addr = p
      · exact .inr ⟨addr, rfl, hpage⟩
      · left
        rw [hstep, Finset.mem_insert]
        intro hmem
        rcases hmem with heq | hmem
        · exact hpage heq.symm
        · exact hG hmem
  | pmmLockPages addr count =>
      have hstep : G' = G \ Finset.Ico _ _ := hstep
      left
      rw [hstep]
      exact fun hmem => hG (Finset.mem_sdiff.1 hmem).1

/-- A page that is not free is answered by a later `alloc_page` only if some
`free_page` in between named it. -/
theorem Pmm.freed_before_alloc {s t t' : Pmm} {calls : List Call} {ret : UInt64}
    (hpage : pageOf ret ∉ s.freePages) (htrace : Trace Pmm.Step s calls t)
    (hfree : t.freePages.Nonempty) (halloc : t.Step (.allocPage ret) t') :
    ∃ addr, .freePage addr ∈ calls ∧ pageOf addr = pageOf ret := by
  rcases PageSet.notMem_until (Pmm.trace_refines htrace) hpage with hnot | hfound
  · rcases Pmm.step_refines halloc with ⟨m, hleast, hret, -⟩ | ⟨hempty, -, -⟩
    · have hm : pageOf ret = m := by
        rw [pageOf, hret]
        omega
      rw [hm] at hnot
      exact absurd hleast.1 hnot
    · exact absurd hempty hfree.ne_empty
  · obtain ⟨call, hmem, addr, rfl, haddr⟩ := hfound
    exact ⟨addr, hmem, haddr⟩

/-- The bitmap allocator refines the set of free pages, from any bitmap: every
trace of calls is a trace of `PageSet.Step` with the same answers, and no bit
beyond `max_pages` moves. Hence a page `alloc_page` has handed out is handed
out again only after a `free_page` of it, and so is a page that was locked. -/
theorem pmm_refines_pageSet :
    (∀ {s s' : Pmm} {calls : List Call}, Trace Pmm.Step s calls s' →
      Trace PageSet.Step s.freePages calls s'.freePages ∧
        ∀ q, s.maxPages.toNat ≤ q →
          packedMem s'.bitmap q = packedMem s.bitmap q) ∧
    (∀ {s₁ s₂ s₃ s₄ : Pmm} {calls : List Call} {ret : UInt64},
      s₁.freePages.Nonempty → s₁.Step (.allocPage ret) s₂ →
      Trace Pmm.Step s₂ calls s₃ →
      s₃.freePages.Nonempty → s₃.Step (.allocPage ret) s₄ →
      ∃ addr, .freePage addr ∈ calls ∧ pageOf addr = pageOf ret) ∧
    (∀ {s₁ s₂ s₃ s₄ : Pmm} {calls : List Call} {addr count ret : UInt64},
      s₁.Step (.pmmLockPages addr count) s₂ → Trace Pmm.Step s₂ calls s₃ →
      s₃.freePages.Nonempty → s₃.Step (.allocPage ret) s₄ →
      pageOf ret ∈ Finset.Ico (pageOf addr) (pageOf addr + count.toNat) →
      ∃ a, .freePage a ∈ calls ∧ pageOf a = pageOf ret) := by
  refine ⟨fun h => ⟨Pmm.trace_refines h, fun q hq => Pmm.trace_frame h hq⟩,
    ?_, ?_⟩
  · intro s₁ s₂ s₃ s₄ calls ret hfree halloc htrace hfree' halloc'
    refine Pmm.freed_before_alloc ?_ htrace hfree' halloc'
    rcases Pmm.step_refines halloc with ⟨m, -, hret, hF⟩ | ⟨hempty, -, -⟩
    · have hm : pageOf ret = m := by
        rw [pageOf, hret]
        omega
      rw [hF, hm]
      exact Finset.notMem_erase m _
    · exact absurd hempty hfree.ne_empty
  · intro s₁ s₂ s₃ s₄ calls addr count ret hlock htrace hfree halloc hrange
    refine Pmm.freed_before_alloc ?_ htrace hfree halloc
    have hF : s₂.freePages = s₁.freePages \ Finset.Ico _ _ :=
      Pmm.step_refines hlock
    rw [hF, Finset.mem_sdiff]
    exact fun h => h.2 hrange

/-- Four pages of clear bits: page 0 is handed out, freed and handed out
again, and page 1, once locked with page 0, is freed before it is. -/
theorem pmm_refines_pageSet_four_pages :
    (∃ addr, .freePage addr ∈ [Call.freePage 0] ∧ pageOf addr = pageOf 0) ∧
      ∃ addr, .freePage addr ∈ [Call.freePage 4096] ∧
        pageOf addr = pageOf 4096 := by
  let s := pmmInit (fun _ => 0) 16384
  let t := s.pmmLockPages 0 2
  have hrange : ∀ i < (2 : UInt64).toNat, pageOf 0 + i < 4 := by decide
  refine ⟨?_, ?_⟩
  · let u := s.allocPage.1.freePage 0
    have hgive : Trace Pmm.Step s.allocPage.1 [.freePage 0] u :=
      .cons ⟨by decide, rfl⟩ (.nil u)
    have hfirst : s.Step (.allocPage 0) s.allocPage.1 :=
      Prod.ext rfl (by decide)
    have hsecond : u.Step (.allocPage 0) u.allocPage.1 :=
      Prod.ext rfl (by decide)
    exact pmm_refines_pageSet.2.1 ⟨0, by decide⟩ hfirst hgive ⟨0, by decide⟩
      hsecond
  · let u := t.freePage 4096
    have hlock : s.Step (.pmmLockPages 0 2) t :=
      ⟨hrange, rfl⟩
    have hgive : Trace Pmm.Step t [.freePage 4096] u :=
      .cons ⟨by decide, rfl⟩ (.nil u)
    have halloc : u.Step (.allocPage 4096) u.allocPage.1 :=
      Prod.ext rfl (by decide)
    exact pmm_refines_pageSet.2.2 hlock hgive ⟨1, by decide⟩ halloc (by decide)

end TermOS.Memory
