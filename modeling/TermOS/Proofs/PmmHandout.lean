import TermOS.Proofs.PmmAccount

/-!
# What `alloc_page` may hand out

Two laws about the free set at the start of a run. `alloc_page` answers from
the free set and `free_page` alone puts pages into it, so every page handed out
was released by the caller exactly if the run starts with no free page; the
last, partial byte of the bitmap, which `pmm_init` does not write, decides
that. The other law is about `nullptr`: it is the error value and the address
of page 0 as well, so it means that no page is free exactly as long as page 0
is not one of the free pages.
-/

namespace TermOS.Memory

open TermOS.Lib

namespace Pmm

variable {s s' : Pmm} {mem : Nat → UInt8} {totalMemory ret : UInt64}
  {calls : List Call} {p : Nat}

/-! ## Pages that were never released -/

theorem freePages_eq_empty_iff : s.freePages = ∅ ↔
    ∀ p < s.maxPages.toNat, packedMem s.bitmap p = true := by
  rw [Finset.eq_empty_iff_forall_notMem]
  refine forall_congr' fun p => ?_
  rw [mem_freePages, not_and, Bool.not_eq_false]

/-- The pages of the partial byte of the bitmap were marked before. -/
def PartialByteSet (mem : Nat → UInt8) (totalMemory : UInt64) : Prop :=
  ∀ p, 8 * (totalMemory.toNat / 4096 / 8) ≤ p → p < totalMemory.toNat / 4096 →
    packedMem mem p = true

theorem freePages_pmmInit_eq_empty_iff :
    (pmmInit mem totalMemory).freePages = ∅ ↔
      PartialByteSet mem totalMemory := by
  rw [Finset.eq_empty_iff_forall_notMem]
  refine forall_congr' fun p => ?_
  rw [mem_freePages_pmmInit, not_and, not_and, Bool.not_eq_false]
  exact forall_comm

/-- A call of `alloc_page` that answers an address or changes the state has
found a free page. -/
theorem nonempty_of_answers (h : s.Step (.allocPage ret) s')
    (hans : ret ≠ 0 ∨ s' ≠ s) : s.freePages.Nonempty := by
  rcases step_allocPage h with ⟨-, hret, hs⟩ | ⟨page, hleast, -, -⟩
  · rcases hans with hne | hne
    · exact absurd hret hne
    · exact absurd hs hne
  · exact ⟨page.toNat, Finset.mem_coe.1 hleast.1⟩

/-- In every run after `pmm_init`, the page that a call of `alloc_page` answers
has been passed to `free_page` in that run. -/
def AnswersReleased (mem : Nat → UInt8) (totalMemory : UInt64) : Prop :=
  ∀ calls s ret s', Trace Step (pmmInit mem totalMemory) calls s →
    s.Step (.allocPage ret) s' → ret ≠ 0 ∨ s' ≠ s →
    ∃ addr, .freePage addr ∈ calls ∧ pageOf addr = pageOf ret

theorem answersReleased_of_empty
    (hempty : (pmmInit mem totalMemory).freePages = ∅) :
    AnswersReleased mem totalMemory := by
  intro calls s ret s' htrace halloc hans
  refine freed_before_alloc ?_ htrace (nonempty_of_answers halloc hans) halloc
  rw [hempty]
  exact Finset.notMem_empty _

/-- A free page is handed out, and the bitmap changes. -/
theorem allocPage_of_mem (hp : p ∈ s.freePages) :
    ∃ ret s', s.Step (.allocPage ret) s' ∧ s' ≠ s := by
  rcases allocPage_spec s with ⟨hempty, -⟩ | ⟨page, hleast, hsome⟩
  · rw [hempty] at hp
    exact absurd hp (Finset.notMem_empty p)
  · refine ⟨page * pageSize, s.lockPage page, hsome, fun heq => ?_⟩
    have hfree := freePages_lockPage s page
    rw [heq] at hfree
    have hmem := Finset.mem_coe.1 hleast.1
    rw [hfree] at hmem
    exact Finset.notMem_erase _ _ hmem

theorem answersReleased_iff :
    AnswersReleased mem totalMemory ↔ PartialByteSet mem totalMemory := by
  rw [← freePages_pmmInit_eq_empty_iff]
  refine ⟨?_, ?_⟩
  · intro hreleased
    refine Finset.eq_empty_of_forall_notMem fun p hp => ?_
    obtain ⟨ret, s', halloc, hne⟩ := allocPage_of_mem hp
    obtain ⟨addr, hmem, -⟩ :=
      hreleased [] _ ret s' (.nil _) halloc (.inr hne)
    exact absurd hmem List.not_mem_nil
  · exact answersReleased_of_empty

end Pmm

/-- For every size of memory and all prior contents of the bitmap: `pmm_init`
marks every page, and no page is ever handed out that was not released after
it, if and only if the pages of the partial byte were marked before. -/
theorem pmmInit_marks_all_iff (mem : Nat → UInt8) (totalMemory : UInt64) :
    (∀ p < (pmmInit mem totalMemory).maxPages.toNat,
        packedMem (pmmInit mem totalMemory).bitmap p = true) ∧
      Pmm.AnswersReleased mem totalMemory ↔
    Pmm.PartialByteSet mem totalMemory := by
  rw [← Pmm.freePages_eq_empty_iff, Pmm.freePages_pmmInit_eq_empty_iff,
    Pmm.answersReleased_iff, and_self_iff]

/-- Nine pages over a cleared bitmap: the very first `alloc_page` hands out
page 8. -/
theorem not_pmmInit_marks_all_nine : ¬ ((∀ p <
      (pmmInit (fun _ => 0) 36864).maxPages.toNat,
        packedMem (pmmInit (fun _ => 0) 36864).bitmap p = true) ∧
      Pmm.AnswersReleased (fun _ => 0) 36864) := by
  rintro ⟨-, hreleased⟩
  let s := pmmInit (fun _ => 0) 36864
  have hfirst : s.Step (.allocPage 32768) s.allocPage.1 :=
    Prod.ext rfl (by decide)
  obtain ⟨addr, hmem, -⟩ :=
    hreleased [] s 32768 _ (.nil s) hfirst (.inl (by decide))
  exact absurd hmem List.not_mem_nil

/-! ## The two meanings of `nullptr` -/

namespace Pmm

variable {s t : Pmm} {mem : Nat → UInt8} {totalMemory : UInt64}
  {calls : List Call}

/-- The next `alloc_page` answers `nullptr` if and only if no page is free, and
then it has written nothing. -/
def NullMeansFull (s : Pmm) : Prop :=
  ∀ ret s', s.Step (.allocPage ret) s' →
    (ret = 0 ↔ ∀ p < s.maxPages.toNat, packedMem s.bitmap p = true) ∧
    (ret = 0 → s'.bitmap = s.bitmap ∧ s'.freeMemory = s.freeMemory)

/-- The address of a free page is `nullptr` for page 0 alone. -/
theorem mul_pageSize_eq_zero_iff {page : UInt64}
    (h : page.toNat ∈ s.freePages) : page * pageSize = 0 ↔ page.toNat = 0 := by
  rw [← UInt64.toNat_inj, toNat_mul_pageSize h, UInt64.toNat_zero]
  omega

theorem nullMeansFull_iff : s.NullMeansFull ↔ 0 ∉ s.freePages := by
  refine ⟨?_, ?_⟩
  · intro hnull hzero
    rcases allocPage_spec s with ⟨hempty, -⟩ | ⟨page, hleast, hsome⟩
    · rw [hempty] at hzero
      exact absurd hzero (Finset.notMem_empty 0)
    · -- Page 0 is the least of the free pages, so it is the one answered.
      have hmem := Finset.mem_coe.1 hleast.1
      have hpage : page.toNat = 0 :=
        Nat.le_zero.1 (hleast.2 (Finset.mem_coe.2 hzero))
      obtain ⟨hret, -⟩ := hnull _ _ hsome
      have hfull := hret.1 ((mul_pageSize_eq_zero_iff hmem).2 hpage)
      rw [← freePages_eq_empty_iff] at hfull
      rw [hfull] at hzero
      exact absurd hzero (Finset.notMem_empty 0)
  · intro hzero ret s' h
    rw [← freePages_eq_empty_iff]
    rcases step_allocPage h with ⟨hempty, hret, rfl⟩ | ⟨page, hleast, rfl, -⟩
    · exact ⟨iff_of_true hret hempty, fun _ => ⟨rfl, rfl⟩⟩
    · have hmem := Finset.mem_coe.1 hleast.1
      have hret : page * pageSize ≠ 0 := by
        rw [Ne, mul_pageSize_eq_zero_iff hmem]
        intro hpage
        rw [hpage] at hmem
        exact hzero hmem
      refine ⟨iff_of_false hret ?_, fun h => absurd h hret⟩
      intro hempty
      rw [hempty] at hmem
      exact absurd hmem (Finset.notMem_empty _)

/-- Page 0 is not free after `pmm_init`: there is no such page, it lies in a
byte that is filled, or it was marked before. -/
def StartsWithout0 (mem : Nat → UInt8) (totalMemory : UInt64) : Prop :=
  totalMemory.toNat / 4096 = 0 ∨ 8 ≤ totalMemory.toNat / 4096 ∨
    packedMem mem 0 = true

theorem zero_notMem_pmmInit_iff : 0 ∉ (pmmInit mem totalMemory).freePages ↔
    StartsWithout0 mem totalMemory := by
  rw [mem_freePages_pmmInit, StartsWithout0]
  cases packedMem mem 0 with
  | true => simp
  | false =>
      simp only [Bool.false_eq_true, or_false, and_true]
      omega

end Pmm

/-- In every run after `pmm_init`: `nullptr` means "no page is free" in every
state of the run if and only if page 0 was not free at its start and no call
releases it. -/
theorem null_means_full_iff {mem : Nat → UInt8} {totalMemory : UInt64}
    {calls : List Call} {s : Pmm}
    (h : Trace Pmm.Step (pmmInit mem totalMemory) calls s) :
    (∀ pre post t, calls = pre ++ post →
        Trace Pmm.Step (pmmInit mem totalMemory) pre t → t.NullMeansFull) ↔
      Pmm.StartsWithout0 mem totalMemory ∧
        ∀ addr, .freePage addr ∈ calls → pageOf addr ≠ 0 := by
  rw [← Pmm.zero_notMem_pmmInit_iff]
  refine ⟨?_, ?_⟩
  · intro hall
    refine ⟨Pmm.nullMeansFull_iff.1 (hall [] calls _ rfl (.nil _)), ?_⟩
    intro addr hmem hzero
    obtain ⟨pre, post, rfl⟩ := List.append_of_mem hmem
    obtain ⟨t, hpre, hrest⟩ := Trace.append_iff.1 h
    obtain _ | ⟨hfree, -⟩ := hrest
    have hprefix := Trace.append_iff.2 ⟨t, hpre, .cons hfree (.nil _)⟩
    have hnot := Pmm.nullMeansFull_iff.1
      (hall (pre ++ [.freePage addr]) post _ (by simp) hprefix)
    obtain ⟨hbelow, rfl⟩ := hfree
    rw [Pmm.freePages_freePage hbelow, hzero] at hnot
    exact hnot (Finset.mem_insert_self 0 _)
  · rintro ⟨hstart, hcalls⟩ pre post t rfl hpre
    rw [Pmm.nullMeansFull_iff]
    rcases PageSet.notMem_until (Pmm.trace_refines hpre) hstart with
      hnot | ⟨call, hmem, addr, rfl, hzero⟩
    · exact hnot
    · exact absurd hzero (hcalls addr (List.mem_append_left post hmem))

/-- Nothing but locks in the first 2 MiB, as the kernel does. -/
theorem null_means_full_iff_kernel :
    let s := pmmInit (fun _ => 0) 134217728
    (∀ pre post t, [Call.pmmLockPages 0 512] = pre ++ post →
        Trace Pmm.Step s pre t → t.NullMeansFull) ↔
      Pmm.StartsWithout0 (fun _ => 0) 134217728 ∧
        ∀ addr, .freePage addr ∈ [Call.pmmLockPages 0 512] →
          pageOf addr ≠ 0 := by
  intro s
  have hlock : s.Step (.pmmLockPages 0 512) (s.pmmLockPages 0 512) := by
    refine ⟨fun i hi => ?_, rfl⟩
    have hi : i < 512 := hi
    show 0 + i < 32768
    omega
  exact null_means_full_iff (.cons hlock (.nil _))

/-- Eight pages, of which page 0 alone is released: the `alloc_page` after that
answers `nullptr`, although a page was free, and marks it. -/
theorem not_null_means_full_released :
    let s := pmmInit (fun _ => 0) 32768
    Trace Pmm.Step s [.freePage 0] (s.freePage 0) ∧
      ¬ (s.freePage 0).NullMeansFull := by
  intro s
  have hfree : s.Step (.freePage 0) (s.freePage 0) := ⟨by decide, rfl⟩
  refine ⟨.cons hfree (.nil _), fun hnull => ?_⟩
  refine Pmm.nullMeansFull_iff.1 hnull ?_
  rw [Pmm.freePages_freePage (by decide)]
  exact Finset.mem_insert_self 0 _

end TermOS.Memory
