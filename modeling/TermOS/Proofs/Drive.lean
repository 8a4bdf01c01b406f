import TermOS.Proofs.Chains
import TermOS.Proofs.RootCluster
import TermOS.Ref.Fat32Access

/-!
# Which drive a session works on

`fat32_init` takes the layout of the volume from the drive it is given and
forgets which drive that was; every access after it is to drive 1. The list
of accesses is also what bounds the effect of a call: a sector it does not
write is what it was.
-/

namespace TermOS.Storage

open TermOS.Lib
open TermOS.Console (Ostream)

/-- All accesses are to one drive. -/
def OnDrive (d : UInt8) (accesses : List Access) : Prop :=
  ∀ a ∈ accesses, a.drive = d

theorem OnDrive.nil (d : UInt8) : OnDrive d [] := fun _ ha => nomatch ha

theorem OnDrive.append {d : UInt8} {as bs : List Access} (ha : OnDrive d as)
    (hb : OnDrive d bs) : OnDrive d (as ++ bs) := fun a h =>
  (List.mem_append.1 h).elim (ha a) (hb a)

theorem onDrive_access (disk : DiskManager) (d : UInt8) (lba : UInt32)
    (isWrite : Bool) : OnDrive d (disk.access d lba isWrite) := by
  intro a ha
  rw [DiskManager.access] at ha
  split at ha
  · cases ha
  · rw [List.mem_singleton.1 ha]

namespace Fs

variable {fs : Fs} {lba : UInt32} {isWrite : Bool} {name : Str}
  {uninit : Sector} {cs : List Str} {path : Str}

theorem access_ready (h : fs.Ready) :
    fs.diskMgr.access 1 lba isWrite = [⟨1, lba, isWrite⟩] :=
  if_neg (UInt8.not_le.2 h)

theorem access_not_ready (h : ¬ fs.Ready) :
    fs.diskMgr.access 1 lba isWrite = [] := if_pos (UInt8.not_lt.1 h)

theorem onDrive_findFree (fs : Fs) (is : List Nat) :
    OnDrive 1 (fs.findFreeAccesses is) := by
  induction is with
  | nil => exact .nil 1
  | cons i is ih =>
      rw [findFreeAccesses]
      refine (onDrive_access _ _ _ _).append ?_
      split
      · exact .nil 1
      · split
        · exact .nil 1
        · exact ih

theorem onDrive_cdComponent (fs : Fs) (component : Str) :
    OnDrive 1 (fs.cdComponentAccesses component) := by
  rw [cdComponentAccesses]
  split
  · rw [getParentAccesses]
    split
    · exact .nil 1
    · exact onDrive_access _ _ _ _
  · split
    · exact .nil 1
    · exact onDrive_access _ _ _ _

theorem onDrive_cdLoop (fs : Fs) (cs : List Str) :
    OnDrive 1 (fs.cdLoopAccesses cs) := by
  induction cs generalizing fs with
  | nil => exact .nil 1
  | cons c cs ih =>
      rw [cdLoopAccesses]
      refine (onDrive_cdComponent fs c).append ?_
      split
      · exact .nil 1
      · exact ih _

theorem onDrive_mkdir (fs : Fs) (name : Str) (uninit : Sector) :
    OnDrive 1 (fs.mkdirAccesses name uninit) := by
  rw [mkdirAccesses]
  refine (onDrive_access _ _ _ _).append ?_
  split
  · exact .nil 1
  · refine (onDrive_access _ _ _ _).append ?_
    split
    · exact .nil 1
    · refine (onDrive_findFree _ _).append ?_
      split
      · exact .nil 1
      · refine OnDrive.append (OnDrive.append ?_ (onDrive_access _ _ _ _)) ?_
        · exact (onDrive_access _ _ _ _).append (onDrive_access _ _ _ _)
        · split
          · exact .nil 1
          · exact onDrive_access _ _ _ _

end Fs

/-- Every access of every call is to drive 1. -/
theorem Call.onDrive (fs : Fs) (call : Call) :
    OnDrive 1 (call.accesses fs) := by
  cases call with
  | ls uninit => exact onDrive_access _ _ _ _
  | findFile name => exact onDrive_access _ _ _ _
  | cat filename uninit beyond =>
      rw [accesses, Fs.catAccesses]
      refine (onDrive_access _ _ _ _).append ?_
      split
      · exact .nil 1
      · split
        · exact .nil 1
        · exact onDrive_access _ _ _ _
  | op o =>
      cases o with
      | cd path => exact Fs.onDrive_cdLoop _ _
      | mkdir name uninit => exact Fs.onDrive_mkdir fs name uninit
      | touch name uninit =>
          rw [accesses, Fs.touchAccesses]
          refine (onDrive_access _ _ _ _).append ?_
          split
          · exact .nil 1
          · exact onDrive_access _ _ _ _
      | rm filename uninit =>
          rw [accesses, Fs.rmAccesses]
          refine (onDrive_access _ _ _ _).append ?_
          split
          · exact .nil 1
          · exact onDrive_access _ _ _ _

/-! ## What is not written stays -/

namespace Fs

variable {fs : Fs} {name : Str} {uninit : Sector}

theorem diskMgr_cd (fs : Fs) (path : Str) :
    (fs.cd path).diskMgr = fs.diskMgr := by
  obtain ⟨c, currentPath, cerr, heq⟩ := cd_stays fs path
  rw [heq]

/-- The writes of a `mkdir` that takes a cluster. -/
theorem mem_mkdirAccesses (h : fs.Takes name) :
    ⟨1, fs.fatSector fs.findFreeCluster, true⟩ ∈ fs.mkdirAccesses name uninit ∧
      ⟨1, fs.getSectorByCluster fs.findFreeCluster, true⟩ ∈
        fs.mkdirAccesses name uninit ∧
      (fs.freeSlot ≠ none →
        ⟨1, fs.getSectorByCluster fs.currentDirCluster, true⟩ ∈
          fs.mkdirAccesses name uninit) := by
  obtain ⟨hready, hnone, hzero⟩ := h
  have hplace : fs.SamePlace (fs.updateFat uninit fs.findFreeCluster 0x0FFFFFFF) :=
    samePlace_updateFat uninit _ _
  have hready' := hready.samePlace hplace
  rw [freeSlot, currentSector]
  simp only [mkdirAccesses, hnone, read_ready hready, if_neg hzero,
    updateFatAccesses, access_ready hready, access_ready hready', hplace.sector]
  refine ⟨by simp [fatSector], by simp, fun hslot => ?_⟩
  cases hfree : firstSlot fun i => (dirEntry (fs.diskMgr.sectors 1
      (fs.getSectorByCluster fs.currentDirCluster)) i).isFree with
  | none => exact absurd hfree hslot
  | some i => simp

theorem sectors_put_of_ne {drive : UInt8} {lba lba' : UInt32} (s : Sector)
    (h : ¬ (drive = 1 ∧ lba = lba')) :
    (fs.put lba' s).diskMgr.sectors drive lba =
      fs.diskMgr.sectors drive lba := by
  by_cases hdrive : drive = 1
  · have hlba : lba ≠ lba' := fun hlba => h ⟨hdrive, hlba⟩
    simp [put, hdrive, hlba]
  · simp [put, hdrive]

/-- A sector that is not in a list of accesses as written. -/
theorem not_written {drive : UInt8} {lba lba' : UInt32} {as : List Access}
    (hnot : ⟨drive, lba, true⟩ ∉ as) (hmem : ⟨1, lba', true⟩ ∈ as) :
    ¬ (drive = 1 ∧ lba = lba') := by
  rintro ⟨rfl, rfl⟩
  exact hnot hmem

theorem sectors_mkdir {drive : UInt8} {lba : UInt32}
    (hnot : ⟨drive, lba, true⟩ ∉ fs.mkdirAccesses name uninit) :
    (fs.mkdir name uninit).diskMgr.sectors drive lba =
      fs.diskMgr.sectors drive lba := by
  rcases mkdir_outcomes fs name uninit with ⟨-, m, heq⟩ | ⟨htakes, hrest⟩
  · rw [heq]
    rfl
  · obtain ⟨hfat, hnew, hcurrent⟩ := @mem_mkdirAccesses fs name uninit htakes
    have hmade : (fs.made uninit).diskMgr.sectors drive lba =
        fs.diskMgr.sectors drive lba := by
      rw [made_ready htakes.1, sectors_put_of_ne _ (not_written hnot hnew),
        sectors_put_of_ne _ (not_written hnot hfat)]
    rcases hrest with ⟨-, m, heq⟩ | ⟨i, hi, heq⟩
    · rw [heq]
      exact hmade
    · have hslot : fs.freeSlot ≠ none := by
        rw [hi]
        exact Option.some_ne_none i
      rw [heq, sectors_put_of_ne _ (not_written hnot (hcurrent hslot)), hmade]

/-- A write behind some reads. -/
theorem sectors_write_last {drive : UInt8} {lba target : UInt32}
    {s : Sector} {as : List Access}
    (hnot : ⟨drive, lba, true⟩ ∉ as ++ fs.diskMgr.access 1 target true) :
    (fs.write target s).2.diskMgr.sectors drive lba =
      fs.diskMgr.sectors drive lba := by
  by_cases hready : fs.Ready
  · rw [access_ready hready] at hnot
    rw [write_ready hready]
    exact sectors_put_of_ne _ (not_written hnot
      (List.mem_append_right _ (List.mem_singleton.2 rfl)))
  · rw [write_not_ready hready]

theorem sectors_touch {drive : UInt8} {lba : UInt32}
    (hnot : ⟨drive, lba, true⟩ ∉ fs.touchAccesses uninit) :
    (fs.touch name uninit).diskMgr.sectors drive lba =
      fs.diskMgr.sectors drive lba := by
  rw [touchAccesses] at hnot
  rw [touch]
  split
  · rfl
  · next i hi =>
      rw [hi] at hnot
      exact sectors_write_last hnot

theorem sectors_rm {drive : UInt8} {lba : UInt32}
    (hnot : ⟨drive, lba, true⟩ ∉ fs.rmAccesses name uninit) :
    (fs.rm name uninit).diskMgr.sectors drive lba =
      fs.diskMgr.sectors drive lba := by
  rw [rmAccesses] at hnot
  rw [rm]
  split
  · rfl
  · next i hi =>
      rw [hi] at hnot
      exact sectors_write_last hnot

theorem cat_fst_diskMgr (fs : Fs) (cout : Ostream) (filename : Str)
    (uninit : Sector) (beyond : Nat → UInt8) :
    (fs.cat cout filename uninit beyond).1.diskMgr = fs.diskMgr := by
  rw [cat]
  split
  · rfl
  · split <;> rfl

end Fs

/-- A sector that a call does not write is what it was. -/
theorem Call.sectors_run {s : Fs × Ostream} {call : Call} {drive : UInt8}
    {lba : UInt32} (hnot : ⟨drive, lba, true⟩ ∉ call.accesses s.1) :
    (call.run s).1.diskMgr.sectors drive lba =
      s.1.diskMgr.sectors drive lba := by
  cases call with
  | ls uninit => rfl
  | findFile name => rfl
  | cat filename uninit beyond => rw [run, Fs.cat_fst_diskMgr]
  | op o =>
      cases o with
      | cd path => rw [run, Fs.perform, Fs.diskMgr_cd]
      | mkdir name uninit =>
          rw [accesses] at hnot
          rw [run, Fs.perform, Fs.sectors_mkdir hnot]
      | touch name uninit =>
          rw [accesses] at hnot
          rw [run, Fs.perform, Fs.sectors_touch hnot]
      | rm filename uninit =>
          rw [accesses] at hnot
          rw [run, Fs.perform, Fs.sectors_rm hnot]

/-! ## Calls that look at no disk -/

namespace Fs

variable {fs : Fs} {cs : List Str}

/-- A component that `fat32_cd` passes without a look at the disk: `.`, or
`..` in cluster 2. -/
def Silent (fs : Fs) (component : Str) : Prop :=
  component = lit "." ∨ (component = lit ".." ∧ fs.currentDirCluster = 2)

theorem silent_or_read (h : fs.Ready) (component : Str) :
    (fs.Silent component ∧ fs.cdComponentAccesses component = [] ∧
        fs.cdComponent component = .ok fs) ∨
      (¬ fs.Silent component ∧ fs.cdComponentAccesses component ≠ []) := by
  have hread : fs.readCurrent ≠ [] := by
    rw [readCurrent, access_ready h]
    exact List.cons_ne_nil _ _
  rw [cdComponentAccesses, cdComponent, Silent]
  by_cases hdotdot : component = lit ".."
  · have hdot : component ≠ lit "." := by
      rw [hdotdot]
      decide
    rw [if_pos hdotdot, if_pos hdotdot, getParentAccesses]
    by_cases hroot : fs.currentDirCluster = 2
    · have hparent : fs.getParentCluster = 0 := by
        rw [getParentCluster, if_pos hroot]
      rw [if_pos hroot]
      refine .inl ⟨.inr ⟨hdotdot, hroot⟩, rfl, ?_⟩
      simp only [hparent, ne_eq, not_true, if_false]
    · rw [if_neg hroot]
      exact .inr ⟨fun h => h.elim hdot fun hboth => hroot hboth.2, hread⟩
  · rw [if_neg hdotdot, if_neg hdotdot]
    by_cases hdot : component = lit "."
    · rw [if_pos hdot, if_pos hdot]
      exact .inl ⟨.inl hdot, rfl, rfl⟩
    · rw [if_neg hdot]
      exact .inr ⟨fun h => h.elim hdot fun hboth => hdotdot hboth.1, hread⟩

theorem cdLoopAccesses_eq_nil (h : fs.Ready) (cs : List Str) :
    fs.cdLoopAccesses cs = [] ↔ ∀ c ∈ cs, fs.Silent c := by
  induction cs with
  | nil => exact iff_of_true rfl fun _ hc => nomatch hc
  | cons c cs ih =>
      rw [cdLoopAccesses, List.append_eq_nil_iff, List.forall_mem_cons]
      rcases silent_or_read h c with ⟨hsilent, hnil, hok⟩ | ⟨hloud, hread⟩
      · rw [hok]
        exact ⟨fun hboth => ⟨hsilent, ih.1 hboth.2⟩,
          fun hboth => ⟨hnil, ih.2 hboth.2⟩⟩
      · exact iff_of_false (fun hboth => hread hboth.1)
          fun hboth => hloud hboth.1

theorem cdLoopAccesses_not_ready (h : ¬ fs.Ready) (cs : List Str) :
    fs.cdLoopAccesses cs = [] := by
  have hread : fs.readCurrent = [] := access_not_ready h
  induction cs generalizing fs with
  | nil => rfl
  | cons c cs ih =>
      rw [cdLoopAccesses, cdComponentAccesses, getParentAccesses,
        findFileAccesses, hread]
      simp only [ite_self, List.nil_append]
      cases hround : fs.cdComponent c with
      | error m => rfl
      | ok fs' =>
          have hdisk : fs'.diskMgr = fs.diskMgr := by
            rcases cdComponent_cases hround with rfl | ⟨-, rfl⟩ |
              ⟨-, -, e, -, -, rfl⟩ <;> rfl
          have hnot : ¬ fs'.Ready := by
            rw [Ready, hdisk]
            exact h
          exact ih hnot (access_not_ready hnot)

/-- `cd` gives up or passes all components. -/
theorem ready_cdStart (fs : Fs) (path : Str) :
    (fs.cdStart path).1.Ready ↔ fs.Ready := by
  rw [cdStart]
  split <;> exact Iff.rfl

end Fs

namespace Call

variable {fs : Fs} {call : Call}

/-- The call looks at the disk, if it is there. -/
def Looks (fs : Fs) : Call → Prop
  | .op (.cd path) => ¬ ∀ c ∈ components (fs.cdStart path).2,
      (fs.cdStart path).1.Silent c
  | _ => True

theorem accesses_not_ready (h : ¬ fs.Ready) (call : Call) :
    call.accesses fs = [] := by
  have hread : fs.readCurrent = [] := Fs.access_not_ready h
  cases call with
  | ls uninit => exact hread
  | findFile name => exact hread
  | cat filename uninit beyond =>
      rw [accesses, Fs.catAccesses, hread, Fs.read_not_ready h]
      rfl
  | op o =>
      cases o with
      | cd path =>
          exact Fs.cdLoopAccesses_not_ready
            (fun hstart => h ((Fs.ready_cdStart fs path).1 hstart)) _
      | mkdir name uninit =>
          rw [accesses, Fs.mkdirAccesses, Fs.findFileAccesses, hread,
            Fs.findFile_not_ready h]
          simp only [Fs.access_not_ready h, Fs.read_not_ready h,
            List.append_nil]
      | touch name uninit =>
          rw [accesses, Fs.touchAccesses, hread]
          simp only [Fs.access_not_ready h]
          split <;> rfl
      | rm filename uninit =>
          rw [accesses, Fs.rmAccesses, hread]
          simp only [Fs.access_not_ready h]
          split <;> rfl

theorem accesses_eq_nil_iff (fs : Fs) (call : Call) :
    call.accesses fs = [] ↔ ¬ fs.Ready ∨ ¬ call.Looks fs := by
  by_cases h : fs.Ready
  · have hread : fs.readCurrent ≠ [] := by
      rw [Fs.readCurrent, Fs.access_ready h]
      exact List.cons_ne_nil _ _
    rw [or_iff_right (not_not.2 h)]
    -- All calls but `cd` begin with a read of the current directory.
    have hlooks : ∀ as, call.accesses fs = fs.readCurrent ++ as →
        call.Looks fs → (call.accesses fs = [] ↔ ¬ call.Looks fs) := by
      intro as heq hlooks
      refine iff_of_false (fun hnil => ?_) (not_not.2 hlooks)
      rw [heq, List.append_eq_nil_iff] at hnil
      exact hread hnil.1
    cases call with
    | ls uninit => exact hlooks [] (List.append_nil _).symm trivial
    | findFile name => exact hlooks [] (List.append_nil _).symm trivial
    | cat filename uninit beyond => exact hlooks _ rfl trivial
    | op o =>
        cases o with
        | cd path =>
            rw [Looks, not_not]
            exact Fs.cdLoopAccesses_eq_nil ((Fs.ready_cdStart fs path).2 h) _
        | mkdir name uninit => exact hlooks _ rfl trivial
        | touch name uninit => exact hlooks _ rfl trivial
        | rm filename uninit => exact hlooks _ rfl trivial
  · exact iff_of_true (accesses_not_ready h call) (.inl h)

/-- A call from `s` to `s'` that has read and written sectors of one drive
only, and has changed no sector of another. -/
structure KeepsTo (d : UInt8) (s : Fs × Ostream) (call : Call)
    (s' : Fs × Ostream) : Prop where
  accesses : OnDrive d (call.accesses s.1)
  others : ∀ drive ≠ d,
    s'.1.diskMgr.sectors drive = s.1.diskMgr.sectors drive

theorem keepsTo_iff {d : UInt8} {s s' : Fs × Ostream}
    (hstep : call.Step s s') :
    call.KeepsTo d s s' ↔ d = 1 ∨ ¬ s.1.Ready ∨ ¬ call.Looks s.1 := by
  obtain rfl : s' = call.run s := hstep
  rw [← accesses_eq_nil_iff]
  have hone := call.onDrive s.1
  refine ⟨?_, ?_⟩
  · intro h
    rcases List.eq_nil_or_concat (call.accesses s.1) with hnil | ⟨as, a, heq⟩
    · exact .inr hnil
    · have hmem : a ∈ call.accesses s.1 := by simp [heq]
      exact .inl ((h.accesses a hmem).symm.trans (hone a hmem))
  · intro h
    have hdrive : OnDrive d (call.accesses s.1) := by
      rcases h with rfl | hnil
      · exact hone
      · rw [hnil]
        exact .nil d
    refine ⟨hdrive, fun drive hne => funext fun lba => sectors_run ?_⟩
    exact fun hmem => hne (hdrive _ hmem)

end Call

/-- Behind a `fat32_init` of drive `d`, a session keeps to drive `d` at every
call if and only if `d` is 1, or there is no drive 1, or the call is a `cd`
that looks at no directory. -/
theorem keepsTo_along_session_iff (fs : Fs) (cout : Ostream) (d : UInt8)
    (calls : List Call) (s' : Fs × Ostream) :
    Trace (Trace.Along Call.Step fun s call t => call.KeepsTo d s t)
        (fs.init cout d) calls s' ↔
      Trace (Trace.Along Call.Step fun s call _ =>
        d = 1 ∨ ¬ s.1.Ready ∨ ¬ call.Looks s.1) (fs.init cout d) calls s' :=
  Trace.along_congr (I := fun _ => True) (fun _ _ _ _ _ _ => trivial)
    (fun _ _ _ _ hstep => Call.keepsTo_iff hstep) trivial

/-- Behind `fat32_init(0)`, a file that is created is created on drive 1. -/
theorem not_keepsTo_touch :
    (unmounted 2).diskMgr.readSector 0 0 = some (bootSector 2) ∧
      Signed (bootSector 2) ∧
      ¬ Trace (Trace.Along Call.Step fun s call t => call.KeepsTo 0 s t)
        ((unmounted 2).init ⟨.dec, []⟩ 0) [.op (.touch (lit "a") zeroSector)]
        (Call.run ((unmounted 2).init ⟨.dec, []⟩ 0)
          (.op (.touch (lit "a") zeroSector))) := by
  refine ⟨rfl, signed_bootSector 2, ?_⟩
  have hready : ((unmounted 2).init ⟨.dec, []⟩ 0).1.Ready := by
    rw [Fs.init_signed rfl (signed_bootSector 2)]
    exact (by decide : (1 : UInt8) < 2)
  generalize (unmounted 2).init ⟨.dec, []⟩ 0 = start at hready ⊢
  generalize Call.run start _ = after
  intro h
  obtain _ | ⟨⟨hstep, hkeeps⟩, -⟩ := h
  rcases (Call.keepsTo_iff hstep).1 hkeeps with hd | hnot | hlooks
  · exact absurd hd (by decide)
  · exact hnot hready
  · exact hlooks trivial

end TermOS.Storage
