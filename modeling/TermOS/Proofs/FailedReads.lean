import TermOS.Ref.Fat32Buffers
import TermOS.Proofs.DirectoryRuns
import TermOS.Proofs.Lookup
import TermOS.Proofs.RootCluster

/-!
# Reads that fail

With its local buffers an operation of the driver does what it does without
them: a buffer that is behind a check makes no difference. So for the
operations that check every read two runs with different buffers are one. Where
`fat32_ls`, `fat32_rm`, `fat32_touch` and `fat32_update_fat` go on with a buffer
that the read has left alone, there are two buffers that tell the runs apart.
-/

namespace TermOS.Storage

open TermOS.Console (Ostream)
open TermOS.Lib (le32 record)

/-! ## The buffers behind a check -/

section Into

variable {fs : Fs} {name : Str} {buffer : Sector} {buffers : Buffers}

theorem readInto_none {d : DiskManager} {driveIdx : UInt8} {lba : UInt32}
    (h : d.readSector driveIdx lba = none) :
    d.readInto driveIdx lba buffer = (false, buffer) := by
  rw [DiskManager.readInto, h]

theorem readInto_not_ready (h : ¬ fs.Ready) (lba : UInt32)
    (buffer : Sector) : fs.diskMgr.readInto 1 lba buffer = (false, buffer) :=
  readInto_none (Fs.read_not_ready h)

theorem readInto_some {d : DiskManager} {driveIdx : UInt8} {lba : UInt32}
    {s : Sector} (h : d.readSector driveIdx lba = some s) :
    d.readInto driveIdx lba buffer = (true, s) := by
  rw [DiskManager.readInto, h]

theorem readInto_getD (d : DiskManager) (driveIdx : UInt8) (lba : UInt32) :
    (d.readInto driveIdx lba buffer).2 =
      (d.readSector driveIdx lba).getD buffer := by
  cases h : d.readSector driveIdx lba with
  | none => rw [readInto_none h, Option.getD_none]
  | some s => rw [readInto_some h, Option.getD_some]

namespace Fs

theorem findFileInto_eq : fs.findFileInto name buffer = fs.findFile name := by
  rw [findFileInto, readCurrentInto, findFile]
  cases h : fs.diskMgr.readSector 1
      (fs.getSectorByCluster fs.currentDirCluster) with
  | none => rw [readInto_none h]; rfl
  | some s => rw [readInto_some h]; rfl

theorem findFreeInto_eq (is : List Nat) :
    fs.findFreeInto buffer is = fs.findFreeFrom is := by
  induction is generalizing buffer with
  | nil => rfl
  | cons i is ih =>
      rw [findFreeInto, findFreeFrom]
      cases h : fs.diskMgr.readSector 1
          (fs.fatStartSector + UInt32.ofNat i) with
      | none => rw [readInto_none h]; rfl
      | some s =>
          rw [readInto_some h]
          simp only [if_true]
          cases freeWord s i with
          | none => exact ih
          | some j => rfl

theorem getParentInto_eq : fs.getParentInto buffer = fs.getParentCluster := by
  rw [getParentInto, getParentCluster, readCurrentInto]
  cases h : fs.diskMgr.readSector 1
      (fs.getSectorByCluster fs.currentDirCluster) with
  | none => rw [readInto_none h]; rfl
  | some s =>
      rw [readInto_some h]
      simp only [if_true]
      rfl

theorem cdComponentInto_eq (component : Str) :
    fs.cdComponentInto component buffer = fs.cdComponent component := by
  rw [cdComponent, ← @getParentInto_eq fs buffer,
    ← @findFileInto_eq fs component buffer]
  rfl

theorem cdLoopInto_eq (names : List Str) :
    fs.cdLoopInto names buffers = fs.cdLoop names := by
  induction names generalizing fs buffers with
  | nil => rfl
  | cons component rest ih =>
      rw [cdLoopInto, cdLoop, cdComponentInto_eq]
      cases fs.cdComponent component with
      | error message => rfl
      | ok fs => exact ih

end Fs

end Into

/-! ## With the buffers and without -/

namespace Session

variable {s : Session} {buffers : Buffers} {beyond : Nat → UInt8} {name : Str}

theorem ls_cout : (s.ls buffers).cout = s.fs.ls s.cout (buffers 0) := by
  rw [ls, Fs.ls, Fs.lsBuffer, Fs.readCurrentInto, readInto_getD]

theorem rm_fs : (s.rm name buffers).fs = s.fs.rm name (buffers 0) := by
  simp only [rm, Fs.rm, Fs.readCurrentInto, readInto_getD]
  generalize (s.fs.diskMgr.readSector 1
    (s.fs.getSectorByCluster s.fs.currentDirCluster)).getD (buffers 0) = b
  cases firstSlot fun i => fatNameMatch name (dirEntry b i).name <;> rfl

theorem touch_fs : (s.touch name buffers).fs = s.fs.touch name (buffers 0) := by
  simp only [touch, Fs.touch, Fs.readCurrentInto, readInto_getD]
  generalize (s.fs.diskMgr.readSector 1
    (s.fs.getSectorByCluster s.fs.currentDirCluster)).getD (buffers 0) = b
  cases firstSlot fun i => (dirEntry b i).isFree <;> rfl

theorem updateFat_fs (c v : UInt32) (buffer : Sector) :
    (s.updateFat c v buffer).fs = s.fs.updateFat buffer c v := by
  simp only [updateFat, Fs.updateFat, readInto_getD]
  rfl

theorem cat_eq : s.cat name buffers beyond =
    { s with
      fs := (s.fs.cat s.cout name (buffers 1) beyond).1
      cout := (s.fs.cat s.cout name (buffers 1) beyond).2 } := by
  rw [cat, Fs.cat, Fs.readCurrentInto]
  cases h : s.fs.diskMgr.readSector 1
      (s.fs.getSectorByCluster s.fs.currentDirCluster) with
  | none => rw [readInto_none h]; rfl
  | some t =>
      rw [readInto_some h]
      simp only [if_true, readInto_getD]
      cases firstSlot fun i => fatNameMatch name (dirEntry t i).name <;> rfl

theorem cd_eq : s.cd name buffers = { s with fs := s.fs.cd name } := by
  simp only [cd, Fs.cd, Fs.cdLoopInto_eq, Fs.cdStart]
  by_cases habs : name.headD 0 = slash
  · simp only [habs, true_and, if_true]
    by_cases hend : name.tail.headD 0 = 0
    · simp only [if_pos hend]
    · simp only [if_neg hend]
      cases Fs.cdLoop { s.fs with
        currentDirCluster := 2, currentPath := [slash] }
        (components name.tail) <;> rfl
  · simp only [habs, false_and, if_false]
    cases s.fs.cdLoop (components name) <;> rfl

theorem write_eq {lba : UInt32} {b : Sector} {ok : Bool} {fs : Fs}
    (h : s.fs.write lba b = (ok, fs)) : s.write lba b =
      (ok, { s with fs := fs, writes := s.writes ++ [⟨1, lba, b⟩] }) := by
  rw [write, h]

theorem write_rest (lba : UInt32) (b : Sector) :
    (s.write lba b).2.cout = s.cout ∧ (s.write lba b).2.found = s.found :=
  ⟨rfl, rfl⟩

theorem touch_rest (b : Buffers) :
    (s.touch name b).cout = s.cout ∧ (s.touch name b).found = s.found := by
  simp only [touch]
  generalize (s.fs.readCurrentInto (b 0)).2 = buffer
  cases firstSlot fun i => (dirEntry buffer i).isFree with
  | none => exact ⟨rfl, rfl⟩
  | some i => exact write_rest _ _

theorem updateFat_rest (c v : UInt32) (b : Sector) :
    (s.updateFat c v b).cout = s.cout ∧ (s.updateFat c v b).found = s.found :=
  write_rest _ _

theorem mkdir_fs : (s.mkdir name buffers).fs = s.fs.mkdir name (buffers 3) := by
  rw [mkdir, Fs.mkdir, Fs.findFileInto_eq]
  cases s.fs.findFile name with
  | some e => rfl
  | none =>
      simp only
      cases h : s.fs.diskMgr.readSector 1
          (s.fs.getSectorByCluster s.fs.currentDirCluster) with
      | none => rw [readInto_none h]; rfl
      | some t =>
          rw [readInto_some h, Fs.findFreeInto_eq]
          simp only [if_true]
          show _ = if s.fs.findFreeCluster = 0 then _ else _
          rw [Fs.findFreeCluster]
          by_cases hzero : s.fs.findFreeFrom (List.range 100) = 0
          · rw [if_pos hzero, if_pos hzero]
            rfl
          · rw [if_neg hzero, if_neg hzero]
            have hupdate := updateFat_fs (s := s)
              (s.fs.findFreeFrom (List.range 100)) 0x0FFFFFFF (buffers 3)
            generalize s.updateFat (s.fs.findFreeFrom (List.range 100))
              0x0FFFFFFF (buffers 3) = s₁ at *
            simp only [← hupdate]
            cases hmade : s₁.fs.write _ _ with
            | mk ok fs =>
                rw [write_eq hmade]
                cases ok with
                | false => rfl
                | true =>
                    simp only
                    cases firstSlot fun i => (dirEntry t i).isFree with
                    | none => rfl
                    | some i =>
                        simp only
                        cases hparent : fs.write _ _ with
                        | mk ok fs' =>
                            rw [write_eq hparent]
                            cases ok <;> rfl

end Session

/-! ## Two runs -/

/-- What can be seen of an operation besides its writes is the same. -/
structure SameOutcome (s s' : Session) : Prop where
  cout : s.cout = s'.cout
  cerr : s.fs.cerr = s'.fs.cerr
  found : s.found = s'.found
  currentDirCluster : s.fs.currentDirCluster = s'.fs.currentDirCluster
  currentPath : s.fs.currentPath = s'.fs.currentPath

theorem SameOutcome.refl (s : Session) : SameOutcome s s :=
  ⟨rfl, rfl, rfl, rfl, rfl⟩

namespace Operation

/-- Whether an operation looks at what its first read returns. -/
def checksRead : Operation → Bool
  | .findFile _ | .cat _ | .mkdir _ | .cd _ => true
  | .ls | .rm _ | .touch _ | .updateFat _ _ => false

/-- Neither what is seen of the operation nor what it asks of `write_sector`
depends on its buffers. -/
def Independent (s : Session) (op : Operation) : Prop :=
  ∀ buffers buffers' beyond,
    SameOutcome (run s buffers beyond op) (run s buffers' beyond op) ∧
      (run s buffers beyond op).writes = (run s buffers' beyond op).writes

/-- Neither what is seen of the operation nor what is on the disks behind it
depends on its buffers. -/
def IndependentOnDisk (s : Session) (op : Operation) : Prop :=
  ∀ buffers buffers' beyond,
    SameOutcome (run s buffers beyond op) (run s buffers' beyond op) ∧
      (run s buffers beyond op).fs.diskMgr =
        (run s buffers' beyond op).fs.diskMgr

variable {s : Session} {op : Operation}

/-- With drive 1 missing, an operation that checks its first read does not get
to its buffers. -/
theorem run_checked (hn : ¬ s.fs.Ready) (hop : op.checksRead = true)
    (buffers buffers' : Buffers) (beyond : Nat → UInt8) :
    run s buffers beyond op = run s buffers' beyond op := by
  cases op with
  | findFile name =>
      simp only [run, Session.findFile, Fs.findFileInto_eq]
  | cat filename =>
      simp only [run, Session.cat, Fs.readCurrentInto, readInto_not_ready hn,
        Bool.false_eq_true, if_false]
  | mkdir name =>
      simp only [run, Session.mkdir, Fs.findFileInto_eq, readInto_not_ready hn,
        Bool.false_eq_true, if_false]
  | cd path => simp only [run, Session.cd_eq]
  | ls | rm _ | touch _ | updateFat _ _ => cases hop

/-! ### `fat32_ls` -/

/-- More has been written. -/
theorem length_str_le (c : Ostream) (t : Str) :
    c.written.length ≤ (c.str t).written.length := by
  rw [Ostream.str, List.length_append]
  exact Nat.le_add_right _ _

theorem length_chars_le {α : Type} (f : α → UInt8) (c : Ostream) (l : List α) :
    c.written.length ≤
      (l.foldl (fun c x => c.char (f x)) c).written.length := by
  induction l generalizing c with
  | nil => exact Nat.le_refl _
  | cons x l ih => exact Nat.le_trans (length_str_le c [f x]) (ih (c.char (f x)))

theorem length_uint_le (c : Ostream) (n : UInt64) :
    c.written.length ≤ (c.uint n).written.length := by
  have hprint : ∀ (c : Ostream) base,
      c.written.length ≤ (c.printUint n base).written.length := by
    intro c base
    rw [Ostream.printUint]
    split
    · exact length_str_le c _
    · exact length_chars_le Ostream.digit c _
  rw [Ostream.uint]
  split
  · exact Nat.le_trans (length_str_le c _) (hprint _ _)
  · exact hprint c 2
  · exact hprint c 10

theorem length_endl (c : Ostream) :
    c.written.length < c.endl.written.length := by
  rw [Ostream.endl, Ostream.char, Ostream.str, List.length_append]
  exact Nat.lt_add_of_pos_right (by decide)

theorem length_lsLine (c : Ostream) (e : DirEntry) :
    c.written.length < (Fs.lsLine c e).written.length := by
  have hname := length_chars_le (fun x => x) c e.name.toList
  rw [Fs.lsLine]
  refine Nat.lt_of_le_of_lt ?_ (length_endl _)
  refine Nat.le_trans hname ?_
  split
  · exact length_str_le _ _
  · have hspace := length_str_le (e.name.toList.foldl Ostream.char c) (lit " ")
    have hsize := length_uint_le
      (((e.name.toList.foldl Ostream.char c).str (lit " ")).fmt .dec)
      e.fileSize.toUInt64
    exact Nat.le_trans hspace (Nat.le_trans hsize (length_str_le _ _))

theorem length_lsLines (c : Ostream) (es : List DirEntry) :
    c.written.length + es.length ≤ (es.foldl Fs.lsLine c).written.length := by
  induction es generalizing c with
  | nil => exact Nat.le_refl _
  | cons e es ih =>
      have hline := length_lsLine c e
      have hrest := ih (Fs.lsLine c e)
      rw [List.length_cons, List.foldl_cons]
      omega

theorem shown_zeroSector : Fs.shown zeroSector = [] := by
  rw [List.eq_nil_iff_forall_not_mem]
  intro e he
  obtain ⟨i, rfl, hfree, -⟩ := Fs.mem_shown.1 he
  rw [dirEntry_zeroSector] at hfree
  cases hfree

theorem shown_oneFile : Fs.shown oneFile ≠ [] := by
  have hmem : freshFile (lit "a") ∈ Fs.shown oneFile :=
    Fs.mem_shown.2 ⟨0, dirEntry_oneEntry _, by decide, fun j hj =>
      absurd hj (Nat.not_lt_zero _)⟩
  exact List.ne_nil_of_mem hmem

theorem ls_depends (hn : ¬ s.fs.Ready) :
    (s.ls fun _ => zeroSector).cout ≠ (s.ls fun _ => oneFile).cout := by
  intro heq
  have hlen := length_lsLines s.cout (Fs.shown oneFile)
  have hpos := List.length_pos_iff.2 shown_oneFile
  simp only [Session.ls, Fs.readCurrentInto, readInto_not_ready hn,
    shown_zeroSector, List.foldl_nil] at heq
  rw [← heq] at hlen
  omega

/-! ### `fat32_rm` -/

/-- Every string matches some name. -/
theorem exists_match (input : Str) :
    ∃ name : Vector UInt8 11, fatNameMatch input name = true := by
  refine ⟨Vector.ofFn fun k => (padded stopsMatch 8 input).getD k.val space,
    fatNameMatch_iff.2 ?_⟩
  have hlen := length_padded stopsMatch 8 input
  refine List.ext_getElem (by simp [hlen]) fun k hk hk' => ?_
  rw [List.getElem_take, Vector.getElem_toList, Vector.getElem_ofFn]
  exact List.getD_eq_getElem _ _ hk'

/-- A directory sector with an entry that a string matches. -/
theorem exists_rmSlot (input : Str) :
    ∃ buffer : Sector, rmSlot buffer input = some 0 := by
  obtain ⟨name, hname⟩ := exists_match input
  refine ⟨oneEntry { freshFile (lit "a") with name := name }, firstSlot_zero ?_⟩
  rw [dirEntry_oneEntry]
  exact hname

theorem firstByte_zeroSector (i : Fin 16) :
    firstByte (dirEntry zeroSector i).name = 0 := by
  simp [dirEntry, zeroSector, record, DirEntry.ofBytes, firstByte]

theorem rmSlot_zeroSector (input : Str) : rmSlot zeroSector input = none := by
  cases h : rmSlot zeroSector input with
  | none => rfl
  | some i =>
      exact absurd (firstByte_zeroSector i)
        (fatNameMatch_head (firstSlot_some h)).1

/-- With drive 1 missing nothing is removed; what the buffer holds decides
whether there is a message. -/
theorem rm_not_ready {fs : Fs} (hn : ¬ fs.Ready) (filename : Str)
    (uninit : Sector) : fs.rm filename uninit =
      (rmSlot uninit filename).elim (fs.errln (lit "File not found!"))
        fun _ => fs := by
  simp only [Fs.rm, Fs.read_not_ready hn, Option.getD_none, rmSlot,
    Fs.write_not_ready hn]
  cases firstSlot fun i => fatNameMatch filename (dirEntry uninit i).name <;>
    rfl

theorem rm_depends (hn : ¬ s.fs.Ready) (filename : Str) :
    ∃ buffer : Sector, (s.rm filename fun _ => zeroSector).fs.cerr ≠
      (s.rm filename fun _ => buffer).fs.cerr := by
  obtain ⟨buffer, hslot⟩ := exists_rmSlot filename
  refine ⟨buffer, ?_⟩
  rw [Session.rm_fs, Session.rm_fs, rm_not_ready hn, rm_not_ready hn, hslot,
    rmSlot_zeroSector]
  exact Fs.cerr_errln_ne _ _

/-! ### `fat32_touch` and `fat32_update_fat` -/

/-- No word of this sector is zero, and no slot free. -/
def noiseSector : Sector := Vector.replicate 512 0x78

theorem isFree_noiseSector (i : Fin 16) :
    (dirEntry noiseSector i).isFree = false := by
  simp [dirEntry, noiseSector, record, DirEntry.ofBytes, DirEntry.isFree,
    firstByte]

theorem fatWord_noiseSector (j : Fin 128) : fatWord noiseSector j ≠ 0 := by
  simp [fatWord, noiseSector, record, le32]

/-- With drive 1 missing the state stays as it is. -/
theorem touch_not_ready {fs : Fs} (hn : ¬ fs.Ready) (name : Str)
    (uninit : Sector) : fs.touch name uninit = fs := by
  simp only [Fs.touch, Fs.write_not_ready hn]
  split <;> rfl

theorem updateFat_not_ready {fs : Fs} (hn : ¬ fs.Ready) (c v : UInt32)
    (uninit : Sector) : fs.updateFat uninit c v = fs := by
  simp only [Fs.updateFat, Fs.write_not_ready hn]

theorem touch_depends (hn : ¬ s.fs.Ready) (name : Str) :
    (s.touch name fun _ => zeroSector).writes ≠
      (s.touch name fun _ => noiseSector).writes := by
  have hfree : (firstSlot fun i => (dirEntry zeroSector i).isFree) = some 0 :=
    firstSlot_zero (dirEntry_zeroSector 0)
  have hnone : (firstSlot fun i => (dirEntry noiseSector i).isFree) = none := by
    cases h : firstSlot fun i => (dirEntry noiseSector i).isFree with
    | none => rfl
    | some i => exact absurd (firstSlot_some h) (by simp [isFree_noiseSector])
  simp only [Session.touch, Fs.readCurrentInto, readInto_not_ready hn, hfree,
    hnone, Session.write]
  intro heq
  have hlen := congrArg List.length heq
  rw [List.length_append, List.length_singleton] at hlen
  omega

theorem updateFat_depends (hn : ¬ s.fs.Ready) (c v : UInt32) :
    (s.updateFat c v zeroSector).writes ≠
      (s.updateFat c v noiseSector).writes := by
  obtain ⟨j, hj⟩ : ∃ j : Fin 128, j ≠ fatOffset c := exists_ne _
  intro heq
  simp only [Session.updateFat, Session.write, readInto_not_ready hn] at heq
  have hlast := List.append_cancel_left heq
  have hbuffer := congrArg WriteCall.buffer (List.cons.inj hlast).1
  have hword := congrArg (fatWord · j) hbuffer
  simp only [fatWord_setFatWord_of_ne _ hj, fatWord_zeroSector] at hword
  exact fatWord_noiseSector j hword.symm

/-! ### All operations -/

theorem independent_of_checked (hn : ¬ s.fs.Ready)
    (hop : op.checksRead = true) : Independent s op := by
  intro buffers buffers' beyond
  rw [run_checked hn hop buffers buffers']
  exact ⟨.refl _, rfl⟩

/-- Whether an operation that has read nothing shows nothing of its buffer,
and changes nothing. -/
def keepsQuiet : Operation → Bool
  | .ls | .rm _ => false
  | _ => true

theorem outcome_depends (hn : ¬ s.fs.Ready) (hop : op.keepsQuiet = false) :
    ∃ b b' : Sector, ¬ SameOutcome (run s (fun _ => b) (fun _ => 0) op)
      (run s (fun _ => b') (fun _ => 0) op) := by
  cases op with
  | ls => exact ⟨zeroSector, oneFile, fun h => ls_depends hn h.cout⟩
  | rm filename =>
      obtain ⟨buffer, hne⟩ := rm_depends hn filename
      exact ⟨zeroSector, buffer, fun h => hne h.cerr⟩
  | findFile _ | cat _ | mkdir _ | cd _ | touch _ | updateFat _ _ => cases hop

theorem not_independent (hn : ¬ s.fs.Ready) (hop : op.checksRead = false) :
    ¬ Independent s op := by
  intro h
  have hcases := fun b b' => h (fun _ => b) (fun _ => b') fun _ => 0
  by_cases hquiet : op.keepsQuiet = false
  · obtain ⟨b, b', hne⟩ := outcome_depends hn hquiet
    exact hne (hcases b b').1
  cases op with
  | touch name =>
      exact touch_depends hn name (hcases zeroSector noiseSector).2
  | updateFat c v =>
      exact updateFat_depends hn c v (hcases zeroSector noiseSector).2
  | ls | rm _ => exact absurd rfl hquiet
  | findFile _ | cat _ | mkdir _ | cd _ => cases hop

/-- Runs that leave all of the driver and the rest alike. -/
theorem same_of_fs {α : Type} {f : α → Session} (hfs : ∀ b, (f b).fs = s.fs)
    (hrest : ∀ b, (f b).cout = s.cout ∧ (f b).found = s.found) (b b' : α) :
    SameOutcome (f b) (f b') ∧ (f b).fs.diskMgr = (f b').fs.diskMgr := by
  refine ⟨⟨?_, ?_, ?_, ?_, ?_⟩, ?_⟩
  · rw [(hrest b).1, (hrest b').1]
  · rw [hfs, hfs]
  · rw [(hrest b).2, (hrest b').2]
  · rw [hfs, hfs]
  · rw [hfs, hfs]
  · rw [hfs, hfs]

theorem independentOnDisk_of_quiet (hn : ¬ s.fs.Ready)
    (hop : op.keepsQuiet = true) : IndependentOnDisk s op := by
  intro buffers buffers' beyond
  have hsame : op.checksRead = true →
      SameOutcome (run s buffers beyond op) (run s buffers' beyond op) ∧
        (run s buffers beyond op).fs.diskMgr =
          (run s buffers' beyond op).fs.diskMgr := by
    intro hcheck
    rw [run_checked hn hcheck buffers buffers']
    exact ⟨.refl _, rfl⟩
  cases op with
  | touch name =>
      have hfs : ∀ b : Buffers, (s.touch name b).fs = s.fs := fun b => by
        rw [Session.touch_fs, touch_not_ready hn]
      simp only [run]
      exact same_of_fs (f := s.touch name) hfs Session.touch_rest _ _
  | updateFat c v =>
      have hfs : ∀ b : Sector, (s.updateFat c v b).fs = s.fs := fun b => by
        rw [Session.updateFat_fs, updateFat_not_ready hn]
      simp only [run]
      exact same_of_fs (f := s.updateFat c v) hfs (Session.updateFat_rest c v)
        _ _
  | findFile _ | cat _ | mkdir _ | cd _ => exact hsame rfl
  | ls | rm _ => cases hop

theorem not_independentOnDisk (hn : ¬ s.fs.Ready)
    (hop : op.keepsQuiet = false) : ¬ IndependentOnDisk s op := by
  intro h
  obtain ⟨b, b', hne⟩ := outcome_depends hn hop
  exact hne (h (fun _ => b) (fun _ => b') fun _ => 0).1

end Operation

/-- For every operation and every state: when the read that it asks for first
fails, its outcome and its calls of `write_sector` do not depend on what its
buffers held, if and only if drive 1 is there, and no read fails, or the
operation is one of `find_file`, `cat`, `mkdir` and `cd`. The disks behind it
do not depend on that if and only if drive 1 is there or it is not `ls` or
`rm`. -/
theorem failed_reads_unused (s : Session) (op : Operation) :
    ((s.fs.diskMgr.readSector 1 (op.sector s.fs) = none →
        op.Independent s) ↔
      1 < s.fs.diskMgr.driveCount ∨ op.checksRead = true) ∧
    ((s.fs.diskMgr.readSector 1 (op.sector s.fs) = none →
        op.IndependentOnDisk s) ↔
      1 < s.fs.diskMgr.driveCount ∨ op.keepsQuiet = true) := by
  by_cases hready : s.fs.Ready
  · have hread : s.fs.diskMgr.readSector 1 (op.sector s.fs) ≠ none := by
      rw [Fs.read_ready hready]
      exact Option.some_ne_none _
    exact ⟨⟨fun _ => .inl hready, fun _ h => absurd h hread⟩,
      ⟨fun _ => .inl hready, fun _ h => absurd h hread⟩⟩
  · have hread := @Fs.read_not_ready s.fs (op.sector s.fs) hready
    refine ⟨?_, ?_⟩
    · refine ⟨?_, ?_⟩
      · intro h
        right
        by_contra hop
        rw [Bool.not_eq_true] at hop
        exact Operation.not_independent hready hop (h hread)
      · rintro (h | hop) -
        · exact absurd h hready
        · exact Operation.independent_of_checked hready hop
    · refine ⟨?_, ?_⟩
      · intro h
        right
        by_contra hop
        rw [Bool.not_eq_true] at hop
        exact Operation.not_independentOnDisk hready hop (h hread)
      · rintro (h | hop) -
        · exact absurd h hready
        · exact Operation.independentOnDisk_of_quiet hready hop

/-- The driver on a machine with one drive. -/
def oneDrive : Session where
  fs := { unmounted 2 with diskMgr := ⟨1, fun _ _ => zeroSector⟩ }
  cout := ⟨.dec, []⟩
  writes := []
  found := none

theorem not_ready_oneDrive : ¬ oneDrive.fs.Ready := by
  have hcount : oneDrive.fs.diskMgr.driveCount = 1 := rfl
  rw [Fs.Ready, hcount]
  decide

/-- With drive 1 missing `fat32_ls` prints what its buffer held, `fat32_rm`
looks there for the name, and `fat32_touch` asks for what it held to be
written. -/
theorem stale_buffers_used :
    (∀ op : Operation,
      oneDrive.fs.diskMgr.readSector 1 (op.sector oneDrive.fs) = none) ∧
      (oneDrive.ls fun _ => zeroSector).cout ≠
        (oneDrive.ls fun _ => oneFile).cout ∧
      ¬ Operation.ls.Independent oneDrive ∧
      ¬ (Operation.rm (lit "a")).Independent oneDrive ∧
      ¬ (Operation.touch (lit "a")).Independent oneDrive ∧
      ¬ (Operation.updateFat 2 0x0FFFFFFF).Independent oneDrive := by
  have hn : ¬ oneDrive.fs.Ready := not_ready_oneDrive
  exact ⟨fun op => Fs.read_not_ready hn, Operation.ls_depends hn,
    Operation.not_independent hn rfl, Operation.not_independent hn rfl,
    Operation.not_independent hn rfl, Operation.not_independent hn rfl⟩

end TermOS.Storage
