import TermOS.Proofs.FatOps
import TermOS.Ref.Fat32Text

/-!
# Three loops that look for a name

`fat32_find_file` passes over free slots before it compares names;
`fat32_rm` and `fat32_cat` compare whatever the slot holds. That they take the
same slot is a matter of the names: one that a match accepts begins with what
the string begins with, or with a blank, and in a string of characters up to
127 that is neither of the two marks of a free slot.
-/

namespace TermOS.Storage

open TermOS.Console (Ostream)

/-- The slot whose entry `fat32_find_file` returns. -/
def findFileSlot (buffer : Sector) (name : Str) : Option (Fin 16) :=
  firstSlot fun i => !(dirEntry buffer i).isFree &&
    fatNameMatch name (dirEntry buffer i).name

/-- The slot `fat32_rm` marks. -/
def rmSlot (buffer : Sector) (filename : Str) : Option (Fin 16) :=
  firstSlot fun i => fatNameMatch filename (dirEntry buffer i).name

/-- The slot whose file `fat32_cat` prints. -/
def catSlot (buffer : Sector) (filename : Str) : Option (Fin 16) :=
  firstSlot fun i => fatNameMatch filename (dirEntry buffer i).name

/-- A name of characters from 1 to 127. -/
def Ascii (name : Str) : Prop := ∀ c ∈ name, 1 ≤ c ∧ c ≤ 127

theorem Ascii.head_ne {name : Str} (h : Ascii name) : name.headD 0 ≠ 0xE5 := by
  cases name with
  | nil => decide
  | cons c cs =>
      intro hc
      have hle := (h c List.mem_cons_self).2
      rw [List.headD_cons] at hc
      rw [hc] at hle
      exact absurd hle (by decide)

/-- What a match accepts begins with the string's first character, in
capitals, or with a blank. -/
theorem firstByte_of_match {name : Str} {n : Vector UInt8 11}
    (h : fatNameMatch name n = true) :
    firstByte n = upper (name.headD 0) ∨ firstByte n = space := by
  obtain ⟨fs, hfs⟩ := toList_take_eight n
  rw [fatNameMatch_iff, hfs] at h
  cases name with
  | nil =>
      rw [padded_nil] at h
      exact .inr (List.cons.inj h).1
  | cons c cs =>
      rw [padded] at h
      split at h
      · exact .inr (List.cons.inj h).1
      · exact .inl (List.cons.inj h).1

/-- No free slot matches such a name. -/
theorem Ascii.isFree_of_match {name : Str} (hname : Ascii name) {e : DirEntry}
    (h : fatNameMatch name e.name = true) : e.isFree = false := by
  have hzero := (fatNameMatch_head h).1
  have hmark : firstByte e.name ≠ 0xE5 := by
    intro heq
    rcases firstByte_of_match h with hfirst | hfirst
    · rw [heq] at hfirst
      exact hname.head_ne
        ((upper_eq_of_lt (by decide) (by decide)).1 hfirst.symm)
    · rw [heq] at hfirst
      exact absurd hfirst (by decide)
  rw [DirEntry.isFree, Bool.or_eq_false_iff]
  exact ⟨beq_eq_false_iff_ne.2 hzero, beq_eq_false_iff_ne.2 hmark⟩

/-- If no free slot matches the name, to pass over them makes no
difference. -/
theorem rmSlot_eq {name : Str}
    (h : ∀ e : DirEntry, fatNameMatch name e.name = true → e.isFree = false)
    (buffer : Sector) : rmSlot buffer name = findFileSlot buffer name := by
  refine congrArg firstSlot (funext fun i => ?_)
  cases hmatch : fatNameMatch name (dirEntry buffer i).name with
  | false => rw [Bool.and_false]
  | true => rw [h _ hmatch, Bool.not_false, Bool.and_true]

namespace Fs

variable {fs : Fs} {buffer : Sector}

/-- What `fat32_cat` prints of the file of an entry. -/
def catEntry (fs : Fs) (cout : Ostream) (e : DirEntry) (uninit : Sector)
    (beyond : Nat → UInt8) : Ostream :=
  let data := (fs.diskMgr.readSector 1 (fs.getSectorByCluster e.cluster)).getD
    uninit
  (((List.range e.fileSize.toNat).map fun j =>
    data.toList.getD j (beyond j)).foldl Ostream.char cout).endl

section Read

variable (hread : fs.diskMgr.readSector 1
  (fs.getSectorByCluster fs.currentDirCluster) = some buffer)

include hread

theorem findFile_slot (name : Str) :
    fs.findFile name = (findFileSlot buffer name).map (dirEntry buffer) := by
  simp only [findFile, hread, findFileSlot]

theorem rm_slot (filename : Str) (uninit : Sector) :
    fs.rm filename uninit =
      (rmSlot buffer filename).elim (fs.errln (lit "File not found!")) fun i =>
        (fs.write (fs.getSectorByCluster fs.currentDirCluster)
          (setDirEntry buffer i (removed (dirEntry buffer i)))).2 := by
  simp only [rm, hread, Option.getD_some, rmSlot]
  cases firstSlot fun i => fatNameMatch filename (dirEntry buffer i).name <;> rfl

theorem cat_slot (cout : Ostream) (filename : Str) (uninit : Sector)
    (beyond : Nat → UInt8) :
    fs.cat cout filename uninit beyond =
      (catSlot buffer filename).elim (fs.errln (lit "File not found!"), cout)
        fun i => (fs, fs.catEntry cout (dirEntry buffer i) uninit beyond) := by
  simp only [cat, hread, catSlot]
  cases firstSlot fun i => fatNameMatch filename (dirEntry buffer i).name <;> rfl

end Read

end Fs

/-- Whatever is in the sector of the current directory: for a name of
characters from 1 to 127 the slot that `fat32_rm` marks and the one whose file
`fat32_cat` prints are the slot of `fat32_find_file`, or there is none for any
of the three. -/
theorem lookups_agree {fs : Fs} {buffer : Sector} {name : Str}
    (hread : fs.diskMgr.readSector 1
      (fs.getSectorByCluster fs.currentDirCluster) = some buffer)
    (hname : Ascii name) (cout : Ostream) (uninit : Sector)
    (beyond : Nat → UInt8) :
    rmSlot buffer name = findFileSlot buffer name ∧
      catSlot buffer name = findFileSlot buffer name ∧
      fs.findFile name = (findFileSlot buffer name).map (dirEntry buffer) ∧
      fs.rm name uninit =
        (rmSlot buffer name).elim (fs.errln (lit "File not found!")) (fun i =>
          (fs.write (fs.getSectorByCluster fs.currentDirCluster)
            (setDirEntry buffer i (removed (dirEntry buffer i)))).2) ∧
      fs.cat cout name uninit beyond =
        (catSlot buffer name).elim (fs.errln (lit "File not found!"), cout)
          fun i => (fs, fs.catEntry cout (dirEntry buffer i) uninit beyond) :=
  have hslot := rmSlot_eq (fun _ => hname.isFree_of_match) buffer
  ⟨hslot, hslot, Fs.findFile_slot hread name, Fs.rm_slot hread name uninit,
    Fs.cat_slot hread cout name uninit beyond⟩

theorem zero_lt_slots : 0 < 16 := by decide

/-- The first slot. -/
def slotZero : Fin 16 := ⟨0, zero_lt_slots⟩

/-- A directory sector with one entry. -/
def oneEntry (e : DirEntry) : Sector := setDirEntry zeroSector slotZero e

theorem dirEntry_oneEntry (e : DirEntry) : dirEntry (oneEntry e) 0 = e :=
  dirEntry_setDirEntry_self zeroSector slotZero e

/-- What `touch` puts into a slot that has not been used. -/
def freshFile (name : Str) : DirEntry :=
  newFileEntry (dirEntry zeroSector slotZero) name

/-- A directory sector with one file. -/
def oneFile : Sector := oneEntry (freshFile (lit "a"))

theorem lookups_agree_oneFile :
    rmSlot oneFile (lit "a") = some 0 ∧ catSlot oneFile (lit "a") = some 0 := by
  let fs : Fs :=
    { diskMgr := ⟨2, fun _ _ => oneFile⟩, fatStartSector := 32
      dataStartSector := 132, sectorsPerClusterGlobal := 1
      currentDirCluster := 2, currentPath := [slash], cerr := [] }
  have hname : Ascii (lit "a") := by
    intro c hc
    obtain rfl : c = 0x61 := by simpa [lit] using hc
    decide
  have hread : fs.diskMgr.readSector 1
      (fs.getSectorByCluster fs.currentDirCluster) = some oneFile := rfl
  have hslot : findFileSlot oneFile (lit "a") = some 0 := by
    refine firstSlot_zero ?_
    rw [oneFile, dirEntry_oneEntry]
    decide
  obtain ⟨hrm, hcat, -⟩ := lookups_agree hread hname ⟨.dec, []⟩ zeroSector
    fun _ => 0
  exact ⟨hrm.trans hslot, hcat.trans hslot⟩

end TermOS.Storage
