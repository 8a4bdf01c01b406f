import TermOS.Lib.LinkedBlocks
import TermOS.Proofs.FatLeak
import TermOS.Proofs.Mkdir

/-!
# Directories and files of more than one sector

A directory or a file lies in a chain of clusters, a cluster in several
sectors. `fat32_find_file` and `fat32_cat` read one sector of it, the first of
the first cluster. For a directory these are sixteen entries, and for a file
512 bytes; the loop of `fat32_cat` goes on to `file_size` whatever that is,
over a buffer of 512 bytes. What they say of the rest is nothing, or whatever
lies behind the buffer.
-/

namespace TermOS.Storage

open TermOS.Lib
open TermOS.Console (Ostream)

/-- The entry is in use and answers to the name. -/
def answers (name : Str) (e : DirEntry) : Bool :=
  !e.isFree && fatNameMatch name e.name

/-- The entry is not the mark behind the last entry of a directory. -/
def beforeEnd (e : DirEntry) : Bool := firstByte e.name != 0

/-- The sixteen entries of a sector. -/
def slots (s : Sector) : List DirEntry := (List.finRange 16).map (dirEntry s)

theorem slots_cons (s : Sector) : ∃ rest, slots s = dirEntry s 0 :: rest := by
  rw [slots, List.finRange_succ, List.map_cons]
  exact ⟨_, rfl⟩

namespace Fs

variable {fs : Fs} {g : Shape} {clusters : List UInt32} {name : Str}

/-- The clusters of a chain, as the FAT has them. -/
def Chain (fs : Fs) (g : Shape) (c : UInt32) (clusters : List UInt32) : Prop :=
  Linked (fun c => (fs.volume g).chain c ()) c clusters

/-- The sectors of a cluster. -/
def clusterSectors (fs : Fs) (c : UInt32) : List Sector :=
  (List.range fs.sectorsPerClusterGlobal.toNat).map fun j =>
    fs.diskMgr.sectors 1 (fs.getSectorByCluster c + UInt32.ofNat j)

/-- The entries of a directory, to the end of its last cluster. -/
def dirEntries (fs : Fs) (clusters : List UInt32) : List DirEntry :=
  clusters.flatMap fun c => (fs.clusterSectors c).flatMap slots

/-- The first entry of a directory, in front of its end mark, that is in use
and answers to a name. -/
def search (fs : Fs) (clusters : List UInt32) (name : Str) :
    Option DirEntry :=
  ((fs.dirEntries clusters).takeWhile beforeEnd).find? (answers name)

/-- Of the first sixteen entries of the current directory, one in front of the
end mark answers to the name. -/
def InFirstSector (fs : Fs) (name : Str) : Prop :=
  ∃ e ∈ (slots fs.currentSector).takeWhile beforeEnd, answers name e = true

/-- What is in a cluster begins with what is in its first sector. -/
theorem clusterSectors_cons (hper : 0 < fs.sectorsPerClusterGlobal.toNat)
    (c : UInt32) : ∃ rest, fs.clusterSectors c =
      fs.diskMgr.sectors 1 (fs.getSectorByCluster c) :: rest := by
  obtain ⟨n, hn⟩ := Nat.exists_eq_succ_of_ne_zero (Nat.ne_of_gt hper)
  rw [clusterSectors, hn, List.range_succ_eq_map, List.map_cons]
  have hzero : fs.getSectorByCluster c + UInt32.ofNat 0 =
      fs.getSectorByCluster c := UInt32.add_zero _
  rw [hzero]
  exact ⟨_, rfl⟩

/-- What is in a chain begins with what is in its first sector. -/
theorem Chain.flatMap {α : Type} {c : UInt32} (h : fs.Chain g c clusters)
    (hper : 0 < fs.sectorsPerClusterGlobal.toNat) (items : Sector → List α) :
    ∃ rest, clusters.flatMap (fun c => (fs.clusterSectors c).flatMap items) =
      items (fs.diskMgr.sectors 1 (fs.getSectorByCluster c)) ++ rest := by
  obtain ⟨rest, hrest⟩ :=
    Linked.flatMap h fun c => (fs.clusterSectors c).flatMap items
  obtain ⟨sectors, hsectors⟩ := clusterSectors_cons hper c
  rw [hrest, hsectors, List.flatMap_cons, List.append_assoc]
  exact ⟨_, rfl⟩

theorem findFile_first (hready : fs.Ready) (name : Str) :
    fs.findFile name = (slots fs.currentSector).find? (answers name) := by
  have hcomp : answers name ∘ dirEntry fs.currentSector = fun i =>
      !(dirEntry fs.currentSector i).isFree &&
        fatNameMatch name (dirEntry fs.currentSector i).name := by
    funext i
    rw [Function.comp_apply, answers]
  rw [findFile_slot (read_ready hready), slots, List.find?_map, hcomp,
    findFileSlot, firstSlot, currentSector]

end Fs

/-! ## A directory of two sectors -/

/-- A directory of one file, `q`. -/
def directoryQ : Sector := oneEntry (freshFile (lit "q"))

/-- A volume with two sectors in a cluster, and a root of seventeen files. -/
def wideRoot : Fs :=
  { fullRoot.put 133 directoryQ with sectorsPerClusterGlobal := 2 }

theorem geometry_wideRoot : Geometry wideRoot ⟨12798, 100⟩ := by
  refine ⟨?_, ?_, ?_, .inl ?_, ?_, ?_⟩ <;> decide

theorem sectors_wideRoot :
    wideRoot.currentSector = fullDirectory ∧
      wideRoot.dirEntries [2] = slots fullDirectory ++ slots directoryQ := by
  have hroot : wideRoot.getSectorByCluster 2 = 132 := by decide
  have hnext : (132 : UInt32) + UInt32.ofNat 1 = 133 := by decide
  have hfirst : wideRoot.diskMgr.sectors 1 132 = fullDirectory := by
    simp [wideRoot, fullRoot, Fs.put]
  have hsecond : wideRoot.diskMgr.sectors 1 133 = directoryQ := by
    simp [wideRoot, Fs.put]
  have hzero : (132 : UInt32) + UInt32.ofNat 0 = 132 := by decide
  have hper : wideRoot.sectorsPerClusterGlobal.toNat = 2 := rfl
  have hsectors : wideRoot.clusterSectors 2 = [fullDirectory, directoryQ] := by
    rw [Fs.clusterSectors, hper, hroot]
    show [wideRoot.diskMgr.sectors 1 (132 + UInt32.ofNat 0),
      wideRoot.diskMgr.sectors 1 (132 + UInt32.ofNat 1)] = _
    rw [hzero, hnext, hfirst, hsecond]
  refine ⟨?_, ?_⟩
  · show wideRoot.diskMgr.sectors 1 (wideRoot.getSectorByCluster 2) = _
    rw [hroot, hfirst]
  · rw [Fs.dirEntries, List.flatMap_singleton, hsectors, List.flatMap_cons,
      List.flatMap_singleton]

theorem chain_wideRoot : (wideRoot.volume ⟨12798, 100⟩).chain 2 () = none := by
  have hnext : fullRoot.getSectorByCluster 3 = 133 := by decide
  have hput := sound_fullRoot.geometry.volume_put_sector
    (by decide : Shape.Exists ⟨12798, 100⟩ 3) directoryQ
  rw [hnext] at hput
  have hfat : ∀ (fs : Fs) (n : UInt8), (Fs.volume
      { fs with sectorsPerClusterGlobal := n } ⟨12798, 100⟩).fat =
        (fs.volume ⟨12798, 100⟩).fat := fun _ _ => rfl
  rw [Volume.chain, wideRoot, hfat, hput, Volume.setDir, fullRoot_fat]
  decide

theorem ready_wideRoot : wideRoot.Ready := (by decide : (1 : UInt8) < 2)

theorem name_fullDirectory :
    (dirEntry fullDirectory 15).name = fatName (lit "p") := by
  have hstem : (((lit "p").take 8).takeWhile fun c => c ≠ 0 ∧ c ≠ dot) =
      lit "p" := by decide
  refine Vector.ext fun k hk => ?_
  have hmod : (480 + k) % 32 = k := by omega
  rw [fatName, hstem]
  cases k with
  | zero => simp [dirEntry, DirEntry.ofBytes, record, fullDirectory, lit, upper]
  | succ k =>
      simp [dirEntry, DirEntry.ofBytes, record, fullDirectory, hmod, hk, lit]

theorem beforeEnd_fullDirectory : ∀ e ∈ slots fullDirectory, beforeEnd e = true := by
  intro e he
  obtain ⟨i, -, rfl⟩ := List.mem_map.1 he
  have hused := isFree_fullDirectory i
  rw [DirEntry.isFree, Bool.or_eq_false_iff] at hused
  rw [beforeEnd, bne, hused.1]
  rfl

/-- `fat32_find_file` finds the entry that a search of the whole directory
finds, if and only if that is one of the first sixteen, or if neither in front
of the end mark nor among the first sixteen there is one. -/
theorem findFile_whole_iff {fs : Fs} {g : Shape} {clusters : List UInt32}
    (hready : fs.Ready) (hper : 0 < fs.sectorsPerClusterGlobal.toNat)
    (hchain : fs.Chain g fs.currentDirCluster clusters) (name : Str) :
    fs.findFile name = fs.search clusters name ↔
      fs.InFirstSector name ∨
        ((∀ e ∈ slots fs.currentSector, ¬ answers name e = true) ∧
          ∀ e ∈ (fs.dirEntries clusters).takeWhile beforeEnd,
            ¬ answers name e = true) := by
  obtain ⟨rest, hrest⟩ := hchain.flatMap hper slots
  rw [Fs.findFile_first hready, Fs.search, Fs.dirEntries, hrest]
  exact find_first_iff _ rest

/-- The last file of the first sector is found. -/
theorem findFile_whole_iff_wideRoot :
    wideRoot.findFile (lit "p") = wideRoot.search [2] (lit "p") := by
  have hper : 0 < wideRoot.sectorsPerClusterGlobal.toNat :=
    (by decide : 0 < (2 : UInt8).toNat)
  have hchain : wideRoot.Chain ⟨12798, 100⟩ wideRoot.currentDirCluster [2] :=
    .last chain_wideRoot
  have hanswers : answers (lit "p") (dirEntry fullDirectory 15) = true := by
    rw [answers, isFree_fullDirectory, name_fullDirectory]
    decide
  refine (findFile_whole_iff ready_wideRoot hper hchain (lit "p")).2
    (.inl ⟨dirEntry fullDirectory 15, ?_, hanswers⟩)
  rw [sectors_wideRoot.1, List.takeWhile_eq_self_iff.2 beforeEnd_fullDirectory]
  exact List.mem_map_of_mem (List.mem_finRange 15)

/-- The seventeenth file is in the directory and is not found. -/
theorem not_findFile_whole :
    Geometry wideRoot ⟨12798, 100⟩ ∧ wideRoot.Ready ∧
      wideRoot.Chain ⟨12798, 100⟩ wideRoot.currentDirCluster [2] ∧
      wideRoot.search [2] (lit "q") ≠ none ∧
      wideRoot.findFile (lit "q") = none := by
  obtain ⟨hcurrent, hentries⟩ := sectors_wideRoot
  refine ⟨geometry_wideRoot, ready_wideRoot, .last chain_wideRoot, ?_, ?_⟩
  · have hfirst : dirEntry directoryQ 0 = freshFile (lit "q") :=
      dirEntry_oneEntry _
    have hfound : beforeEnd (dirEntry directoryQ 0) = true ∧
        answers (lit "q") (dirEntry directoryQ 0) = true := by
      rw [hfirst]
      decide
    rw [Fs.search, hentries,
      List.takeWhile_append_of_pos beforeEnd_fullDirectory]
    obtain ⟨rest, hrest⟩ := slots_cons directoryQ
    rw [hrest, List.takeWhile_cons_of_pos hfound.1]
    intro hnone
    exact List.find?_eq_none.1 hnone _
      (List.mem_append_right _ List.mem_cons_self) hfound.2
  · rw [Fs.findFile_first ready_wideRoot, hcurrent]
    refine List.find?_eq_none.2 fun e he => ?_
    obtain ⟨i, -, rfl⟩ := List.mem_map.1 he
    rw [answers, not_match_fullDirectory, Bool.and_false]
    exact Bool.false_ne_true

/-! ## Files -/

namespace Fs

variable {fs : Fs} {g : Shape} {clusters : List UInt32} {name : Str}
  {e : DirEntry}

end Fs

section WithFile

variable (size : UInt32)

end WithFile

end TermOS.Storage
