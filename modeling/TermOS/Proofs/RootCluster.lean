import TermOS.Proofs.FatPath
import TermOS.Ref.Fat32Text

/-!
# Which cluster is the root

`fat32_init` makes the root directory of the boot sector the current one.
`fat32_cd` does not ask for it again: a path from the root starts in cluster
2, and `fat32_get_parent_cluster` has no parent for cluster 2 and looks for
one anywhere else. The two agree on the volumes whose root is cluster 2.
-/

namespace TermOS.Storage

open TermOS.Lib
open TermOS.Console (Ostream)

namespace Fs

variable {fs : Fs} {cout : Ostream} {driveIdx : UInt8} {buffer : Sector}

/-- `fat32_init` of a boot sector it accepts. -/
theorem init_signed (hread : fs.diskMgr.readSector driveIdx 0 = some buffer)
    (hsigned : Signed buffer) :
    (fs.init cout driveIdx).1 = { fs with
      fatStartSector := (Bpb.ofSector buffer).reservedSectors.toUInt32
      dataStartSector := (Bpb.ofSector buffer).reservedSectors.toUInt32 +
        (Bpb.ofSector buffer).fatCount.toUInt32 * (Bpb.ofSector buffer).fatSize32
      sectorsPerClusterGlobal := (Bpb.ofSector buffer).sectorsPerCluster
      currentDirCluster := (Bpb.ofSector buffer).rootCluster
      currentPath := [slash] } := by
  simp only [init, hread, if_pos hsigned]

/-- `fat32_cd("/")`. -/
theorem cd_slash (fs : Fs) : fs.cd [slash] =
    { fs with currentDirCluster := 2, currentPath := [slash] } := by
  simp [cd]

/-- In cluster 2 there is no way up. -/
theorem cd_dotdot_two (h : fs.currentDirCluster = 2) :
    fs.cd (lit "..") = fs := by
  have hparent : fs.getParentCluster = 0 := by rw [getParentCluster, if_pos h]
  rw [cd_dotdot, hparent, if_neg (not_not.2 rfl)]

/-- `fat32_cd("/")` leads back to where `fat32_init` has been, and
`fat32_cd("..")` does nothing there. -/
def Returns (start fs : Fs) : Prop :=
  (fs.cd [slash]).currentDirCluster = start.currentDirCluster ∧
    (fs.cd [slash]).currentPath = start.currentPath ∧
    (fs.cd [slash]).cd (lit "..") = fs.cd [slash]

end Fs

/-! ## Boot sectors that are accepted -/

/-- A boot sector: one sector for each cluster, 32 reserved sectors, two FATs
of 100 sectors each. -/
def bootSector (rootCluster : UInt8) : Sector :=
  Vector.ofFn fun k =>
    match k.val with
    | 13 => 1
    | 14 => 32
    | 16 => 2
    | 36 => 100
    | 44 => rootCluster
    | 510 => 0x55
    | 511 => 0xAA
    | _ => 0

/-- The statics of the driver as they are initialised, with two drives whose
boot sectors name a root cluster and are followed by zeroes. -/
def unmounted (rootCluster : UInt8) : Fs where
  diskMgr := ⟨2, fun _ lba =>
    if lba = 0 then bootSector rootCluster else zeroSector⟩
  fatStartSector := 0
  dataStartSector := 0
  sectorsPerClusterGlobal := 0
  currentDirCluster := 2
  currentPath := [slash]
  cerr := []

theorem signed_bootSector (r : UInt8) : Signed (bootSector r) := by
  simp [Signed, signature, bootSector]

theorem rootCluster_bootSector (r : UInt8) :
    (Bpb.ofSector (bootSector r)).rootCluster = r.toUInt32 := by
  simp [Bpb.ofSector, bootSector, le32]

/-- Behind any boot sector that is accepted and any session after it,
`fat32_cd("/")` leads back to the directory of `fat32_init` if and only if the
boot sector says that the root is cluster 2. -/
theorem returns_iff {fs : Fs} {cout : Ostream} {driveIdx : UInt8}
    {buffer : Sector} (hread : fs.diskMgr.readSector driveIdx 0 = some buffer)
    (hsigned : Signed buffer) :
    ∀ ops fs', Trace Fs.Step (fs.init cout driveIdx).1 ops fs' →
      ((fs.init cout driveIdx).1.Returns fs' ↔
        (Bpb.ofSector buffer).rootCluster = 2) := by
  intro ops fs' _
  rw [Fs.Returns, Fs.init_signed hread hsigned, Fs.cd_slash]
  refine ⟨?_, ?_⟩
  · intro h
    exact h.1.symm
  · intro h
    exact ⟨h.symm, rfl, Fs.cd_dotdot_two rfl⟩

theorem returns_iff_unmounted :
    ((unmounted 2).init ⟨.dec, []⟩ 1).1.Returns
        (((unmounted 2).init ⟨.dec, []⟩ 1).1.cd (lit "..")) ↔
      (Bpb.ofSector (bootSector 2)).rootCluster = 2 :=
  returns_iff rfl (signed_bootSector 2) [.cd (lit "..")] _ (.cons rfl (.nil _))

/-- With the root at cluster 3, `cd /` goes somewhere else. -/
theorem not_returns_unmounted :
    Signed (bootSector 3) ∧ 2 ≤ (Bpb.ofSector (bootSector 3)).rootCluster ∧
      ¬ ((unmounted 3).init ⟨.dec, []⟩ 1).1.Returns
        ((unmounted 3).init ⟨.dec, []⟩ 1).1 := by
  have hsigned := signed_bootSector 3
  have hroot := rootCluster_bootSector 3
  refine ⟨hsigned, ?_, ?_⟩
  · rw [hroot]
    decide
  · intro h
    have hcluster := h.1
    rw [Fs.cd_slash, Fs.init_signed rfl hsigned, hroot] at hcluster
    exact absurd hcluster (by decide)

end TermOS.Storage
