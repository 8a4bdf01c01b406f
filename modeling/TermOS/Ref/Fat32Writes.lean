import TermOS.Ref.Fat32Access

/-!
# What the driver writes (`fat32.cpp`)

The commands that change the volume once more, as the sectors that they hand
to `write_sector`, in their order, with what is in them. Nothing is held back,
by the driver or, since `write_sector` ends with a flush of its cache, by the
drive: what has been handed over is on the disk, and what has not is lost with
the power. A drive takes a sector as a whole.
-/

namespace TermOS.Storage

/-- A sector for drive 1. -/
structure SectorWrite where
  lba : UInt32
  data : Sector

namespace Fs

/-- The writes that a power cut leaves, and no others. -/
def cut (fs : Fs) (ws : List SectorWrite) : Fs :=
  ws.foldl (fun fs w => (fs.write w.lba w.data).2) fs

def updateFatWrites (fs : Fs) (uninit : Sector) (cluster value : UInt32) :
    List SectorWrite :=
  let sector := fs.fatStartSector + cluster / 128
  let fatTable := (fs.diskMgr.readSector 1 sector).getD uninit
  [⟨sector, setFatWord fatTable (fatOffset cluster) value⟩]

def mkdirWrites (fs : Fs) (name : Str) (uninit : Sector) : List SectorWrite :=
  match fs.findFile name with
  | some _ => []
  | none =>
      let parentSector := fs.getSectorByCluster fs.currentDirCluster
      match fs.diskMgr.readSector 1 parentSector with
      | none => []
      | some parentBuffer =>
          let newCluster := fs.findFreeCluster
          if newCluster = 0 then []
          else
            let parentCluster :=
              if fs.currentDirCluster = 2 then 0 else fs.currentDirCluster
            fs.updateFatWrites uninit newCluster 0x0FFFFFFF ++
              ⟨fs.getSectorByCluster newCluster,
                dotEntries newCluster parentCluster⟩ ::
              match firstSlot fun i => (dirEntry parentBuffer i).isFree with
              | none => []
              | some i =>
                  let e := newDirEntry (dirEntry parentBuffer i) name newCluster
                  [⟨parentSector, setDirEntry parentBuffer i e⟩]

def touchWrites (fs : Fs) (name : Str) (uninit : Sector) : List SectorWrite :=
  let sector := fs.getSectorByCluster fs.currentDirCluster
  let buffer := (fs.diskMgr.readSector 1 sector).getD uninit
  match firstSlot fun i => (dirEntry buffer i).isFree with
  | none => []
  | some i =>
      [⟨sector, setDirEntry buffer i (newFileEntry (dirEntry buffer i) name)⟩]

def rmWrites (fs : Fs) (filename : Str) (uninit : Sector) : List SectorWrite :=
  let sector := fs.getSectorByCluster fs.currentDirCluster
  let buffer := (fs.diskMgr.readSector 1 sector).getD uninit
  match firstSlot fun i => fatNameMatch filename (dirEntry buffer i).name with
  | none => []
  | some i => [⟨sector, setDirEntry buffer i (removed (dirEntry buffer i))⟩]

def writes (fs : Fs) : Op → List SectorWrite
  | .cd _ => []
  | .mkdir name uninit => fs.mkdirWrites name uninit
  | .touch name uninit => fs.touchWrites name uninit
  | .rm filename uninit => fs.rmWrites filename uninit

end Fs

end TermOS.Storage
