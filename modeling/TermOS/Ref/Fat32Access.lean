import TermOS.Ref.Fat32Text

/-!
# Which sectors the driver reads and writes (`fat32.cpp`)

The functions of the driver once more, as the sector accesses they make, in
their order. Every call of `read_sector` and `write_sector` names a drive of
its own. A call that fails at the check of the drive index has accessed
nothing.
-/

namespace TermOS.Storage

open TermOS.Console (Ostream)

structure Access where
  drive : UInt8
  lba : UInt32
  isWrite : Bool
  deriving DecidableEq, Repr

/-- A call of `read_sector` or `write_sector`. -/
def DiskManager.access (d : DiskManager) (driveIdx : UInt8) (lba : UInt32)
    (isWrite : Bool) : List Access :=
  if driveIdx ≥ d.driveCount then [] else [⟨driveIdx, lba, isWrite⟩]

namespace Fs

/-- The sector of the current directory is read. -/
def readCurrent (fs : Fs) : List Access :=
  fs.diskMgr.access 1 (fs.getSectorByCluster fs.currentDirCluster) false

def lsAccesses (fs : Fs) : List Access := fs.readCurrent

def findFileAccesses (fs : Fs) : List Access := fs.readCurrent

def catAccesses (fs : Fs) (filename : Str) : List Access :=
  fs.readCurrent ++
    match fs.diskMgr.readSector 1 (fs.getSectorByCluster fs.currentDirCluster) with
    | none => []
    | some buffer =>
        match firstSlot fun i =>
            fatNameMatch filename (dirEntry buffer i).name with
        | none => []
        | some i =>
            fs.diskMgr.access 1
              (fs.getSectorByCluster (dirEntry buffer i).cluster) false

def findFreeAccesses (fs : Fs) : List Nat → List Access
  | [] => []
  | i :: is =>
      fs.diskMgr.access 1 (fs.fatStartSector + UInt32.ofNat i) false ++
        match fs.diskMgr.readSector 1 (fs.fatStartSector + UInt32.ofNat i) with
        | none => []
        | some fatTable =>
            match freeWord fatTable i with
            | some _ => []
            | none => findFreeAccesses fs is

def updateFatAccesses (fs : Fs) (cluster : UInt32) : List Access :=
  let sector := fs.fatStartSector + cluster / 128
  fs.diskMgr.access 1 sector false ++ fs.diskMgr.access 1 sector true

def mkdirAccesses (fs : Fs) (name : Str) (uninit : Sector) : List Access :=
  fs.findFileAccesses ++
    match fs.findFile name with
    | some _ => []
    | none =>
        let parentSector := fs.getSectorByCluster fs.currentDirCluster
        fs.diskMgr.access 1 parentSector false ++
          match fs.diskMgr.readSector 1 parentSector with
          | none => []
          | some parentBuffer =>
              let newCluster := fs.findFreeCluster
              fs.findFreeAccesses (List.range 100) ++
                if newCluster = 0 then []
                else
                  let fs' := fs.updateFat uninit newCluster 0x0FFFFFFF
                  fs.updateFatAccesses newCluster ++
                    fs'.diskMgr.access 1 (fs'.getSectorByCluster newCluster)
                      true ++
                    match firstSlot fun i => (dirEntry parentBuffer i).isFree with
                    | none => []
                    | some _ => fs'.diskMgr.access 1 parentSector true

def touchAccesses (fs : Fs) (uninit : Sector) : List Access :=
  let sector := fs.getSectorByCluster fs.currentDirCluster
  let buffer := (fs.diskMgr.readSector 1 sector).getD uninit
  fs.readCurrent ++
    match firstSlot fun i => (dirEntry buffer i).isFree with
    | none => []
    | some _ => fs.diskMgr.access 1 sector true

def rmAccesses (fs : Fs) (filename : Str) (uninit : Sector) : List Access :=
  let sector := fs.getSectorByCluster fs.currentDirCluster
  let buffer := (fs.diskMgr.readSector 1 sector).getD uninit
  fs.readCurrent ++
    match firstSlot fun i => fatNameMatch filename (dirEntry buffer i).name with
    | none => []
    | some _ => fs.diskMgr.access 1 sector true

def getParentAccesses (fs : Fs) : List Access :=
  if fs.currentDirCluster = 2 then [] else fs.readCurrent

def cdComponentAccesses (fs : Fs) (component : Str) : List Access :=
  if component = lit ".." then fs.getParentAccesses
  else if component = lit "." then []
  else fs.findFileAccesses

def cdLoopAccesses : Fs → List Str → List Access
  | _, [] => []
  | fs, component :: rest =>
      fs.cdComponentAccesses component ++
        match fs.cdComponent component with
        | .error _ => []
        | .ok fs => cdLoopAccesses fs rest

/-- Where a path starts, and what is left of it behind a leading slash. -/
def cdStart (fs : Fs) (path : Str) : Fs × Str :=
  if path.headD 0 = slash then
    ({ fs with currentDirCluster := 2, currentPath := [slash] }, path.tail)
  else (fs, path)

def cdAccesses (fs : Fs) (path : Str) : List Access :=
  (fs.cdStart path).1.cdLoopAccesses (components (fs.cdStart path).2)

end Fs

/-- The calls of a session: those that look, with their local buffers, and
those that change something. -/
inductive Call where
  | ls (uninit : Sector)
  | findFile (name : Str)
  | cat (filename : Str) (uninit : Sector) (beyond : Nat → UInt8)
  | op (o : Op)

namespace Call

def accesses (fs : Fs) : Call → List Access
  | .ls _ => fs.lsAccesses
  | .findFile _ => fs.findFileAccesses
  | .cat filename _ _ => fs.catAccesses filename
  | .op (.cd path) => fs.cdAccesses path
  | .op (.mkdir name uninit) => fs.mkdirAccesses name uninit
  | .op (.touch _ uninit) => fs.touchAccesses uninit
  | .op (.rm filename uninit) => fs.rmAccesses filename uninit

/-- A call, with `std::cout`. -/
def run (s : Fs × Ostream) : Call → Fs × Ostream
  | .ls uninit => (s.1, s.1.ls s.2 uninit)
  | .findFile _ => s
  | .cat filename uninit beyond => s.1.cat s.2 filename uninit beyond
  | .op o => (s.1.perform o, s.2)

def Step (s : Fs × Ostream) (call : Call) (s' : Fs × Ostream) : Prop :=
  s' = call.run s

end Call

end TermOS.Storage
