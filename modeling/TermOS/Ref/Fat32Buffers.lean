import TermOS.Ref.Fat32Access

/-!
# The driver with its local buffers (`fat32.cpp`)

The functions of the driver once more, each with whatever its local sector
buffers hold when it is entered, in the order of the reads into them, and with
a record of what it asks of `write_sector`. Where the result of a read is
checked the buffer is an argument all the same; that it makes no difference
there is a theorem.
-/

namespace TermOS.Storage

open TermOS.Console (Ostream)

/-- `read_sector` as it fills a buffer. -/
def DiskManager.readInto (d : DiskManager) (driveIdx : UInt8) (lba : UInt32)
    (buffer : Sector) : Bool × Sector :=
  match d.readSector driveIdx lba with
  | none => (false, buffer)
  | some s => (true, s)

/-- A call of `write_sector`, whether or not it succeeds. -/
structure WriteCall where
  drive : UInt8
  lba : UInt32
  buffer : Sector

/-- The driver, `std::cout`, the calls of `write_sector` so far, and what the
last `fat32_find_file` has returned. -/
structure Session where
  fs : Fs
  cout : Ostream
  writes : List WriteCall
  found : Option DirEntry

/-- What the local buffers hold when an operation is entered. -/
abbrev Buffers := Nat → Sector

namespace Fs

/-- The sector of the current directory is read into a buffer. -/
def readCurrentInto (fs : Fs) (buffer : Sector) : Bool × Sector :=
  fs.diskMgr.readInto 1 (fs.getSectorByCluster fs.currentDirCluster) buffer

def findFileInto (fs : Fs) (name : Str) (buffer : Sector) : Option DirEntry :=
  let read := fs.readCurrentInto buffer
  if read.1 then
    (firstSlot fun i => !(dirEntry read.2 i).isFree &&
      fatNameMatch name (dirEntry read.2 i).name).map (dirEntry read.2)
  else none

/-- One buffer for all sectors of the FAT. -/
def findFreeInto (fs : Fs) : Sector → List Nat → UInt32
  | _, [] => 0
  | fatTable, i :: is =>
      let read := fs.diskMgr.readInto 1 (fs.fatStartSector + UInt32.ofNat i)
        fatTable
      if read.1 then
        match freeWord read.2 i with
        | some j => UInt32.ofNat (i * 128 + j.val)
        | none => findFreeInto fs read.2 is
      else 0

def getParentInto (fs : Fs) (buffer : Sector) : UInt32 :=
  if fs.currentDirCluster = 2 then 0
  else
    let read := fs.readCurrentInto buffer
    if read.1 then
      if firstByte (dirEntry read.2 ⟨1, one_lt_slots⟩).name ≠ dot then 0
      else (dirEntry read.2 ⟨1, one_lt_slots⟩).cluster
    else 0

/-- One round of the loop of `fat32_cd`, with the buffer of the function that
it calls. -/
def cdComponentInto (fs : Fs) (component : Str) (buffer : Sector) :
    Except Str Fs :=
  if component = lit ".." then
    let parent := fs.getParentInto buffer
    if parent ≠ 0 then
      .ok { fs with
        currentDirCluster := parent, currentPath := parentPath fs.currentPath }
    else .ok fs
  else if component = lit "." then .ok fs
  else
    match fs.findFileInto component buffer with
    | none => .error (lit "Directory not found: " ++ component)
    | some entry =>
        if entry.isDirectory then
          .ok { fs with
            currentDirCluster := entry.cluster
            currentPath := childPath fs.currentPath component }
        else .error (component ++ lit " is not a directory!")

/-- The loop of `fat32_cd`; in every round the callee has a buffer of its
own. -/
def cdLoopInto : Fs → List Str → Buffers → Except Str Fs
  | fs, [], _ => .ok fs
  | fs, component :: rest, buffers =>
      match fs.cdComponentInto component (buffers 0) with
      | .error message => .error message
      | .ok fs => cdLoopInto fs rest fun k => buffers (k + 1)

end Fs

namespace Session

def errln (s : Session) (message : Str) : Session :=
  { s with fs := s.fs.errln message }

def write (s : Session) (lba : UInt32) (buffer : Sector) : Bool × Session :=
  ((s.fs.write lba buffer).1,
    { s with
      fs := (s.fs.write lba buffer).2
      writes := s.writes ++ [⟨1, lba, buffer⟩] })

def ls (s : Session) (buffers : Buffers) : Session :=
  { s with
    cout := (Fs.shown (s.fs.readCurrentInto (buffers 0)).2).foldl Fs.lsLine
      s.cout }

def findFile (s : Session) (name : Str) (buffers : Buffers) : Session :=
  { s with found := s.fs.findFileInto name (buffers 0) }

def cat (s : Session) (filename : Str) (buffers : Buffers)
    (beyond : Nat → UInt8) : Session :=
  let read := s.fs.readCurrentInto (buffers 0)
  if read.1 then
    match firstSlot fun i => fatNameMatch filename (dirEntry read.2 i).name with
    | none => s.errln (lit "File not found!")
    | some i =>
        let e := dirEntry read.2 i
        let data := (s.fs.diskMgr.readInto 1
          (s.fs.getSectorByCluster e.cluster) (buffers 1)).2
        let bytes := (List.range e.fileSize.toNat).map fun j =>
          data.toList.getD j (beyond j)
        { s with cout := (bytes.foldl Ostream.char s.cout).endl }
  else s.errln (lit "Error reading directory!")

def updateFat (s : Session) (cluster value : UInt32) (buffer : Sector) :
    Session :=
  let sector := s.fs.fatStartSector + cluster / 128
  let fatTable := (s.fs.diskMgr.readInto 1 sector buffer).2
  (s.write sector (setFatWord fatTable (fatOffset cluster) value)).2

/-- The buffers are those of `fat32_find_file`, of `fat32_mkdir` itself, of
`fat32_find_free_cluster` and of `fat32_update_fat`. -/
def mkdir (s : Session) (name : Str) (buffers : Buffers) : Session :=
  match s.fs.findFileInto name (buffers 0) with
  | some _ => s.errln (lit "Error: Directory or file already exists!")
  | none =>
      let parentSector := s.fs.getSectorByCluster s.fs.currentDirCluster
      let read := s.fs.diskMgr.readInto 1 parentSector (buffers 1)
      if read.1 then
        let newCluster := s.fs.findFreeInto (buffers 2) (List.range 100)
        if newCluster = 0 then s.errln (lit "No free clusters!")
        else
          let s := s.updateFat newCluster 0x0FFFFFFF (buffers 3)
          let parentCluster :=
            if s.fs.currentDirCluster = 2 then 0 else s.fs.currentDirCluster
          match s.write (s.fs.getSectorByCluster newCluster)
              (dotEntries newCluster parentCluster) with
          | (false, s) => s.errln (lit "Error writing new directory cluster!")
          | (true, s) =>
              match firstSlot fun i => (dirEntry read.2 i).isFree with
              | none => s.errln (lit "No free entry in parent directory!")
              | some i =>
                  let e := newDirEntry (dirEntry read.2 i) name newCluster
                  match s.write parentSector (setDirEntry read.2 i e) with
                  | (false, s) =>
                      s.errln (lit "Error writing parent directory!")
                  | (true, s) => s
      else s.errln (lit "Error reading parent directory!")

def cd (s : Session) (path : Str) (buffers : Buffers) : Session :=
  let start := s.fs.cdStart path
  if path.headD 0 = slash ∧ start.2.headD 0 = 0 then { s with fs := start.1 }
  else
    match start.1.cdLoopInto (components start.2) buffers with
    | .error message => s.errln message
    | .ok fs => { s with fs := fs }

def touch (s : Session) (name : Str) (buffers : Buffers) : Session :=
  let buffer := (s.fs.readCurrentInto (buffers 0)).2
  match firstSlot fun i => (dirEntry buffer i).isFree with
  | none => s
  | some i =>
      (s.write (s.fs.getSectorByCluster s.fs.currentDirCluster)
        (setDirEntry buffer i (newFileEntry (dirEntry buffer i) name))).2

def rm (s : Session) (filename : Str) (buffers : Buffers) : Session :=
  let buffer := (s.fs.readCurrentInto (buffers 0)).2
  match firstSlot fun i => fatNameMatch filename (dirEntry buffer i).name with
  | none => s.errln (lit "File not found!")
  | some i =>
      (s.write (s.fs.getSectorByCluster s.fs.currentDirCluster)
        (setDirEntry buffer i (removed (dirEntry buffer i)))).2

end Session

/-- The operations of the driver that read a sector. -/
inductive Operation where
  | ls
  | findFile (name : Str)
  | cat (filename : Str)
  | mkdir (name : Str)
  | cd (path : Str)
  | rm (filename : Str)
  | touch (name : Str)
  | updateFat (cluster value : UInt32)

namespace Operation

/-- An operation, with what its local buffers hold and what `fat32_cat` finds
behind the last of them. -/
def run (s : Session) (buffers : Buffers) (beyond : Nat → UInt8) :
    Operation → Session
  | .ls => s.ls buffers
  | .findFile name => s.findFile name buffers
  | .cat filename => s.cat filename buffers beyond
  | .mkdir name => s.mkdir name buffers
  | .cd path => s.cd path buffers
  | .rm filename => s.rm filename buffers
  | .touch name => s.touch name buffers
  | .updateFat cluster value => s.updateFat cluster value (buffers 0)

/-- The sector that an operation asks for first. -/
def sector (fs : Fs) : Operation → UInt32
  | .updateFat cluster _ => fs.fatStartSector + cluster / 128
  | .cd path =>
      (fs.cdStart path).1.getSectorByCluster (fs.cdStart path).1.currentDirCluster
  | _ => fs.getSectorByCluster fs.currentDirCluster

end Operation

end TermOS.Storage
