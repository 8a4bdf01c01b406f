import TermOS.Ref.Disk

/-!
# The FAT32 driver (`fat32.cpp`)

The globals of `namespace Storage` and the functions over them. A C string is
the list of its bytes; reading behind the end of the list reads the
terminating zero, and a zero inside the list ends the string early, as it does
in C. The buffers for paths are as long as they need to be.

A local buffer of the source that may be used without having been read into is
an argument, `uninit`: whatever the stack held. What `std::cerr` prints is
state; the code never reads it back.
-/

namespace TermOS.Storage

abbrev Str := List UInt8

abbrev slash : UInt8 := 0x2F
abbrev dot : UInt8 := 0x2E
abbrev space : UInt8 := 0x20
abbrev newline : UInt8 := 0x0A
abbrev carriageReturn : UInt8 := 0x0D

/-- The bytes of a literal of the source. -/
def lit (s : String) : Str := s.toList.map fun c => UInt8.ofNat c.toNat

structure Fs where
  diskMgr : DiskManager
  fatStartSector : UInt32
  dataStartSector : UInt32
  sectorsPerClusterGlobal : UInt8
  currentDirCluster : UInt32
  currentPath : Str
  cerr : Str

/-! ## Names -/

/-- `if (c >= 'a' && c <= 'z') c -= 32`. -/
def upper (c : UInt8) : UInt8 := if 0x61 ≤ c ∧ c ≤ 0x7A then c - 32 else c

/-- The loop of `fat_name_match`, with the rest of the input and the rest of
the eight characters of the name. -/
def matchChars : Str → List UInt8 → Bool
  | _, [] => true
  | input, f :: fs =>
      let inC := input.headD 0
      if inC = 0 ∨ inC = dot ∨ inC = newline ∨ inC = carriageReturn then
        (f :: fs).all (· == space)
      else if upper inC ≠ f then false
      else matchChars input.tail fs

def fatNameMatch (input : Str) (fatName : Vector UInt8 11) : Bool :=
  matchChars input (fatName.toList.take 8)

/-- The eleven bytes `mkdir` and `touch` make of a name: blanks, and over them
up to eight characters of the name before its first dot. -/
def fatName (name : Str) : Vector UInt8 11 :=
  let stem := (name.take 8).takeWhile fun c => c ≠ 0 ∧ c ≠ dot
  Vector.ofFn fun k => (stem.map upper).getD k.val space

/-- `(uint8_t)name[0]`. -/
def firstByte (name : Vector UInt8 11) : UInt8 := name[0]

namespace DirEntry

/-- `name[0] == 0x00 || (uint8_t)name[0] == 0xE5`. -/
def isFree (e : DirEntry) : Bool :=
  firstByte e.name == 0x00 || firstByte e.name == 0xE5

/-- `attributes & 0x10`. -/
def isDirectory (e : DirEntry) : Bool := e.attributes &&& 0x10 != 0

end DirEntry

/-! ## Entries -/

/-- A directory entry that is `memset` to zero but for its name and
attributes and the cluster. -/
def dotEntry (name : Vector UInt8 11) (cluster : UInt32) : DirEntry :=
  DirEntry.withCluster
    { DirEntry.ofBytes (Vector.replicate 32 0) with
      name := name, attributes := 0x10 } cluster

/-- `memset(name, ' ', 11); name[0] = '.';`. -/
def dotName : Vector UInt8 11 := (Vector.replicate 11 space).set 0 dot

def dotdotName : Vector UInt8 11 := dotName.set 1 dot

/-- The first sector of a new directory. -/
def dotEntries (newCluster parentCluster : UInt32) : Sector :=
  setDirEntry (setDirEntry zeroSector 0 (dotEntry dotName newCluster))
    1 (dotEntry dotdotName parentCluster)

/-- The entry `mkdir` makes of the free one it found. -/
def newDirEntry (e : DirEntry) (name : Str) (newCluster : UInt32) : DirEntry :=
  { e.withCluster newCluster with
    name := fatName name, attributes := 0x10, fileSize := 0 }

/-- The entry `touch` makes of the free one it found. -/
def newFileEntry (e : DirEntry) (name : Str) : DirEntry :=
  { e with
    name := fatName name, attributes := 0x20, clusterLow := 0, clusterHigh := 0,
    fileSize := 0 }

/-- `name[0] = 0xE5`. -/
def removed (e : DirEntry) : DirEntry := { e with name := e.name.set 0 0xE5 }

/-- The first slot with a property, as the loops over `i < 16` find it. -/
def firstSlot (p : Fin 16 → Bool) : Option (Fin 16) := (List.finRange 16).find? p

/-- `cluster % 128`. -/
def fatOffset (cluster : UInt32) : Fin 128 :=
  ⟨cluster.toNat % 128, Nat.mod_lt _ (Nat.succ_pos 127)⟩

theorem one_lt_slots : 1 < 16 := by decide

namespace Fs

/-- `std::cerr << s << std::endl`. -/
def errln (fs : Fs) (s : Str) : Fs :=
  { fs with cerr := fs.cerr ++ s ++ [newline] }

def getSectorByCluster (fs : Fs) (cluster : UInt32) : UInt32 :=
  fs.dataStartSector + (cluster - 2) * fs.sectorsPerClusterGlobal.toUInt32

/-- A `write_sector` to drive 1 and whether it succeeded. -/
def write (fs : Fs) (lba : UInt32) (buffer : Sector) : Bool × Fs :=
  match fs.diskMgr.writeSector 1 lba buffer with
  | none => (false, fs)
  | some d => (true, { fs with diskMgr := d })

def findFile (fs : Fs) (name : Str) : Option DirEntry :=
  match fs.diskMgr.readSector 1 (fs.getSectorByCluster fs.currentDirCluster) with
  | none => none
  | some buffer =>
      (firstSlot fun i => !(dirEntry buffer i).isFree &&
        fatNameMatch name (dirEntry buffer i).name).map (dirEntry buffer)

/-! ## The FAT -/

/-- The inner loop of `fat32_find_free_cluster`, over one sector of the FAT. -/
def freeWord (fatTable : Sector) (i : Nat) : Option (Fin 128) :=
  (List.finRange 128).find? fun j => fatWord fatTable j == 0 && 2 ≤ i * 128 + j.val

def findFreeFrom (fs : Fs) : List Nat → UInt32
  | [] => 0
  | i :: is =>
      match fs.diskMgr.readSector 1 (fs.fatStartSector + UInt32.ofNat i) with
      | none => 0
      | some fatTable =>
          match freeWord fatTable i with
          | some j => UInt32.ofNat (i * 128 + j.val)
          | none => findFreeFrom fs is

def findFreeCluster (fs : Fs) : UInt32 := fs.findFreeFrom (List.range 100)

def updateFat (fs : Fs) (uninit : Sector) (cluster value : UInt32) : Fs :=
  let sector := fs.fatStartSector + cluster / 128
  let fatTable := (fs.diskMgr.readSector 1 sector).getD uninit
  (fs.write sector (setFatWord fatTable (fatOffset cluster) value)).2

/-! ## Directories -/

def mkdir (fs : Fs) (name : Str) (uninit : Sector) : Fs :=
  match fs.findFile name with
  | some _ => fs.errln (lit "Error: Directory or file already exists!")
  | none =>
      let parentSector := fs.getSectorByCluster fs.currentDirCluster
      match fs.diskMgr.readSector 1 parentSector with
      | none => fs.errln (lit "Error reading parent directory!")
      | some parentBuffer =>
          let newCluster := fs.findFreeCluster
          if newCluster = 0 then fs.errln (lit "No free clusters!")
          else
            let fs := fs.updateFat uninit newCluster 0x0FFFFFFF
            let parentCluster :=
              if fs.currentDirCluster = 2 then 0 else fs.currentDirCluster
            match fs.write (fs.getSectorByCluster newCluster)
                (dotEntries newCluster parentCluster) with
            | (false, fs) => fs.errln (lit "Error writing new directory cluster!")
            | (true, fs) =>
                match firstSlot fun i => (dirEntry parentBuffer i).isFree with
                | none => fs.errln (lit "No free entry in parent directory!")
                | some i =>
                    let e := newDirEntry (dirEntry parentBuffer i) name newCluster
                    match fs.write parentSector (setDirEntry parentBuffer i e) with
                    | (false, fs) =>
                        fs.errln (lit "Error writing parent directory!")
                    | (true, fs) => fs

def touch (fs : Fs) (name : Str) (uninit : Sector) : Fs :=
  let sector := fs.getSectorByCluster fs.currentDirCluster
  let buffer := (fs.diskMgr.readSector 1 sector).getD uninit
  match firstSlot fun i => (dirEntry buffer i).isFree with
  | none => fs
  | some i =>
      (fs.write sector
        (setDirEntry buffer i (newFileEntry (dirEntry buffer i) name))).2

def rm (fs : Fs) (filename : Str) (uninit : Sector) : Fs :=
  let sector := fs.getSectorByCluster fs.currentDirCluster
  let buffer := (fs.diskMgr.readSector 1 sector).getD uninit
  match firstSlot fun i => fatNameMatch filename (dirEntry buffer i).name with
  | none => fs.errln (lit "File not found!")
  | some i =>
      (fs.write sector (setDirEntry buffer i (removed (dirEntry buffer i)))).2

def getParentCluster (fs : Fs) : UInt32 :=
  if fs.currentDirCluster = 2 then 0
  else
    match fs.diskMgr.readSector 1
        (fs.getSectorByCluster fs.currentDirCluster) with
    | none => 0
    | some buffer =>
        if firstByte (dirEntry buffer 1).name ≠ dot then 0
        else (dirEntry buffer 1).cluster

end Fs

/-! ## Paths -/

/-- `c != '\0' && c != '/'`. -/
def isPlain (c : UInt8) : Bool := c != 0 && c != slash

/-- The components the loop of `fat32_cd` cuts a path into. The loop cuts off
one at a time, but nothing it does with a component changes the rest. -/
def components : Str → List Str
  | [] => []
  | c :: path =>
      if c = 0 then []
      else if c = slash then components path
      else
        (c :: path.takeWhile isPlain) :: components (path.dropWhile isPlain)
termination_by path => path.length
decreasing_by
  · exact Nat.lt_succ_self _
  · exact Nat.lt_succ_of_le (List.dropWhile_sublist _).length_le

/-- `last_slash`, `none` for `-1`. -/
def lastSlash (path : Str) : Option Nat :=
  (List.range path.length).reverse.find? fun k => path.getD k 0 == slash

/-- The path without its last component. -/
def parentPath (path : Str) : Str :=
  if path.length > 1 then
    match lastSlash path with
    | some 0 => path.take 1
    | some k => path.take k
    | none => path
  else path

/-- `if (…) strcat(current_path, "/"); strcat(current_path, component);`. -/
def childPath (path component : Str) : Str :=
  (if path.getLastD 0 ≠ slash then path ++ [slash] else path) ++ component

namespace Fs

/-- One round of the loop of `fat32_cd`: the next state, or the message the
loop gives up with. -/
def cdComponent (fs : Fs) (component : Str) : Except Str Fs :=
  if component = lit ".." then
    let parent := fs.getParentCluster
    if parent ≠ 0 then
      .ok { fs with
        currentDirCluster := parent, currentPath := parentPath fs.currentPath }
    else .ok fs
  else if component = lit "." then .ok fs
  else
    match fs.findFile component with
    | none => .error (lit "Directory not found: " ++ component)
    | some entry =>
        if entry.isDirectory then
          .ok { fs with
            currentDirCluster := entry.cluster
            currentPath := childPath fs.currentPath component }
        else .error (component ++ lit " is not a directory!")

def cdLoop : Fs → List Str → Except Str Fs
  | fs, [] => .ok fs
  | fs, component :: rest =>
      match fs.cdComponent component with
      | .error message => .error message
      | .ok fs => cdLoop fs rest

/-- `fat32_cd`. On an error `current_dir_cluster` and `current_path` are what
they were before; nothing else has changed. -/
def cd (fs : Fs) (path : Str) : Fs :=
  let absolute := path.headD 0 = slash
  let start :=
    if absolute then
      { fs with currentDirCluster := 2, currentPath := [slash] }
    else fs
  let rest := if absolute then path.tail else path
  if absolute ∧ rest.headD 0 = 0 then start
  else
    match start.cdLoop (components rest) with
    | .error message => fs.errln message
    | .ok fs => fs

end Fs

/-- The commands that change the volume or the current directory. -/
inductive Op where
  | cd (path : Str)
  | mkdir (name : Str) (uninit : Sector)
  | touch (name : Str) (uninit : Sector)
  | rm (filename : Str) (uninit : Sector)

def Fs.perform (fs : Fs) : Op → Fs
  | .cd path => fs.cd path
  | .mkdir name uninit => fs.mkdir name uninit
  | .touch name uninit => fs.touch name uninit
  | .rm filename uninit => fs.rm filename uninit

def Fs.Step (fs : Fs) (op : Op) (fs' : Fs) : Prop := fs' = fs.perform op

end TermOS.Storage
