import TermOS.Lib.Records

/-!
# The disks and what lies in a sector (`ata.cpp`, `fat32.hpp`)

A drive is a map from LBA to sectors of 512 bytes. That its registers take no
more than 28 bits of an LBA is left out, so what is proved of the FAT over this
map assumes volumes that end below 2^28: what `ata.cpp` makes of an LBA from
there on is in `Proofs.Lba28`, and that below it the ports give this map is in
`Proofs.AtaVolumes`.

The code casts a buffer of one sector to an array of sixteen
`fat32_dir_entry_t` or of 128 words of the FAT; here the casts are the functions
`dirEntry` and `fatWord`, and stores through the cast pointers are
`setDirEntry` and `setFatWord`.
-/

namespace TermOS.Storage

open TermOS.Lib

abbrev Sector := Vector UInt8 512

def zeroSector : Sector := Vector.replicate 512 0

/-- `DiskManager`: how many drives were found and what is on them. -/
structure DiskManager where
  driveCount : UInt8
  sectors : UInt8 → UInt32 → Sector

namespace DiskManager

/-- `read_sector`; on `none` it returned `false` and left the buffer alone. -/
def readSector (d : DiskManager) (driveIdx : UInt8) (lba : UInt32) :
    Option Sector :=
  if driveIdx ≥ d.driveCount then none else some (d.sectors driveIdx lba)

/-- `write_sector`; on `none` it returned `false`. -/
def writeSector (d : DiskManager) (driveIdx : UInt8) (lba : UInt32)
    (buffer : Sector) : Option DiskManager :=
  if driveIdx ≥ d.driveCount then none
  else
    some { d with
      sectors := Function.update d.sectors driveIdx
        (Function.update (d.sectors driveIdx) lba buffer) }

end DiskManager

/-- `fat32_dir_entry_t`. -/
structure DirEntry where
  name : Vector UInt8 11
  attributes : UInt8
  reserved : UInt8
  createdTimeMs : UInt8
  createdTime : UInt16
  createdDate : UInt16
  lastAccessDate : UInt16
  clusterHigh : UInt16
  modifiedTime : UInt16
  modifiedDate : UInt16
  clusterLow : UInt16
  fileSize : UInt32
  deriving DecidableEq

namespace DirEntry

/-- The entry stored in 32 bytes, the struct being packed. -/
def ofBytes (b : Vector UInt8 32) : DirEntry where
  name := Vector.ofFn fun k => b[k.val]
  attributes := b[11]
  reserved := b[12]
  createdTimeMs := b[13]
  createdTime := le16 b[14] b[15]
  createdDate := le16 b[16] b[17]
  lastAccessDate := le16 b[18] b[19]
  clusterHigh := le16 b[20] b[21]
  modifiedTime := le16 b[22] b[23]
  modifiedDate := le16 b[24] b[25]
  clusterLow := le16 b[26] b[27]
  fileSize := le32 b[28] b[29] b[30] b[31]

/-- The byte at an offset behind the name. -/
def byteAt (e : DirEntry) : Nat → UInt8
  | 11 => e.attributes
  | 12 => e.reserved
  | 13 => e.createdTimeMs
  | 14 => byte16 e.createdTime 0
  | 15 => byte16 e.createdTime 1
  | 16 => byte16 e.createdDate 0
  | 17 => byte16 e.createdDate 1
  | 18 => byte16 e.lastAccessDate 0
  | 19 => byte16 e.lastAccessDate 1
  | 20 => byte16 e.clusterHigh 0
  | 21 => byte16 e.clusterHigh 1
  | 22 => byte16 e.modifiedTime 0
  | 23 => byte16 e.modifiedTime 1
  | 24 => byte16 e.modifiedDate 0
  | 25 => byte16 e.modifiedDate 1
  | 26 => byte16 e.clusterLow 0
  | 27 => byte16 e.clusterLow 1
  | k => byte32 e.fileSize (k - 28)

def toBytes (e : DirEntry) : Vector UInt8 32 :=
  Vector.ofFn fun k => if h : k.val < 11 then e.name[k.val] else e.byteAt k

/-- `((uint32_t)cluster_high << 16) | cluster_low`. -/
def cluster (e : DirEntry) : UInt32 :=
  e.clusterHigh.toUInt32 <<< 16 ||| e.clusterLow.toUInt32

/-- The stores `cluster_low = c & 0xFFFF` and
`cluster_high = (c >> 16) & 0xFFFF`. -/
def withCluster (e : DirEntry) (c : UInt32) : DirEntry :=
  { e with
    clusterLow := (c &&& 0xFFFF).toUInt16
    clusterHigh := ((c >>> 16) &&& 0xFFFF).toUInt16 }

end DirEntry

theorem entries_size : 16 * 32 = 512 := rfl

theorem words_size : 128 * 4 = 512 := rfl

/-- `((fat32_dir_entry_t*)buffer)[i]`. -/
def dirEntry (s : Sector) (i : Fin 16) : DirEntry :=
  .ofBytes (record entries_size s i)

def setDirEntry (s : Sector) (i : Fin 16) (e : DirEntry) : Sector :=
  setRecord entries_size s i e.toBytes

/-- `((uint32_t*)buffer)[j]`. -/
def fatWord (s : Sector) (j : Fin 128) : UInt32 :=
  let b := record words_size s j
  le32 b[0] b[1] b[2] b[3]

def setFatWord (s : Sector) (j : Fin 128) (v : UInt32) : Sector :=
  setRecord words_size s j (Vector.ofFn fun k => byte32 v k.val)

end TermOS.Storage
