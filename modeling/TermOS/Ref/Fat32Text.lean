import TermOS.Ref.Fat32
import TermOS.Ref.Iostream

/-!
# What the FAT32 driver prints, and how it starts (`fat32.cpp`)

`fat32_init` takes the layout of the volume from the boot sector and reports
it; `fat32_ls`, `fat32_cat` and `fat32_pwd` only look. `root_dir_sector` is
computed for the report and read by nothing else, so it is not state. Of the
boot sector the fields nothing reads are left out.
-/

namespace TermOS.Storage

open TermOS.Lib
open TermOS.Console (Ostream)

/-- `fat32_bpb_t`, with the byte offsets of the packed struct. `oemName` runs
to the end of the sector, since the field has no terminating zero of its
own. -/
structure Bpb where
  oemName : Str
  bytesPerSector : UInt16
  sectorsPerCluster : UInt8
  reservedSectors : UInt16
  fatCount : UInt8
  fatSize32 : UInt32
  rootCluster : UInt32

/-- `(fat32_bpb_t*)buffer`. -/
def Bpb.ofSector (b : Sector) : Bpb where
  oemName := b.toList.drop 3
  bytesPerSector := le16 b[11] b[12]
  sectorsPerCluster := b[13]
  reservedSectors := le16 b[14] b[15]
  fatCount := b[16]
  fatSize32 := le32 b[36] b[37] b[38] b[39]
  rootCluster := le32 b[44] b[45] b[46] b[47]

/-- Bytes 510 and 511 of a boot sector. -/
def signature (b : Sector) : UInt8 × UInt8 := (b[510], b[511])

/-- The signature of a boot sector is the one `fat32_init` asks for. -/
def Signed (b : Sector) : Prop := signature b = (0x55, 0xAA)

instance (b : Sector) : Decidable (Signed b) :=
  inferInstanceAs (Decidable (_ = _))

/-- `<< (int)x` for a byte. -/
def putByte (cout : Ostream) (x : UInt8) : Ostream := cout.int x.toUInt32.toInt32

namespace Fs

/-- The lines `fat32_init` prints about the volume it found. -/
def initReport (cout : Ostream) (driveIdx : UInt8) (bpb : Bpb)
    (rootDirSector : UInt32) : Ostream :=
  let cout := ((cout.str (lit "[FAT32] Root Sector: ")).uint
    rootDirSector.toUInt64).endl
  let cout := (putByte (cout.str (lit "[FAT32] Found Drive ")) driveIdx).endl
  let cout :=
    (putByte (cout.str (lit "[FAT32] Initializing Drive ")) driveIdx).endl
  let cout := ((cout.str (lit "        OEM Name: ")).str bpb.oemName).endl
  let cout := ((cout.str (lit "        Bytes per sector: ")).int
    bpb.bytesPerSector.toUInt32.toInt32).endl
  let cout := (putByte (cout.str (lit "        Sectors per cluster: "))
    bpb.sectorsPerCluster).endl
  let cout := (((cout.str (lit "        FAT Size: ")).uint
    bpb.fatSize32.toUInt64).str (lit " sectors")).endl
  ((cout.str (lit "        Root Cluster: ")).uint bpb.rootCluster.toUInt64).endl

/-- `fat32_init`, with what `std::cout` is afterwards. -/
def init (fs : Fs) (cout : Ostream) (driveIdx : UInt8) : Fs × Ostream :=
  match fs.diskMgr.readSector driveIdx 0 with
  | none => (fs.errln (lit "[FAT32] Read Error!"), cout)
  | some buffer =>
      if Signed buffer then
        let bpb := Bpb.ofSector buffer
        let dataStart := bpb.reservedSectors.toUInt32 +
          bpb.fatCount.toUInt32 * bpb.fatSize32
        let rootDirSector := dataStart +
          (bpb.rootCluster - 2) * bpb.sectorsPerCluster.toUInt32
        ({ fs with
            fatStartSector := bpb.reservedSectors.toUInt32
            dataStartSector := dataStart
            sectorsPerClusterGlobal := bpb.sectorsPerCluster
            currentDirCluster := bpb.rootCluster
            currentPath := [slash] },
          initReport cout driveIdx bpb rootDirSector)
      else
        -- `std::hex` is in front of the two bytes.
        let cerr : Ostream := ⟨.hex, []⟩
        let cerr := putByte (cerr.str (lit "[FAT32] Invalid boot signature: "))
          (signature buffer).1
        (fs.errln (putByte (cerr.str (lit " ")) (signature buffer).2).written,
          cout)

/-- The entries `fat32_ls` shows, of those in the buffer: up to the first that
begins with `0x00`, without those that begin with `0xE5`. -/
def shown (buffer : Sector) : List DirEntry :=
  (((List.finRange 16).map (dirEntry buffer)).takeWhile fun e =>
    firstByte e.name ≠ 0).filter fun e => firstByte e.name ≠ 0xE5

/-- The line of an entry. -/
def lsLine (cout : Ostream) (e : DirEntry) : Ostream :=
  let cout := e.name.toList.foldl Ostream.char cout
  (if e.isDirectory then cout.str (lit " <DIR>")
    else (((cout.str (lit " ")).fmt .dec).uint e.fileSize.toUInt64).str
      (lit " bytes")).endl

/-- The buffer of `fat32_ls`; the result of the read is not looked at. -/
def lsBuffer (fs : Fs) (uninit : Sector) : Sector :=
  (fs.diskMgr.readSector 1 (fs.getSectorByCluster fs.currentDirCluster)).getD
    uninit

def ls (fs : Fs) (cout : Ostream) (uninit : Sector) : Ostream :=
  (shown (fs.lsBuffer uninit)).foldl lsLine cout

/-- `fat32_cat`. The loop over `file_size` runs past the 512 bytes it has read
if the file is longer, and `beyond` is what it finds there. -/
def cat (fs : Fs) (cout : Ostream) (filename : Str) (uninit : Sector)
    (beyond : Nat → UInt8) : Fs × Ostream :=
  match fs.diskMgr.readSector 1 (fs.getSectorByCluster fs.currentDirCluster) with
  | none => (fs.errln (lit "Error reading directory!"), cout)
  | some buffer =>
      match firstSlot fun i => fatNameMatch filename (dirEntry buffer i).name with
      | none => (fs.errln (lit "File not found!"), cout)
      | some i =>
          let e := dirEntry buffer i
          let data := (fs.diskMgr.readSector 1
            (fs.getSectorByCluster e.cluster)).getD uninit
          let bytes := (List.range e.fileSize.toNat).map fun j =>
            data.toList.getD j (beyond j)
          (fs, (bytes.foldl Ostream.char cout).endl)

/-- `fat32_pwd`. -/
def pwd (fs : Fs) (cout : Ostream) : Ostream := (cout.str fs.currentPath).endl

end Fs

end TermOS.Storage
