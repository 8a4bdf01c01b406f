import TermOS.Proofs.FatCopies
import TermOS.Proofs.FreeCluster
import TermOS.Proofs.NullArgument
import TermOS.Proofs.PowerLoss
import TermOS.Proofs.Recall
import TermOS.Proofs.RootCluster

/-!
# The volume from one boot to the next

All that is left of a session is on the disk. A machine is switched on, runs
its shell for a while, loses its power in front of a command or in the middle
of one, and is switched on again, any number of times. The boot sector is
never written to, so `fat32_init` finds the layout it found before, and the
driver is then where `cd /` would have led. The volume is a directory tree
each time.

All of this is said of a volume in order, which is `Mountable`. On a drive
without a boot sector the layout is all zeros, and the first `touch` writes to
sector 0. Lines and paths are taken to fit their buffers, which have no bounds
in `Shell` and `Fs`.
-/

namespace TermOS.Shell

open TermOS.Lib
open TermOS.Console (Ostream)
open TermOS.Storage (DiskManager Fs Op Sector SectorWrite Shape Str Volume Geometry Signed
  Bpb lit slash)

/-! ## What a session does to the driver -/

namespace Kernel

variable {k k' : Kernel} {editorMain : UInt64} {hidden : Hidden} {text : Str}
  {P : Fs → Prop}

/-- `fat32_cat` reports an error at most. -/
theorem fs_cat (fs : Fs) (cout : Ostream) (filename : Str) (uninit : Sector)
    (beyond : Nat → UInt8) : (fs.cat cout filename uninit beyond).1 = fs ∨
      ∃ m, (fs.cat cout filename uninit beyond).1 = fs.errln m := by
  rw [Fs.cat]
  split
  · exact .inr ⟨_, rfl⟩
  · split
    · exact .inr ⟨_, rfl⟩
    · exact .inl rfl

theorem fs_after (k : Kernel) (r : Fs × Ostream) : (k.after r).fs = r.1 := rfl

theorem fs_call (k : Kernel) (fs : Fs) : (k.call fs).fs = fs := rfl

section Induct

variable (herr : ∀ fs m, P fs → P (Fs.errln fs m))
  (hop : ∀ fs op, P fs → P (Fs.perform fs op))

include herr hop in
theorem call_induct {call : StorageCall} (hp : P k.fs) :
    P (call.run hidden k).fs := by
  cases call with
  | ls =>
      rw [StorageCall.run, fs_say]
      exact hp
  | cd p =>
      rw [StorageCall.run, fs_call]
      exact hop k.fs (.cd (hidden.deref p)) hp
  | mkdir p =>
      rw [StorageCall.run, fs_call]
      exact hop k.fs (.mkdir (hidden.deref p) hidden.uninit) hp
  | cat p =>
      rw [StorageCall.run, fs_after]
      rcases fs_cat k.fs k.out (hidden.deref p) hidden.uninit hidden.beyond with
        heq | ⟨m, heq⟩ <;> rw [heq]
      · exact hp
      · exact herr _ _ hp
  | touch p =>
      rw [StorageCall.run, fs_call]
      exact hop k.fs (.touch (hidden.deref p) hidden.uninit) hp
  | rm p =>
      rw [StorageCall.run, fs_call]
      exact hop k.fs (.rm (hidden.deref p) hidden.uninit) hp

include herr hop in
theorem calls_induct (calls : List StorageCall) (hp : P k.fs) :
    P (calls.foldl (StorageCall.run hidden) k).fs := by
  induction calls generalizing k with
  | nil => exact hp
  | cons call calls ih => exact ih (call_induct herr hop hp)

include herr hop in
/-- What the operations of the driver keep, and its messages, the shell
keeps. -/
theorem Step.fs_induct {e : Event} (hstep : Kernel.Step editorMain k e k')
    (hp : P k.fs) : P k'.fs := by
  cases e with
  | timer rsp =>
      obtain ⟨fuel, s, -, rfl⟩ := hstep
      exact hp
  | ctrlC =>
      obtain rfl := hstep
      exact hp
  | round input =>
      rcases hstep with ⟨text, fetched, ⟨line, read, hread, hfetch⟩, hrun⟩ |
        ⟨line, read, hread, -, -, rfl⟩
      · have hfs : fetched.fs = k.fs := by
          rcases hfetch with ⟨-, -, rfl⟩ | ⟨-, i, fuel, -, -, rfl⟩
          · exact fs_readLine hread
          · exact (fs_say read _).trans (fs_readLine hread)
        obtain ⟨hist, heq⟩ := Execute.fs hrun
        rw [heq]
        refine calls_induct herr hop _ ?_
        show P fetched.fs
        rw [hfs]
        exact hp
      · have hfs : (read.sayLine (lit "No such command in history.")).fs =
          read.fs := fs_say read _
        rw [hfs, fs_readLine hread]
        exact hp

end Induct

/-! ## What `_kmain` makes of the disk -/

variable {hw : Hardware}

theorem fs_registerDriver (k : Kernel) (hw : Hardware) (port : UInt16)
    (type : DriveType) : (k.registerDriver hw port type).fs =
      { k.fs with diskMgr := { k.fs.diskMgr with
          driveCount := k.fs.diskMgr.driveCount +
            if (hw.identify port type).isSome then 1 else 0 } } := by
  rw [registerDriver]
  cases hw.identify port type with
  | none => simp
  | some size => rfl

/-- How many drives answer `DiskManager::init`. -/
def drives (identify : UInt16 → DriveType → Option UInt32) : UInt8 :=
  [(0x1F0, DriveType.ataMaster), (0x1F0, .ataSlave), (0x170, .ataMaster),
    (0x170, .ataSlave)].foldl (fun n d =>
      n + if (identify d.1 d.2).isSome then 1 else 0) 0

theorem fs_diskMgrInit (k : Kernel) (hw : Hardware)
    (h : k.fs = (initial hw).fs) : (k.diskMgrInit hw).fs =
      { (initial hw).fs with
        diskMgr := ⟨drives hw.identify, hw.sectors⟩ } := by
  rw [diskMgrInit, fs_registerDriver, fs_registerDriver, fs_registerDriver,
    fs_registerDriver, sayLine, fs_say, h]
  rfl

theorem fs_mount (k : Kernel) (hw : Hardware) (h : k.fs = (initial hw).fs) :
    ∃ cout, ((k.diskMgrInit hw).after ((k.diskMgrInit hw).fs.init
      (k.diskMgrInit hw).out 1)).fs =
      (Fs.init { (initial hw).fs with
        diskMgr := ⟨drives hw.identify, hw.sectors⟩ } cout 1).1 := by
  refine ⟨(k.diskMgrInit hw).out, ?_⟩
  rw [fs_after, fs_diskMgrInit k hw h]

theorem kmain_fs (hw : Hardware) : ∃ cout, (kmain hw).fs =
    (Fs.init { (initial hw).fs with
      diskMgr := ⟨drives hw.identify, hw.sectors⟩ } cout 1).1 := by
  rw [kmain, fs_say, sayLine, fs_say]
  refine fs_mount _ hw ?_
  rw [fs_say, sayLine, fs_say]

/-- What the boot sector says, and the root as the current directory. -/
theorem kmain_fs_signed (hready : 1 < drives hw.identify)
    (hsigned : Signed (hw.sectors 1 0)) : (kmain hw).fs =
      { diskMgr := ⟨drives hw.identify, hw.sectors⟩
        fatStartSector := (Bpb.ofSector (hw.sectors 1 0)).reservedSectors.toUInt32
        dataStartSector :=
          (Bpb.ofSector (hw.sectors 1 0)).reservedSectors.toUInt32 +
            (Bpb.ofSector (hw.sectors 1 0)).fatCount.toUInt32 *
              (Bpb.ofSector (hw.sectors 1 0)).fatSize32
        sectorsPerClusterGlobal :=
          (Bpb.ofSector (hw.sectors 1 0)).sectorsPerCluster
        currentDirCluster := (Bpb.ofSector (hw.sectors 1 0)).rootCluster
        currentPath := [slash], cerr := [] } := by
  obtain ⟨cout, heq⟩ := kmain_fs hw
  have hread : DiskManager.readSector ⟨drives hw.identify, hw.sectors⟩ 1 0 =
      some (hw.sectors 1 0) := if_neg (UInt8.not_le.2 hready)
  rw [heq, Fs.init_signed hread hsigned]
  rfl

end Kernel

/-! ## Off and on again -/

/-- What happens to the machine: something happens to its shell, or its power
goes off while `op` has handed over the writes `ws`, and it comes on again. -/
inductive PowerEvent where
  | shell (e : Event)
  | cycle (op : Op) (ws : List SectorWrite) (hw : Hardware)

/-- The drives are the same ones after a power cycle, and they hold what they
held. Nothing is said of the memory. -/
def Kernel.PowerStep (editorMain : UInt64)
    (identify : UInt16 → DriveType → Option UInt32) (k : Kernel) :
    PowerEvent → Kernel → Prop
  | .shell e, k' => k.Step editorMain e k'
  | .cycle op ws hw, k' => ws <+: k.fs.writes op ∧ hw.identify = identify ∧
      hw.sectors = (k.fs.cut ws).diskMgr.sectors ∧ k' = kmain hw

/-- A machine with a volume in order on its second drive: the boot sector is
signed and has the root in cluster 2; the FAT has 100 sectors at least, the
clusters for its words exist, and both are apart from each other and from the
boot sector; and what `TreeFacts` says holds of the volume. -/
structure Mountable (hw : Hardware) (g : Shape) : Prop where
  ready : 1 < Kernel.drives hw.identify
  signed : Signed (hw.sectors 1 0)
  root : (Bpb.ofSector (hw.sectors 1 0)).rootCluster = 2
  geometry : Geometry (Kernel.kmain hw).fs g
  boot : ¬ (Kernel.kmain hw).fs.InVolume g 0
  facts : ((Kernel.kmain hw).fs.volume g).TreeFacts g

/-- What the disk keeps from one boot to the next. -/
structure Kept (hw : Hardware) (g : Shape) (fs : Fs) : Prop where
  spares : Fs.Spares g (Kernel.kmain hw).fs fs
  sound : fs.Sound g
  sole : (fs.volume g).Sole

namespace Mountable

variable {hw hw' : Hardware} {g : Shape} {fs : Fs} {k : Kernel}
  {editorMain : UInt64} {op : Op} {ws : List SectorWrite}

theorem kept (h : Mountable hw g) : Kept hw g (Kernel.kmain hw).fs := by
  obtain ⟨htree, hsole⟩ := Volume.treeFacts_iff.1 h.facts
  refine ⟨.refl g _, ⟨h.geometry, htree, ?_⟩, hsole⟩
  rw [Kernel.kmain_fs_signed h.ready h.signed]
  show Volume.InReach _ (Bpb.ofSector (hw.sectors 1 0)).rootCluster
  rw [h.root]
  exact .root

/-- To boot is to go to the root. -/
theorem reboot (h : Mountable hw g)
    (hspares : Fs.Spares g (Kernel.kmain hw).fs fs)
    (hid : hw'.identify = hw.identify)
    (hsectors : hw'.sectors = fs.diskMgr.sectors) :
    (Kernel.kmain hw').fs = { fs.cd [slash] with cerr := [] } := by
  have hboot : hw'.sectors 1 0 = hw.sectors 1 0 := by
    rw [hsectors, hspares.sectors 0 h.boot,
      Kernel.kmain_fs_signed h.ready h.signed]
  have hready := h.ready
  have hsigned := h.signed
  obtain ⟨hcount, hfat, hdata, hper, -, -⟩ := hspares
  rw [Kernel.kmain_fs_signed hready hsigned] at hcount hfat hdata hper
  have hdisk : ⟨Kernel.drives hw.identify, fs.diskMgr.sectors⟩ = fs.diskMgr :=
    congrArg (DiskManager.mk · fs.diskMgr.sectors) hcount.symm
  rw [← hid] at hready
  rw [← hboot] at hsigned
  rw [Kernel.kmain_fs_signed hready hsigned, Fs.cd_slash, hboot, h.root, hid,
    hsectors]
  simp only [hfat, hdata, hper, hdisk]

/-- A drive that has kept what it should boots into a volume in order. -/
theorem kept_reboot (h : Mountable hw g)
    (hspares : Fs.Spares g (Kernel.kmain hw).fs fs) (hg : Geometry fs g)
    (htree : (fs.volume g).WellFormed g) (hsole : (fs.volume g).Sole)
    (hid : hw'.identify = hw.identify)
    (hsectors : hw'.sectors = fs.diskMgr.sectors) :
    Kept hw g (Kernel.kmain hw').fs := by
  rw [h.reboot hspares hid hsectors, Fs.cd_slash]
  exact ⟨⟨hspares.1, hspares.2, hspares.3, hspares.4, hspares.5, hspares.6⟩,
    ⟨⟨hg.1, hg.2, hg.3, hg.4, hg.5, hg.6⟩, htree, .root⟩, hsole⟩

end Mountable

namespace Kept

variable {hw hw' : Hardware} {g : Shape} {fs : Fs} {k k' : Kernel}
  {editorMain : UInt64} {op : Op} {ws : List SectorWrite}

theorem errln (h : Kept hw g fs) (m : Str) : Kept hw g (fs.errln m) :=
  ⟨h.spares.trans ⟨rfl, rfl, rfl, rfl, fun _ _ => rfl, fun _ _ => rfl⟩,
    h.sound.samePlace (Fs.samePlace_errln m) h.sound.tree h.sound.current,
    h.sole⟩

theorem perform (h : Kept hw g fs) (op : Op) : Kept hw g (fs.perform op) :=
  ⟨h.spares.trans (h.sound.spares_perform op), h.sound.step rfl,
    h.sound.sole h.sole rfl⟩

/-- A session keeps it, and so does a power cycle. -/
theorem step (hmount : Mountable hw g) (h : Kept hw g k.fs) {e : PowerEvent}
    (hstep : k.PowerStep editorMain hw.identify e k') : Kept hw g k'.fs := by
  cases e with
  | shell e =>
      exact Kernel.Step.fs_induct (P := Kept hw g) (fun _ m hk => hk.errln m)
        (fun _ op hk => hk.perform op) hstep h
  | cycle op ws hw' =>
      obtain ⟨hws, hid, hsectors, rfl⟩ := hstep
      have hpasses := h.sound.passes_cut hws
      exact hmount.kept_reboot
        (h.spares.trans (h.sound.spares_cut fun w hw => hws.subset hw))
        (h.sound.geometry.samePlace (Fs.samePlace_cut k.fs ws))
        (hpasses.wellFormed h.sound) (hpasses.sole h.sound h.sole) hid hsectors

theorem run (hmount : Mountable hw g) {events : List PowerEvent}
    (hrun : Trace (Kernel.PowerStep editorMain hw.identify)
      (Kernel.kmain hw) events k) : Kept hw g k.fs :=
  hrun.invariant (I := fun k => Kept hw g k.fs)
    (fun _ _ _ hk hstep => hk.step hmount hstep) hmount.kept

/-- The words of the FAT that are not zero in `v` are not zero here. -/
def StillUsed (v : Volume) (g : Shape) (fs : Fs) : Prop :=
  ∀ c, v.fat c ≠ 0 → (fs.volume g).fat c ≠ 0

theorem stillUsed_perform {v : Volume} (h : Kept hw g fs)
    (hused : StillUsed v g fs) (op : Op) : StillUsed v g (fs.perform op) := by
  have hafter : fs.Passes g op ((fs.perform op).volume g) := .after
  intro c hc
  exact hafter.fat_ne_zero h.sound (hused c hc)

theorem stillUsed_step {v : Volume} (hmount : Mountable hw g)
    (h : Kept hw g k.fs) (hused : StillUsed v g k.fs) {e : PowerEvent}
    (hstep : k.PowerStep editorMain hw.identify e k') :
    StillUsed v g k'.fs := by
  cases e with
  | shell e =>
      have hboth : Kept hw g k'.fs ∧ StillUsed v g k'.fs :=
        Kernel.Step.fs_induct (P := fun fs => Kept hw g fs ∧ StillUsed v g fs)
          (fun _ m hk => ⟨hk.1.errln m, hk.2⟩)
          (fun _ op hk => ⟨hk.1.perform op, hk.1.stillUsed_perform hk.2 op⟩)
          hstep ⟨h, hused⟩
      exact hboth.2
  | cycle op ws hw' =>
      obtain ⟨hws, hid, hsectors, rfl⟩ := hstep
      have hpasses := h.sound.passes_cut hws
      have hfs := hmount.reboot (h.spares.trans
        (h.sound.spares_cut fun w hw => hws.subset hw)) hid hsectors
      intro c hc
      rw [hfs, Fs.cd_slash]
      exact hpasses.fat_ne_zero h.sound (hused c hc)

theorem later (hmount : Mountable hw g) (h : Kept hw g k.fs)
    {events : List PowerEvent}
    (hrun : Trace (Kernel.PowerStep editorMain hw.identify) k events k') :
    Kept hw g k'.fs ∧ StillUsed (k.fs.volume g) g k'.fs := by
  have hstart : Kept hw g k.fs ∧ StillUsed (k.fs.volume g) g k.fs :=
    ⟨h, fun _ hc => hc⟩
  refine hrun.invariant
    (I := fun l => Kept hw g l.fs ∧ StillUsed (k.fs.volume g) g l.fs)
    (s := k) ?_ hstart
  intro l e l' hl hstep
  exact ⟨hl.1.step hmount hstep, hl.1.stillUsed_step hmount hl.2 hstep⟩

end Kept

/-! ## A machine that boots -/

/-- Two drives on the first bus. The second holds a boot sector and, behind it,
a formatted volume with two copies of its FAT. -/
def twoDrives : Hardware :=
  { noDisks with
    identify := fun port _ => if port = 0x1F0 then some 16384 else none
    sectors := fun drive lba =>
      if lba = 0 then Storage.bootSector 2
      else Storage.mirrored.diskMgr.sectors drive lba }

theorem drives_twoDrives : Kernel.drives twoDrives.identify = 2 := by
  simp [Kernel.drives, twoDrives]

theorem signed_twoDrives : Signed (twoDrives.sectors 1 0) :=
  Storage.signed_bootSector 2

theorem fs_twoDrives : (Kernel.kmain twoDrives).fs =
    { Storage.mirrored with diskMgr := ⟨2, twoDrives.sectors⟩ } := by
  have hready : 1 < Kernel.drives twoDrives.identify := by
    rw [drives_twoDrives]
    decide
  have hboot : twoDrives.sectors 1 0 = Storage.bootSector 2 := rfl
  obtain ⟨hsize, hcount, hreserved⟩ := Storage.bpb_bootSector 2
  have hper : (Bpb.ofSector (Storage.bootSector 2)).sectorsPerCluster = 1 := by
    simp [Bpb.ofSector, Storage.bootSector]
  rw [Kernel.kmain_fs_signed hready signed_twoDrives, hboot, hsize, hcount,
    hreserved, hper, Storage.rootCluster_bootSector, drives_twoDrives]
  rfl

theorem not_inVolume_zero {fs : Fs} {g : Shape} (hg : Geometry fs g)
    (hfat : 0 < fs.fatStartSector) (hdata : 0 < fs.dataStartSector) :
    ¬ fs.InVolume g 0 := by
  have hfat' : 0 < fs.fatStartSector.toNat := hfat
  have hdata' : 0 < fs.dataStartSector.toNat := hdata
  have hzero : (0 : UInt32).toNat = 0 := rfl
  rintro (⟨c, hc, heq⟩ | ⟨c, hc, heq⟩)
  · have hnat := hg.toNat_fatSector hc
    rw [← heq] at hnat
    omega
  · have hnat := (hg.toNat_sector hc).1
    rw [← heq] at hnat
    omega

theorem geometry_twoDrives : Geometry
    { Storage.mirrored with diskMgr := ⟨2, twoDrives.sectors⟩ }
    ⟨12798, 100⟩ := by
  obtain ⟨h₁, h₂, h₃, h₄, h₅, h₆⟩ := Storage.geometry_mirrored
  exact ⟨h₁, h₂, h₃, h₄, h₅, h₆⟩

theorem mountable_twoDrives : Mountable twoDrives ⟨12798, 100⟩ := by
  have hboot := not_inVolume_zero geometry_twoDrives (by decide) (by decide)
  constructor
  case ready =>
    rw [drives_twoDrives]
    decide
  case signed => exact signed_twoDrives
  case root => exact Storage.rootCluster_bootSector 2
  case geometry =>
    rw [fs_twoDrives]
    exact geometry_twoDrives
  case boot =>
    rw [fs_twoDrives]
    exact hboot
  case facts =>
    have hvolume : Fs.volume { Storage.mirrored with
        diskMgr := ⟨2, twoDrives.sectors⟩ } ⟨12798, 100⟩ =
        Storage.mirrored.volume ⟨12798, 100⟩ := by
      symm
      refine Fs.volume_congr rfl rfl rfl fun lba hlba => ?_
      have hne : lba ≠ 0 := by
        rintro rfl
        exact hboot hlba
      exact (if_neg hne).symm
    rw [fs_twoDrives, hvolume, Storage.volume_mirrored]
    exact Storage.treeFacts_formatted

/-- The two drives, holding something else. -/
def twoDrivesWith (sectors : UInt8 → UInt32 → Sector) : Hardware :=
  { twoDrives with sectors := sectors }

theorem sectors_twoDrivesWith (sectors : UInt8 → UInt32 → Sector) :
    (twoDrivesWith sectors).sectors = sectors := rfl

/-- `mkdir a` as the first command, behind `n` writes. -/
def firstCut (n : Nat) : Fs :=
  (Kernel.kmain twoDrives).fs.cut (((Kernel.kmain twoDrives).fs.writes
    (.mkdir (lit "a") Storage.zeroSector)).take n)

/-- The two drives then. -/
def cutDrives (n : Nat) : Hardware :=
  twoDrivesWith (firstCut n).diskMgr.sectors

theorem cycle_cutDrives (n : Nat) :
    Kernel.PowerStep 0x8000 twoDrives.identify (Kernel.kmain twoDrives)
      (.cycle (.mkdir (lit "a") Storage.zeroSector)
        (((Kernel.kmain twoDrives).fs.writes
          (.mkdir (lit "a") Storage.zeroSector)).take n) (cutDrives n))
      (Kernel.kmain (cutDrives n)) := by
  refine ⟨List.take_prefix n _, rfl, ?_, rfl⟩
  rw [cutDrives, sectors_twoDrivesWith, firstCut]

/-! ## Over any number of boots -/

/-- Whatever is typed, and wherever the power went before: if it goes again,
between two commands or behind any write of one, the volume is in order, and
its tree is the one before the command or the one after it. -/
theorem power_loss_atomic {hw : Hardware} {g : Shape} {editorMain : UInt64}
    {events : List PowerEvent} {k : Kernel} {op : Op} {ws : List SectorWrite}
    (hmount : Mountable hw g)
    (hrun : Trace (Kernel.PowerStep editorMain hw.identify)
      (Kernel.kmain hw) events k)
    (hws : ws <+: k.fs.writes op) : k.fs.CutsClean g op ws := by
  have hkept := Kept.run hmount hrun
  exact hkept.sound.cutsClean hkept.sole hws

/-- The power goes twice, each time in the middle of a `mkdir`. -/
theorem power_loss_atomic_twoDrives :
    (Kernel.kmain (cutDrives 1)).fs.CutsClean ⟨12798, 100⟩
      (.mkdir (lit "a") Storage.zeroSector)
      (((Kernel.kmain (cutDrives 1)).fs.writes
        (.mkdir (lit "a") Storage.zeroSector)).take 2) := by
  have hrun : Trace (Kernel.PowerStep 0x8000 twoDrives.identify)
      (Kernel.kmain twoDrives) [_] (Kernel.kmain (cutDrives 1)) :=
    .cons (cycle_cutDrives 1) (.nil _)
  exact power_loss_atomic mountable_twoDrives hrun (List.take_prefix 2 _)

/-- Nothing outside the first FAT and the clusters is ever written to: not the
boot sector, not a second FAT, not what lies behind the volume, not another
drive. -/
theorem outside_kept {hw : Hardware} {g : Shape} {editorMain : UInt64}
    {events : List PowerEvent} {k : Kernel} (hmount : Mountable hw g)
    (hrun : Trace (Kernel.PowerStep editorMain hw.identify)
      (Kernel.kmain hw) events k) :
    (∀ drive ≠ 1, k.fs.diskMgr.sectors drive = hw.sectors drive) ∧
      ∀ lba, ¬ (Kernel.kmain hw).fs.InVolume g lba →
        k.fs.diskMgr.sectors 1 lba = hw.sectors 1 lba := by
  have hspares := (Kept.run hmount hrun).spares
  have hsectors : (Kernel.kmain hw).fs.diskMgr.sectors = hw.sectors := by
    rw [Kernel.kmain_fs_signed hmount.ready hmount.signed]
  rw [← hsectors]
  exact ⟨hspares.drives, hspares.sectors⟩

/-- The power goes when all of a `mkdir` has been written. -/
theorem outside_kept_twoDrives :
    (∀ drive ≠ 1, (Kernel.kmain (cutDrives 3)).fs.diskMgr.sectors drive =
      twoDrives.sectors drive) ∧
      ∀ lba, ¬ (Kernel.kmain twoDrives).fs.InVolume ⟨12798, 100⟩ lba →
        (Kernel.kmain (cutDrives 3)).fs.diskMgr.sectors 1 lba =
          twoDrives.sectors 1 lba := by
  have hrun : Trace (Kernel.PowerStep 0x8000 twoDrives.identify)
      (Kernel.kmain twoDrives) [_] (Kernel.kmain (cutDrives 3)) :=
    .cons (cycle_cutDrives 3) (.nil _)
  exact outside_kept mountable_twoDrives hrun

/-- A cluster that is in use is in use for good: no command gives one back, and
no boot. So when `mkdir` has found no free cluster, none will ever be found. -/
theorem used_for_good {hw : Hardware} {g : Shape} {editorMain : UInt64}
    {events later : List PowerEvent} {k k' : Kernel} (hmount : Mountable hw g)
    (hrun : Trace (Kernel.PowerStep editorMain hw.identify)
      (Kernel.kmain hw) events k)
    (hlater : Trace (Kernel.PowerStep editorMain hw.identify) k later k') :
    (∀ c, (k.fs.volume g).fat c ≠ 0 → (k'.fs.volume g).fat c ≠ 0) ∧
      (k.fs.findFreeCluster = 0 → k'.fs.findFreeCluster = 0) := by
  have hkept := Kept.run hmount hrun
  have hboth := hkept.later hmount hlater
  refine ⟨hboth.2, fun hnone => ?_⟩
  by_contra hfound
  -- A cluster that is free now was free then, and would have been found.
  obtain ⟨hready, hle, hlt, -⟩ := Fs.findFreeCluster_free hfound
  obtain ⟨-, -, hfree⟩ := Fs.findFreeCluster_spec hboth.1.sound.geometry hfound
  have hthen : (k.fs.volume g).fat k'.fs.findFreeCluster = 0 := by
    by_contra hused
    exact hboth.2 _ hused hfree
  have hready' : k.fs.Ready := by
    have hcount := hboth.1.spares.driveCount
    rw [Fs.Ready, hcount, ← hkept.spares.driveCount] at hready
    exact hready
  exact Fs.findFreeCluster_ne_zero hready' hkept.sound.geometry hle hlt hthen
    hnone

/-- The power goes in a `mkdir` that has only written to the FAT. -/
theorem used_for_good_twoDrives :
    (∀ c, ((Kernel.kmain twoDrives).fs.volume ⟨12798, 100⟩).fat c ≠ 0 →
      ((Kernel.kmain (cutDrives 1)).fs.volume ⟨12798, 100⟩).fat c ≠ 0) ∧
      ((Kernel.kmain twoDrives).fs.findFreeCluster = 0 →
        (Kernel.kmain (cutDrives 1)).fs.findFreeCluster = 0) := by
  have hrun : Trace (Kernel.PowerStep 0x8000 twoDrives.identify)
      (Kernel.kmain twoDrives) [] _ := .nil _
  exact used_for_good mountable_twoDrives hrun
    (.cons (cycle_cutDrives 1) (.nil _))

end TermOS.Shell
