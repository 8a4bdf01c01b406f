import TermOS.Proofs.AtaDiscovery

/-!
# Disks for the file system

After `DiskManager::init` the driver and the controller together are the disks
that the file system was written for: any sequence of transfers inside the
disks is answered, and leaves the sectors, as `Storage::DiskManager` says.
-/

namespace TermOS.Ata

open TermOS.Lib
open TermOS.Storage (Sector)

theorem words_length (buffer : Sector) : (words buffer).length = 256 := by
  rw [words, List.length_map, List.length_range]

namespace Controller

variable {s : Controller} {base : UInt16} {c : Channel} {fuel : Nat}
  {d : Drive} {lba : UInt32} {sectors : Nat → Sector} {identity : Nat → UInt16}

/-! ## One transfer -/

/-- The six writes of the driver start the transfer that it means. -/
theorem execute_transfer
    (hdisk : c.device (d.type = .slave) = some (.disk sectors identity))
    (hlba : lba.toNat < capacity identity) (hlt : lba.toNat < 268435456)
    {command : UInt8} (hcommand : command = 0x20 ∨ command = 0x30)
    (delay : Nat) :
    { c with file := d.file lba }.execute delay command =
      { c with
        file := d.file lba
        failed := false
        busy := delay
        phase :=
          if command = 0x20 then .receive (words (sectors lba.toNat))
          else .send lba.toNat [] } := by
  have hselected : { c with file := d.file lba }.selected =
      some (.disk sectors identity) := by
    show c.device ((d.head lba).toUInt8 &&& 0x10 != 0) = _
    rw [(head_spec d lba).2.1]
    exact hdisk
  have hrequest := request_file d lba command
  rw [Nat.mod_eq_of_lt hlt] at hrequest
  have hmode : ((d.file lba).request 0 command).lbaMode = true :=
    congrArg Request.lbaMode hrequest
  have hcount : ((d.file lba).request 0 command).count = 1 :=
    congrArg Request.count hrequest
  have hto : ((d.file lba).request 0 command).lba = lba.toNat :=
    congrArg Request.lba hrequest
  have hidentify : command ≠ 0xEC := by
    rcases hcommand with rfl | rfl <;> decide
  have hflush : command ≠ 0xE7 := by
    rcases hcommand with rfl | rfl <;> decide
  rw [Channel.execute, hselected]
  simp only
  rw [if_neg hidentify, if_neg hflush, hto,
    if_pos ⟨hcommand, hmode, hcount, hlba⟩]

/-- The drive after its six writes and after polling. -/
theorem command_ready (hq : s.Quiet) (hdelay : ∀ n, s.delay n < fuel)
    (hd : d.OnChannel)
    (hdisk : s.devices d.basePort (d.type = .slave) =
      some (.disk sectors identity))
    (hlba : lba.toNat < capacity identity) (hlt : lba.toNat < 268435456)
    {command : UInt8} (hcommand : command = 0x20 ∨ command = 0x30) :
    bus.ataWaitReady d.basePort fuel (bus.writes s (d.command lba command)) =
      some (s.put d.basePort
        { s.channels d.basePort with
          file := d.file lba
          failed := false
          busy := 0
          phase :=
            if command = 0x20 then .receive (words (sectors lba.toNat))
            else .send lba.toNat [] }
        (s.commands + 1)) := by
  obtain ⟨hbusy, hidle⟩ := hq d.basePort hd
  rw [Drive.command, writes_command hd hbusy hidle]
  have hexecute := execute_transfer hdisk hlba hlt hcommand
    (s.delay s.commands)
  rw [Drive.file] at hexecute
  rw [hexecute, ataWaitReady_eq hd, put_channels, put_set]
  · rfl
  · rw [put_channels, Channel.selected, Channel.slave]
    show (s.devices d.basePort
      ((d.head lba).toUInt8 &&& 0x10 != 0)).isSome = true
    rw [(head_spec d lba).2.1, hdisk]
    rfl
  · rw [put_channels]
    exact hdelay s.commands

theorem readSector_eq (hq : s.Quiet) (hdelay : ∀ n, s.delay n < fuel)
    {m : DiskManager} {driveIdx : UInt8}
    (hidx : m.drives[driveIdx.toNat]? = some d) (hd : d.OnChannel)
    (hdisk : s.devices d.basePort (d.type = .slave) =
      some (.disk sectors identity))
    (hlba : lba.toNat < capacity identity) (hlt : lba.toNat < 268435456)
    (buffer : Sector) :
    ∃ s', bus.readSector fuel m driveIdx lba buffer s =
        some ((true, sectors lba.toNat), s') ∧ After s s' s.devices := by
  refine ⟨_, ?_, hq.put_same d.basePort
    { s.channels d.basePort with
      file := d.file lba
      failed := false
      busy := 0
      phase := .idle } rfl rfl rfl (s.commands + 1)⟩
  simp only [Bus.readSector, hidx]
  rw [command_ready hq hdelay hd hdisk hlba hlt (.inl rfl), Option.map_some,
    inws_all hd (words_length (sectors lba.toNat)) (by rw [put_channels])
      (by rw [put_channels, if_pos rfl])]
  simp only [put_channels, put_set]
  rw [ofWords_words]

/-- The driver flushes without waiting: what the drive does then depends on how
fast it is. -/
theorem flush_ready (hd : IsChannel base)
    (hdelay : ∀ n, s.delay n < fuel)
    (hdisk : (s.channels base).selected = some (.disk sectors identity))
    (hidle : (s.channels base).phase = .idle)
    (hfuel : (s.channels base).busy < fuel) :
    ∃ failed n, bus.ataWaitReady base fuel
        (bus.writes s [.outb (base + 7) 0xE7]) =
      some (s.put base { s.channels base with
        failed := failed
        busy := 0 } n) := by
  by_cases hbusy : (s.channels base).busy = 0
  · have hexecute : (s.channels base).execute (s.delay s.commands) 0xE7 =
        { s.channels base with
          failed := false
          busy := s.delay s.commands } := by
      rw [Channel.execute, hdisk]
      rfl
    refine ⟨false, s.commands + 1, ?_⟩
    show bus.ataWaitReady base fuel (s.outb (base + 7) 0xE7) = _
    rw [outb_command hd hbusy hidle, hexecute, ataWaitReady_eq hd, put_channels,
      put_set]
    · rw [put_channels]
      show (s.channels base).selected.isSome = true
      rw [hdisk]
      rfl
    · rw [put_channels]
      exact hdelay s.commands
  · refine ⟨(s.channels base).failed, s.commands, ?_⟩
    show bus.ataWaitReady base fuel (s.outb (base + 7) 0xE7) = _
    rw [outb_busy hd hbusy, ataWaitReady_eq hd (by rw [hdisk]; rfl) hfuel]
    rfl

/-- The drive with one sector written. -/
def written (s : Controller) (d : Drive) (sectors : Nat → Sector)
    (identity : Nat → UInt16) (lba : UInt32) (buffer : Sector) :
    UInt16 → Bool → Option Device :=
  Function.update s.devices d.basePort
    (Function.update (s.devices d.basePort) (d.type = .slave)
      (some (.disk (Function.update sectors lba.toNat buffer) identity)))

theorem stored_words
    (hdisk : c.device (d.type = .slave) = some (.disk sectors identity))
    (hfile : c.file = d.file lba) (buffer : Sector) :
    c.stored lba.toNat (words buffer) =
      Function.update c.device (d.type = .slave)
        (some (.disk (Function.update sectors lba.toNat buffer) identity)) := by
  have hslave : c.slave = decide (d.type = .slave) := by
    rw [Channel.slave, hfile]
    exact (head_spec d lba).2.1
  rw [Channel.stored, Channel.selected, hslave, hdisk]
  simp only
  rw [ofWords_words]

theorem writeSector_eq (hq : s.Quiet) (hdelay : ∀ n, s.delay n < fuel)
    {m : DiskManager} {driveIdx : UInt8}
    (hidx : m.drives[driveIdx.toNat]? = some d) (hd : d.OnChannel)
    (hdisk : s.devices d.basePort (d.type = .slave) =
      some (.disk sectors identity))
    (hlba : lba.toNat < capacity identity) (hlt : lba.toNat < 268435456)
    (buffer : Sector) :
    ∃ s', bus.writeSector fuel m driveIdx lba buffer s = some (true, s') ∧
      After s s' (s.written d sectors identity lba buffer) := by
  have hcommand := command_ready hq hdelay hd hdisk hlba hlt (.inr rfl)
  rw [if_neg (by decide)] at hcommand
  -- the channel that takes the words
  obtain ⟨c, hc⟩ : ∃ c, c = { s.channels d.basePort with
      file := d.file lba
      failed := false
      busy := 0
      phase := Phase.send lba.toNat [] } := ⟨_, rfl⟩
  rw [← hc] at hcommand
  have hdevice : c.device = s.devices d.basePort := by
    rw [hc]
    rfl
  have hfile : c.file = d.file lba := by rw [hc]
  have hstored := stored_words (hdevice ▸ hdisk) hfile buffer
  have hwords := outws_all (s := s.put d.basePort c (s.commands + 1)) hd
    (words_length buffer) (by rw [put_channels, hc])
    (by rw [put_channels, hc])
  rw [put_channels, hstored, put_put, hdevice] at hwords
  obtain ⟨failed, n, hflush⟩ := flush_ready
    (s := s.put d.basePort { c with
      device := Function.update (s.devices d.basePort) (d.type = .slave)
        (some (.disk (Function.update sectors lba.toNat buffer) identity))
      busy := s.delay (s.commands + 1)
      phase := .idle } (s.commands + 1 + 1)) hd hdelay
    (by
      rw [put_channels, Channel.selected, Channel.slave]
      show Function.update _ _ _ (c.file.driveHead &&& 0x10 != 0) = _
      rw [hfile]
      show Function.update _ _ _ ((d.head lba).toUInt8 &&& 0x10 != 0) = _
      rw [(head_spec d lba).2.1, Function.update_self])
    (by rw [put_channels]) (by rw [put_channels]; exact hdelay _)
  rw [put_channels, put_put] at hflush
  have hafter := hq.put d.basePort { c with
    device := Function.update (s.devices d.basePort) (d.type = .slave)
      (some (.disk (Function.update sectors lba.toNat buffer) identity))
    failed := failed
    busy := 0
    phase := .idle } rfl rfl n
  refine ⟨_, ?_, hafter⟩
  simp only [Bus.writeSector, hidx]
  rw [hcommand, Option.bind_some, Bus.writes, List.foldl_append]
  show (bus.ataWaitReady d.basePort fuel (bus.writes
    (bus.writes (s.put d.basePort c (s.commands + 1))
      ((words buffer).map (.outw d.basePort)))
    [.outb (d.basePort + 7) 0xE7])).map _ = _
  rw [hwords]
  exact congrArg _ hflush

end Controller

/-! ## The table -/

/-- A drive that is ready at once. -/
theorem DiskManager.registerDriver_ready (m : DiskManager) (port : UInt16)
    (type : DriveType) (mid high : UInt8) (data : Nat → UInt16) :
    m.registerDriver port type ⟨0x50, [0x50], mid, high, data⟩ =
      if mid ≠ 0 ∨ high ≠ 0 then some m
      else
        some ⟨m.drives ++ [⟨port, type, true, ((data 60).toUInt32 |||
          (data 61).toUInt32 <<< 16).toUInt64⟩]⟩ := rfl

theorem Bus.registerDriver_answer {σ : Type} (bus : Bus σ) {fuel : Nat}
    {m m' : DiskManager} {port : UInt16} {type : DriveType} {s s' : σ}
    (h : bus.registerDriver fuel m port type s = some (m', s')) :
    ∃ answer, m.registerDriver port type answer = some m' := by
  rw [Bus.registerDriver] at h
  simp only at h
  split at h
  · cases h
    exact ⟨⟨0, [], 0, 0, fun _ => 0⟩, rfl⟩
  · obtain ⟨s₁, -, h⟩ := Option.bind_eq_some_iff.1 h
    split at h
    · rename_i hmid
      cases h
      refine ⟨⟨0x50, [0x50], (bus.inb s₁ (port + 4)).1, 0, fun _ => 0⟩, ?_⟩
      rw [DiskManager.registerDriver_ready, if_pos (.inl hmid)]
    · split at h
      · rename_i hhigh
        cases h
        refine ⟨⟨0x50, [0x50], 0,
          (bus.inb (bus.inb s₁ (port + 4)).2 (port + 5)).1, fun _ => 0⟩, ?_⟩
        rw [DiskManager.registerDriver_ready, if_pos (.inr hhigh)]
      · cases h
        refine ⟨⟨0x50, [0x50], 0, 0, fun i => (bus.inws port 256
          (bus.inb (bus.inb s₁ (port + 4)).2 (port + 5)).2).1.getD i 0⟩, ?_⟩
        rw [DiskManager.registerDriver_ready, if_neg (by simp)]
        rfl

/-- The table is one that the answers of some controller leave. -/
theorem Bus.init_started {σ : Type} (bus : Bus σ) {fuel : Nat}
    {m : DiskManager} {s s' : σ} (h : bus.init fuel s = some (m, s')) :
    Started m := by
  obtain ⟨⟨m₁, s₁⟩, h₁, h⟩ := Option.bind_eq_some_iff.1 h
  obtain ⟨⟨m₂, s₂⟩, h₂, h⟩ := Option.bind_eq_some_iff.1 h
  obtain ⟨⟨m₃, s₃⟩, h₃, h₄⟩ := Option.bind_eq_some_iff.1 h
  obtain ⟨answer₁, ha₁⟩ := bus.registerDriver_answer h₁
  obtain ⟨answer₂, ha₂⟩ := bus.registerDriver_answer h₂
  obtain ⟨answer₃, ha₃⟩ := bus.registerDriver_answer h₃
  obtain ⟨answer₄, ha₄⟩ := bus.registerDriver_answer h₄
  refine ⟨answer₁, answer₂, answer₃, answer₄, ?_⟩
  rw [DiskManager.init, ha₁, Option.bind_some, ha₂, Option.bind_some, ha₃,
    Option.bind_some, ha₄]

/-! ## Sequences of transfers -/

/-- `read_sector` or `write_sector`, with its buffer. -/
inductive Transfer where
  | read (driveIdx : UInt8) (lba : UInt32) (buffer : Sector)
  | write (driveIdx : UInt8) (lba : UInt32) (buffer : Sector)

namespace Transfer

def place : Transfer → UInt8 × UInt32
  | read driveIdx lba _ => (driveIdx, lba)
  | write driveIdx lba _ => (driveIdx, lba)

/-- The sector is one of the drive, and one that 28 bits can name. -/
def Inside (t : Transfer) (m : DiskManager) : Prop :=
  ∀ d, m.drives[t.place.1.toNat]? = some d →
    t.place.2.toNat < d.sizeSectors.toNat ∧ t.place.2.toNat < 268435456

/-- On the disks of the file system: what is returned, the buffer, and the
disks. -/
def on (disks : Storage.DiskManager) :
    Transfer → (Bool × Sector) × Storage.DiskManager
  | read driveIdx lba buffer =>
      (match disks.readSector driveIdx lba with
        | none => (false, buffer)
        | some data => (true, data), disks)
  | write driveIdx lba buffer =>
      match disks.writeSector driveIdx lba buffer with
      | none => ((false, buffer), disks)
      | some disks => ((true, buffer), disks)

def onAll (disks : Storage.DiskManager) :
    List Transfer → List (Bool × Sector) × Storage.DiskManager
  | [] => ([], disks)
  | t :: ts =>
      let first := t.on disks
      let rest := onAll first.2 ts
      (first.1 :: rest.1, rest.2)

end Transfer

namespace Bus

variable {σ : Type} (bus : Bus σ)

def transfer (fuel : Nat) (m : DiskManager) (s : σ) :
    Transfer → Option ((Bool × Sector) × σ)
  | .read driveIdx lba buffer => bus.readSector fuel m driveIdx lba buffer s
  | .write driveIdx lba buffer =>
      (bus.writeSector fuel m driveIdx lba buffer s).map fun r =>
        ((r.1, buffer), r.2)

def transfers (fuel : Nat) (m : DiskManager) :
    List Transfer → σ → Option (List (Bool × Sector) × σ)
  | [], s => some ([], s)
  | t :: ts, s =>
      (bus.transfer fuel m s t).bind fun first =>
        (transfers fuel m ts first.2).map fun rest =>
          (first.1 :: rest.1, rest.2)

end Bus

/-- What is on the drives. -/
def medium (devices : UInt16 → Bool → Option Device) : Medium := fun p =>
  match devices p.1 p.2.1 with
  | some (.disk sectors _) => sectors p.2.2
  | _ => Storage.zeroSector

variable {m : DiskManager} {d : Drive} {driveIdx : UInt8} {lba : UInt32}
  {fuel : Nat} {s : Controller} {sectors : Nat → Sector}
  {identity : Nat → UInt16}

theorem medium_disk {devices : UInt16 → Bool → Option Device}
    (hdisk : devices d.basePort (d.type = .slave) =
      some (.disk sectors identity)) (n : Nat) (command : UInt8) :
    medium devices (d.asked n command).place = sectors n := by
  show (match devices d.basePort (d.type = .slave) with
    | some (.disk sectors _) => sectors n
    | _ => Storage.zeroSector) = _
  rw [hdisk]

/-- The sector that is written, and no other. -/
theorem medium_written (hdisk : s.devices d.basePort (d.type = .slave) =
      some (.disk sectors identity)) (buffer : Sector) :
    medium (s.written d sectors identity lba buffer) =
      Function.update (medium s.devices) (d.asked lba.toNat 0x20).place
        buffer := by
  funext ⟨base, slave, n⟩
  have hplace : (d.asked lba.toNat 0x20).place =
      (d.basePort, decide (d.type = .slave), lba.toNat) := rfl
  rw [hplace]
  by_cases hdrive : base = d.basePort ∧ slave = decide (d.type = .slave)
  · obtain ⟨rfl, rfl⟩ := hdrive
    rw [medium, Controller.written, Function.update_self,
      Function.update_self]
    by_cases hn : n = lba.toNat
    · rw [hn, Function.update_self]
      exact Function.update_self _ _ _
    · rw [Function.update_of_ne (by simpa using hn)]
      refine (Function.update_of_ne hn _ _).trans ?_
      exact (medium_disk hdisk n 0x20).symm
  · rw [Function.update_of_ne (fun h => hdrive (by
      obtain ⟨h₁, h₂, -⟩ := Prod.ext_iff.1 h |>.imp_right Prod.ext_iff.1
      exact ⟨h₁, h₂⟩))]
    rw [medium, medium, Controller.written]
    by_cases hbase : base = d.basePort
    · subst hbase
      rw [Function.update_self, Function.update_of_ne fun h => hdrive ⟨rfl, h⟩]
    · rw [Function.update_of_ne hbase]

theorem Started.driveCount_le (hm : Started m)
    (hidx : m.drives[driveIdx.toNat]? = none) (medium : Medium) :
    driveIdx ≥ (m.volumes medium).driveCount := by
  by_contra hlt
  have hidx := List.getElem?_eq_none_iff.1 hidx
  exact absurd ((hm.lt_driveCount medium).1 hlt) (Nat.not_lt.2 hidx)

theorem Started.not_driveCount_le (hm : Started m)
    (hidx : m.drives[driveIdx.toNat]? = some d) (medium : Medium) :
    ¬ driveIdx ≥ (m.volumes medium).driveCount :=
  (hm.lt_driveCount medium).2 (List.getElem?_eq_some_iff.1 hidx).1

theorem volumes_update (hm : Started m)
    (hidx : m.drives[driveIdx.toNat]? = some d) (medium : Medium)
    (buffer : Sector) :
    m.volumes (Function.update medium (d.asked lba.toNat 0x20).place buffer) =
      { m.volumes medium with
        sectors := Function.update (m.volumes medium).sectors driveIdx
          (Function.update ((m.volumes medium).sectors driveIdx) lba
            buffer) } := by
  refine congrArg (Storage.DiskManager.mk _) ?_
  funext driveIdx' lba'
  show (m.volumes _).sectors driveIdx' lba' = _
  by_cases hsame : driveIdx' = driveIdx
  · subst hsame
    rw [sectors_volumes _ hidx, Function.update_self]
    by_cases hlba : lba' = lba
    · rw [hlba, Function.update_self]
      exact (Function.update_self lba buffer
        ((m.volumes medium).sectors driveIdx')).symm
    · rw [Function.update_of_ne hlba, sectors_volumes _ hidx,
        Function.update_of_ne fun h =>
          hlba (UInt32.toNat_inj.1 (place_inj h).2)]
  · rw [Function.update_of_ne hsame]
    cases hidx' : m.drives[driveIdx'.toNat]? with
    | none => simp only [DiskManager.volumes, hidx']
    | some d' =>
        rw [sectors_volumes _ hidx', sectors_volumes _ hidx',
          Function.update_of_ne fun h => hsame
            (UInt8.toNat_inj.1 (hm.index_eq hidx' hidx (place_inj h).1))]

/-- The controller is quiet, and the drives of the table are disks with as many
sectors. -/
structure Serves (m : DiskManager) (fuel : Nat) (s : Controller) : Prop where
  started : Started m
  quiet : s.Quiet
  delay : ∀ n, s.delay n < fuel
  disks : ∀ d ∈ m.drives, ∃ sectors identity,
    s.devices d.basePort (d.type = .slave) = some (.disk sectors identity) ∧
      d.sizeSectors.toNat = capacity identity

/-- One disk has other contents. -/
theorem Serves.written {s' : Controller} (h : Serves m fuel s)
    (hdisk : s.devices d.basePort (d.type = .slave) =
      some (.disk sectors identity)) {buffer : Sector}
    (hafter : s.After s' (s.written d sectors identity lba buffer)) :
    Serves m fuel s' where
  started := h.started
  quiet := hafter.quiet
  delay := by rw [hafter.delay]; exact h.delay
  disks := by
    intro d' hd'
    obtain ⟨sectors', identity', hdisk', hsize⟩ := h.disks d' hd'
    rw [hafter.devices, Controller.written]
    by_cases hbase : d'.basePort = d.basePort
    · rw [hbase, Function.update_self]
      by_cases hslave : decide (d'.type = .slave) = decide (d.type = .slave)
      · rw [hslave, Function.update_self]
        rw [hbase, hslave, hdisk] at hdisk'
        cases hdisk'
        exact ⟨_, _, rfl, hsize⟩
      · rw [Function.update_of_ne hslave, ← hbase]
        exact ⟨_, _, hdisk', hsize⟩
    · rw [Function.update_of_ne hbase]
      exact ⟨_, _, hdisk', hsize⟩

theorem Serves.same {s' : Controller} (h : Serves m fuel s)
    (hafter : s.After s' s.devices) : Serves m fuel s' where
  started := h.started
  quiet := hafter.quiet
  delay := by rw [hafter.delay]; exact h.delay
  disks := by rw [hafter.devices]; exact h.disks

/-- The disks of the file system. -/
def disksOf (m : DiskManager) (s : Controller) : Storage.DiskManager :=
  m.volumes (medium s.devices)

theorem read_serves (h : Serves m fuel s) (buffer : Sector)
    (hinside : (Transfer.read driveIdx lba buffer).Inside m) :
    ∃ s', Controller.bus.transfer fuel m s (.read driveIdx lba buffer) =
        some (((Transfer.read driveIdx lba buffer).on (disksOf m s)).1, s') ∧
      Serves m fuel s' ∧ disksOf m s' = disksOf m s := by
  cases hidx : m.drives[driveIdx.toNat]? with
  | none =>
      have hcount := h.started.driveCount_le hidx (medium s.devices)
      refine ⟨s, ?_, h, rfl⟩
      rw [Bus.transfer, Bus.readSector, hidx, Transfer.on,
        Storage.DiskManager.readSector, disksOf, if_pos hcount]
  | some d =>
      have hmem := List.mem_of_getElem? hidx
      obtain ⟨sectors, identity, hdisk, hsize⟩ := h.disks d hmem
      obtain ⟨hlba, hlt⟩ : lba.toNat < d.sizeSectors.toNat ∧
        lba.toNat < 268435456 := hinside d hidx
      obtain ⟨s', hread, hafter⟩ := Controller.readSector_eq h.quiet h.delay hidx
        (h.started.onChannel hmem) hdisk (hsize ▸ hlba) hlt buffer
      refine ⟨s', ?_, h.same hafter, by rw [disksOf, disksOf, hafter.devices]⟩
      have hcount := h.started.not_driveCount_le hidx (medium s.devices)
      rw [Bus.transfer, Transfer.on, Storage.DiskManager.readSector, disksOf,
        if_neg hcount, sectors_volumes _ hidx, medium_disk hdisk]
      exact hread

theorem write_serves (h : Serves m fuel s) (buffer : Sector)
    (hinside : (Transfer.write driveIdx lba buffer).Inside m) :
    ∃ s', Controller.bus.transfer fuel m s (.write driveIdx lba buffer) =
        some (((Transfer.write driveIdx lba buffer).on (disksOf m s)).1, s') ∧
      Serves m fuel s' ∧
      disksOf m s' =
        ((Transfer.write driveIdx lba buffer).on (disksOf m s)).2 := by
  cases hidx : m.drives[driveIdx.toNat]? with
  | none =>
      have hcount := h.started.driveCount_le hidx (medium s.devices)
      rw [Transfer.on, Storage.DiskManager.writeSector, disksOf,
        if_pos hcount]
      refine ⟨s, ?_, h, rfl⟩
      rw [Bus.transfer, Bus.writeSector, hidx]
      rfl
  | some d =>
      have hmem := List.mem_of_getElem? hidx
      obtain ⟨sectors, identity, hdisk, hsize⟩ := h.disks d hmem
      obtain ⟨hlba, hlt⟩ : lba.toNat < d.sizeSectors.toNat ∧
        lba.toNat < 268435456 := hinside d hidx
      obtain ⟨s', hwrite, hafter⟩ := Controller.writeSector_eq h.quiet h.delay
        hidx (h.started.onChannel hmem) hdisk (hsize ▸ hlba) hlt buffer
      have hcount := h.started.not_driveCount_le hidx (medium s.devices)
      rw [Transfer.on, Storage.DiskManager.writeSector, disksOf,
        if_neg hcount]
      refine ⟨s', ?_, h.written hdisk hafter, ?_⟩
      · rw [Bus.transfer, hwrite]
        rfl
      · rw [disksOf, hafter.devices, medium_written hdisk,
          volumes_update h.started hidx]

/-- A run of the driver is one of the file system's disks. -/
theorem transfers_serves (ts : List Transfer) (h : Serves m fuel s)
    (hinside : ∀ t ∈ ts, t.Inside m) :
    ∃ s', Controller.bus.transfers fuel m ts s =
        some ((Transfer.onAll (disksOf m s) ts).1, s') ∧
      Serves m fuel s' ∧
      disksOf m s' = (Transfer.onAll (disksOf m s) ts).2 := by
  induction ts generalizing s with
  | nil => exact ⟨s, rfl, h, rfl⟩
  | cons t ts ih =>
      have hfirst : ∃ s', Controller.bus.transfer fuel m s t =
            some ((t.on (disksOf m s)).1, s') ∧ Serves m fuel s' ∧
          disksOf m s' = (t.on (disksOf m s)).2 := by
        have ht := hinside t (List.mem_cons_self ..)
        cases t with
        | read driveIdx lba buffer => exact read_serves h buffer ht
        | write driveIdx lba buffer => exact write_serves h buffer ht
      obtain ⟨s₁, hstep, h₁, hdisks₁⟩ := hfirst
      obtain ⟨s₂, hrest, h₂, hdisks₂⟩ := ih h₁ fun t ht =>
        hinside t (List.mem_cons_of_mem _ ht)
      rw [hdisks₁] at hrest hdisks₂
      refine ⟨s₂, ?_, h₂, hdisks₂⟩
      rw [Bus.transfers, hstep, Option.bind_some, hrest]
      rfl

theorem toNat_capacity (identity : Nat → UInt16) :
    (UInt64.ofNat (capacity identity)).toNat = capacity identity := by
  have hlow := (identity 60).toNat_lt
  have hhigh := (identity 61).toNat_lt
  rw [UInt64.toNat_ofNat', capacity]
  omega

theorem driveAt_disk {place : UInt16 × DriveType}
    (h : s.driveAt place = some d) :
    ∃ sectors identity,
      s.devices d.basePort (d.type = .slave) = some (.disk sectors identity) ∧
        d.sizeSectors.toNat = capacity identity := by
  rw [Controller.driveAt] at h
  split at h
  · rename_i sectors identity hdisk
    cases h
    exact ⟨sectors, identity, hdisk, toNat_capacity identity⟩
  · cases h

theorem init_serves (hq : s.Quiet) (hdelay : ∀ n, s.delay n < fuel)
    {s₁ : Controller} (hinit : Controller.bus.init fuel s = some (m, s₁)) :
    Serves m fuel s₁ ∧ disksOf m s₁ = disksOf m s := by
  have hfloats : ¬ s.Floats := fun h => by
    rw [Controller.init_of_floats hq hdelay h] at hinit
    cases hinit
  obtain ⟨s', hafter, heq⟩ :=
    Controller.init_of_not_floats hq hdelay hfloats
  have hstarted := Controller.bus.init_started hinit
  rw [heq] at hinit
  cases hinit
  refine ⟨⟨hstarted, hafter.quiet, ?_, ?_⟩, ?_⟩
  · rw [hafter.delay]
    exact hdelay
  · intro d hd
    obtain ⟨place, -, hplace⟩ := List.mem_filterMap.1 hd
    rw [hafter.devices]
    exact driveAt_disk hplace
  · rw [disksOf, disksOf, hafter.devices]

/-- From a quiet controller, whose drives are busy for less than `fuel` reads
of their status: after `init` has come back, any sequence of transfers inside
the disks that it found comes back, with the answers, and with the sectors on
the disks, that the disks of the file system have. -/
theorem transfers_refine (hq : s.Quiet) (hdelay : ∀ n, s.delay n < fuel)
    {s₁ : Controller} (hinit : Controller.bus.init fuel s = some (m, s₁))
    (ts : List Transfer) (hinside : ∀ t ∈ ts, t.Inside m) :
    ∃ s₂, Controller.bus.transfers fuel m ts s₁ =
        some ((Transfer.onAll (disksOf m s) ts).1, s₂) ∧
      disksOf m s₂ = (Transfer.onAll (disksOf m s) ts).2 ∧ s₂.Quiet := by
  obtain ⟨hserves, hdisks⟩ := init_serves hq hdelay hinit
  obtain ⟨s₂, hrun, h₂, hdisks₂⟩ := transfers_serves ts hserves hinside
  rw [hdisks] at hrun hdisks₂
  exact ⟨s₂, hrun, hdisks₂, h₂.quiet⟩

/-- A sector is written and read back, on a drive that is busy for a while
after each command. -/
theorem transfers_refine_bench :
    ∃ m s₁ s₂, Controller.bus.init 4 Controller.bench = some (m, s₁) ∧
      Controller.bus.transfers 4 m
        [.write 0 5 (Vector.replicate 512 1),
          .read 0 5 Storage.zeroSector] s₁ =
        some ([(true, Vector.replicate 512 1),
          (true, Vector.replicate 512 1)], s₂) := by
  obtain ⟨s₁, -, hinit⟩ := Controller.init_of_not_floats
    Controller.bench_quiet Controller.bench_delay Controller.bench_not_floats
  obtain ⟨s₂, hrun, -⟩ := transfers_refine Controller.bench_quiet
    Controller.bench_delay hinit
    [.write 0 5 (Vector.replicate 512 1), .read 0 5 Storage.zeroSector]
    (by
      intro t ht d hd
      have hplace : t.place = (0, 5) := by
        simp only [List.mem_cons, List.not_mem_nil, or_false] at ht
        rcases ht with rfl | rfl <;> rfl
      rw [hplace] at hd ⊢
      cases hd
      exact ⟨by decide, by decide⟩)
  exact ⟨_, s₁, s₂, hinit, hrun⟩

end TermOS.Ata
