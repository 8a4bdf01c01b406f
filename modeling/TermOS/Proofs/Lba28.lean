import Mathlib.Data.List.GetD
import TermOS.Ref.Ata
import TermOS.Proofs.Sectors

/-!
# 28 bits of an LBA

What `read_sector` and `write_sector` write to the ports is read back as a
request: one sector of the drive, and the lowest 28 bits of the LBA. The
drives `DiskManager::init` finds are at four different places, so two requests
go to the same sector if and only if they name the same drive and agree in
those 28 bits.
-/

namespace TermOS.Ata

open TermOS.Lib
open TermOS.Storage (Sector)

/-! ## One request -/

/-- What a transfer of one sector should be read back as. -/
def Drive.asked (d : Drive) (lba : Nat) (command : UInt8) : Request where
  channel := d.basePort
  command := command
  lbaMode := true
  slave := d.type = .slave
  count := 1
  lba := lba

/-- The drive is on one of the two channels. -/
def Drive.OnChannel (d : Drive) : Prop :=
  d.basePort = 0x1F0 ∨ d.basePort = 0x170

variable {d : Drive} {lba : UInt32}

theorem head_bits : ∀ (slave : Bool) (n : Fin 16),
    (((0xE0 : UInt32) |||
        (if slave then 1 else 0 : UInt32) <<< 4 ||| UInt32.ofNat n.val).toUInt8 &&& 0x0F).toNat = n.val ∧
      (((0xE0 : UInt32) |||
        (if slave then 1 else 0 : UInt32) <<< 4 ||| UInt32.ofNat n.val).toUInt8 &&& 0x10 != 0) = slave ∧
      (((0xE0 : UInt32) |||
        (if slave then 1 else 0 : UInt32) <<< 4 ||| UInt32.ofNat n.val).toUInt8 &&& 0x40 != 0) = true := by
  decide

theorem toNat_top (lba : UInt32) :
    ((lba >>> 24) &&& 0x0F).toNat = lba.toNat / 16777216 % 16 := by
  have hshift : (lba >>> 24).toNat = lba.toNat / 16777216 := by
    rw [UInt32.toNat_shiftRight]
    exact Nat.shiftRight_eq_div_pow _ _
  rw [UInt32.toNat_and, hshift]
  exact Nat.and_two_pow_sub_one_eq_mod _ 4

/-- The drive register has the highest four bits of 28, the drive, and LBA
mode. -/
theorem head_spec (d : Drive) (lba : UInt32) :
    ((d.head lba).toUInt8 &&& 0x0F).toNat = lba.toNat / 16777216 % 16 ∧
      ((d.head lba).toUInt8 &&& 0x10 != 0) = decide (d.type = .slave) ∧
      ((d.head lba).toUInt8 &&& 0x40 != 0) = true := by
  have htop : (lba >>> 24) &&& 0x0F =
      UInt32.ofNat (lba.toNat / 16777216 % 16) := by
    rw [← toNat_top, UInt32.ofNat_toNat]
  have hbits := head_bits (decide (d.type = .slave))
    ⟨lba.toNat / 16777216 % 16, Nat.mod_lt _ (by decide)⟩
  rw [Drive.head, htop]
  simpa using hbits

theorem toNat_low (lba : UInt32) : lba.toUInt8.toNat = lba.toNat % 256 :=
  UInt32.toNat_toUInt8 lba

theorem toNat_mid (lba : UInt32) :
    (lba >>> 8).toUInt8.toNat = lba.toNat / 256 % 256 := by
  rw [UInt32.toNat_toUInt8, UInt32.toNat_shiftRight]
  exact congrArg (· % 256) (Nat.shiftRight_eq_div_pow _ _)

theorem toNat_high (lba : UInt32) :
    (lba >>> 16).toUInt8.toNat = lba.toNat / 65536 % 256 := by
  rw [UInt32.toNat_toUInt8, UInt32.toNat_shiftRight]
  exact congrArg (· % 256) (Nat.shiftRight_eq_div_pow _ _)

/-- The four registers put together again. -/
theorem bytes_eq (n : Nat) :
    n % 256 + 256 * (n / 256 % 256 + 256 * (n / 65536 % 256 +
      256 * (n / 16777216 % 16))) = n % 268435456 := by
  omega

/-- What is left of the writes asks for nothing. -/
def Idle (writes : List PortWrite) : Prop :=
  ∀ files, requests files writes = []

theorem idle_nil : Idle [] := fun _ => rfl

theorem Idle.outw {writes : List PortWrite} (h : Idle writes)
    (port value : UInt16) : Idle (.outw port value :: writes) := h

theorem Idle.outws {writes : List PortWrite} (h : Idle writes) (port : UInt16)
    (values : List UInt16) : Idle (values.map (.outw port) ++ writes) := by
  induction values with
  | nil => exact h
  | cons value values ih => exact ih.outw port value

/-- The cache is flushed. -/
theorem idle_flush (hd : d.OnChannel) : Idle [.outb (d.basePort + 7) 0xE7] := by
  intro files
  rcases hd with h | h <;> rw [h] <;> rfl

/-- A channel begins at a multiple of eight. -/
theorem register_port (hd : d.OnChannel) :
    ∀ k ∈ [(2 : UInt16), 3, 4, 5, 6, 7],
      (d.basePort + k) &&& 0xFFF8 = d.basePort ∧ (d.basePort + k) &&& 7 = k := by
  intro k hk
  simp only [List.mem_cons, List.not_mem_nil, or_false] at hk
  rcases hd with h | h <;> rw [h] <;>
    rcases hk with rfl | rfl | rfl | rfl | rfl | rfl <;> exact ⟨rfl, rfl⟩

theorem requests_put {port channel : UInt16} {value : UInt8} {reg : UInt16}
    {writes : List PortWrite} (files : UInt16 → TaskFile)
    (h : port &&& 0xFFF8 = channel ∧ port &&& 7 = reg) (hreg : reg ≠ 7) :
    requests files (.outb port value :: writes) =
      requests (Function.update files channel
        ((files channel).put value reg.toNat)) writes := by
  rw [requests, h.1, h.2]
  exact if_neg hreg

theorem requests_transfer {port channel : UInt16} {value : UInt8}
    {writes : List PortWrite} (files : UInt16 → TaskFile)
    (h : port &&& 0xFFF8 = channel ∧ port &&& 7 = 7)
    (hvalue : value = 0x20 ∨ value = 0x30) :
    requests files (.outb port value :: writes) =
      (files channel).request channel value :: requests files writes := by
  rw [requests, h.1, h.2]
  exact (if_pos rfl).trans (if_pos hvalue)

/-- The registers when the command is written. -/
def Drive.file (d : Drive) (lba : UInt32) : TaskFile where
  sectorCount := 1
  lbaLow := lba.toUInt8
  lbaMid := (lba >>> 8).toUInt8
  lbaHigh := (lba >>> 16).toUInt8
  driveHead := (d.head lba).toUInt8

theorem request_file (d : Drive) (lba : UInt32) (command : UInt8) :
    (d.file lba).request d.basePort command =
      d.asked (lba.toNat % 268435456) command := by
  obtain ⟨htop, hslave, hmode⟩ := head_spec d lba
  have hlba := bytes_eq lba.toNat
  rw [TaskFile.request, Drive.asked, Drive.file]
  simp only [hslave, hmode, htop, toNat_low lba, toNat_mid lba,
    toNat_high lba, hlba]
  rfl

/-- The six writes are one request for one sector, of the drive, with the
lowest 28 bits of the LBA. -/
theorem requests_command (hd : d.OnChannel) {command : UInt8}
    (hcommand : command = 0x20 ∨ command = 0x30) {rest : List PortWrite}
    (hrest : Idle rest) (files : UInt16 → TaskFile) :
    requests files (d.command lba command ++ rest) =
      [d.asked (lba.toNat % 268435456) command] := by
  have hport := register_port hd
  rw [Drive.command]
  simp only [List.cons_append, List.nil_append]
  rw [requests_put files (hport 6 (by decide)) (by decide),
    requests_put _ (hport 2 (by decide)) (by decide),
    requests_put _ (hport 3 (by decide)) (by decide),
    requests_put _ (hport 4 (by decide)) (by decide),
    requests_put _ (hport 5 (by decide)) (by decide),
    requests_transfer _ (hport 7 (by decide)) hcommand, hrest]
  simp only [Function.update_self]
  exact congrArg (fun r => [r]) (request_file d lba command)

/-! ## The drives that are found -/

/-- Where a drive is. -/
def Drive.location (d : Drive) : UInt16 × DriveType := (d.basePort, d.type)

/-- The places `init` looks at. -/
def probed : List (UInt16 × DriveType) :=
  [(0x1F0, .master), (0x1F0, .slave), (0x170, .master), (0x170, .slave)]

/-- The table of drives is as `init` leaves it. -/
def Started (m : DiskManager) : Prop :=
  ∃ answer₁ answer₂ answer₃ answer₄,
    DiskManager.init answer₁ answer₂ answer₃ answer₄ = some m

/-- One drive is found at the place, or none. -/
theorem registerDriver_location {m m' : DiskManager} {port : UInt16}
    {type : DriveType} {answer : Identity}
    (h : m.registerDriver port type answer = some m')
    {before : List (UInt16 × DriveType)}
    (hm : List.Sublist (m.drives.map Drive.location) before) :
    List.Sublist (m'.drives.map Drive.location)
      (before ++ [(port, type)]) := by
  have hskip : List.Sublist (m.drives.map Drive.location)
      (before ++ [(port, type)]) :=
    hm.trans (List.sublist_append_left _ _)
  rw [DiskManager.registerDriver] at h
  split at h
  · cases h
    exact hskip
  · split at h
    · cases h
    · split at h
      · cases h
        exact hskip
      · cases h
        rw [List.map_append]
        exact hm.append (List.Sublist.refl _)

theorem Started.location {m : DiskManager} (h : Started m) :
    List.Sublist (m.drives.map Drive.location) probed := by
  obtain ⟨answer₁, answer₂, answer₃, answer₄, hinit⟩ := h
  obtain ⟨m₁, h₁, hinit⟩ := Option.bind_eq_some_iff.1 hinit
  obtain ⟨m₂, h₂, hinit⟩ := Option.bind_eq_some_iff.1 hinit
  obtain ⟨m₃, h₃, h₄⟩ := Option.bind_eq_some_iff.1 hinit
  have hnone : List.Sublist (([] : List Drive).map Drive.location) [] :=
    List.Sublist.refl _
  exact registerDriver_location h₄ (registerDriver_location h₃
    (registerDriver_location h₂ (registerDriver_location h₁ hnone)))

theorem Started.onChannel {m : DiskManager} (h : Started m)
    (hd : d ∈ m.drives) : d.OnChannel := by
  have hmem := h.location.subset (List.mem_map_of_mem (f := Drive.location) hd)
  have hall : (probed.all fun l => l.1 == 0x1F0 || l.1 == 0x170) = true := by
    decide
  have hport := List.all_eq_true.1 hall _ hmem
  simpa [Drive.OnChannel, Drive.location] using hport

/-- No two drives are at one place. -/
theorem Started.index_eq {m : DiskManager} (h : Started m) {i j : Nat}
    {d' : Drive} (hi : m.drives[i]? = some d) (hj : m.drives[j]? = some d')
    (hloc : d.location = d'.location) : i = j := by
  have hnodup : (m.drives.map Drive.location).Nodup :=
    h.location.nodup (by decide)
  have hlt : i < (m.drives.map Drive.location).length := by
    rw [List.length_map]
    exact (List.getElem?_eq_some_iff.1 hi).1
  refine (List.getElem?_inj hlt hnodup).1 ?_
  rw [List.getElem?_map, List.getElem?_map, hi, hj]
  exact congrArg some hloc

/-! ## What is accepted -/

/-- A transfer that returns `true`, with its port writes. -/
def Accepted (m : DiskManager) (driveIdx : UInt8) (lba : UInt32)
    (writes : List PortWrite) : Prop :=
  ∃ outcome buffer status, outcome.ok = true ∧ outcome.writes = writes ∧
    ((∃ data, m.readSector driveIdx lba buffer status data = some outcome) ∨
      m.writeSector driveIdx lba buffer status = some outcome)

theorem Accepted.command {m : DiskManager} {driveIdx : UInt8}
    {writes : List PortWrite} (hm : Started m)
    (h : Accepted m driveIdx lba writes) :
    ∃ d command, m.drives[driveIdx.toNat]? = some d ∧
      ∀ files, requests files writes =
        [d.asked (lba.toNat % 268435456) command] := by
  obtain ⟨outcome, buffer, status, hok, rfl, h⟩ := h
  cases hd : m.drives[driveIdx.toNat]? with
  | none =>
      rcases h with ⟨data, h⟩ | h
      · rw [DiskManager.readSector, hd] at h
        cases h
        cases hok
      · rw [DiskManager.writeSector, hd] at h
        cases h
        cases hok
  | some d =>
      have hchannel := hm.onChannel (List.mem_of_getElem? hd)
      rcases h with ⟨data, h⟩ | h
      · rw [DiskManager.readSector, hd] at h
        obtain ⟨-, -, rfl⟩ := Option.map_eq_some_iff.1 h
        refine ⟨d, 0x20, rfl, fun files => ?_⟩
        have hread := @requests_command d lba hchannel 0x20 (.inl rfl) _
          idle_nil files
        rwa [List.append_nil] at hread
      · rw [DiskManager.writeSector, hd] at h
        obtain ⟨rest, -, h⟩ := Option.bind_eq_some_iff.1 h
        obtain ⟨-, -, rfl⟩ := Option.map_eq_some_iff.1 h
        refine ⟨d, 0x30, rfl, fun files => ?_⟩
        rw [List.append_assoc]
        exact requests_command hchannel (.inr rfl)
          ((idle_flush hchannel).outws _ _) files

theorem place_inj {d' : Drive} {n n' : Nat} {command command' : UInt8}
    (h : (d.asked n command).place = (d'.asked n' command').place) :
    d.location = d'.location ∧ n = n' := by
  simp only [Drive.asked, Request.place, Prod.mk.injEq, decide_eq_decide] at h
  obtain ⟨hport, hslave, hlba⟩ := h
  have htype : d.type = d'.type := by
    cases ht : d.type <;> cases ht' : d'.type <;> rw [ht, ht'] at hslave <;>
      simp at hslave ⊢
  exact ⟨Prod.ext hport htype, hlba⟩

/-- The port writes are a request for one sector, of the drive that is named,
with exactly this LBA. -/
def Decodes (d : Drive) (lba : UInt32) (writes : List PortWrite) : Prop :=
  ∃ command, ∀ files, requests files writes = [d.asked lba.toNat command]

/-- For every table that `init` leaves and every transfer that returns `true`:
its port writes are a request for one sector of its drive with its LBA if and
only if the LBA is below 2^28. Two such transfers go to the same sector if and
only if they name the same drive and their LBAs agree in the lowest 28 bits. -/
theorem lba28_of_accepted {m : DiskManager} (hm : Started m)
    {driveIdx : UInt8} {lba : UInt32} {writes : List PortWrite}
    (h : Accepted m driveIdx lba writes) :
    (∃ d, m.drives[driveIdx.toNat]? = some d ∧
      (Decodes d lba writes ↔ lba.toNat < 268435456)) ∧
    ∀ driveIdx' lba' writes', Accepted m driveIdx' lba' writes' →
      ∀ files files',
        ((requests files writes).map Request.place =
            (requests files' writes').map Request.place ↔
          driveIdx = driveIdx' ∧
            lba.toNat % 268435456 = lba'.toNat % 268435456) := by
  obtain ⟨d, command, hd, hasked⟩ := h.command hm
  refine ⟨⟨d, hd, ?_⟩, fun driveIdx' lba' writes' h' files files' => ?_⟩
  · refine ⟨?_, ?_⟩
    · rintro ⟨command', hexact⟩
      have heq := (hasked fun _ => ⟨0, 0, 0, 0, 0⟩).symm.trans (hexact _)
      have hlba := congrArg Request.lba (List.cons.inj heq).1
      simp only [Drive.asked] at hlba
      omega
    · intro hlt
      rw [Nat.mod_eq_of_lt hlt] at hasked
      exact ⟨command, hasked⟩
  · obtain ⟨d', command', hd', hasked'⟩ := h'.command hm
    rw [hasked, hasked']
    refine ⟨?_, ?_⟩
    · intro heq
      obtain ⟨hplace, hlba⟩ := place_inj (List.cons.inj heq).1
      have hindex := hm.index_eq hd hd' hplace
      exact ⟨UInt8.toNat_inj.1 hindex, hlba⟩
    · rintro ⟨rfl, hmod⟩
      obtain rfl := Option.some.inj (hd.symm.trans hd')
      rw [hmod]
      rfl

/-! ## The disks as the file system has them -/

/-- What is on the platters, by place. -/
abbrev Medium := UInt16 × Bool × Nat → Sector

/-- The drives of a table as maps from LBAs to sectors. -/
def DiskManager.volumes (m : DiskManager) (medium : Medium) :
    Storage.DiskManager where
  driveCount := UInt8.ofNat m.drives.length
  sectors driveIdx lba :=
    match m.drives[driveIdx.toNat]? with
    | none => Storage.zeroSector
    | some d => medium (d.asked lba.toNat 0x20).place

section Volumes

variable {m : DiskManager} {driveIdx : UInt8} {buffer : Sector}
  {status : List UInt8} {outcome : Outcome}

theorem Started.length_le (hm : Started m) : m.drives.length ≤ 4 := by
  have hle := hm.location.length_le
  rwa [List.length_map] at hle

theorem Started.lt_driveCount (hm : Started m) (medium : Medium) :
    ¬ driveIdx ≥ (m.volumes medium).driveCount ↔
      driveIdx.toNat < m.drives.length := by
  have hle := hm.length_le
  have hcount : (m.volumes medium).driveCount.toNat = m.drives.length := by
    show (UInt8.ofNat m.drives.length).toNat = m.drives.length
    rw [UInt8.toNat_ofNat']
    omega
  rw [ge_iff_le, UInt8.not_le, UInt8.lt_iff_toNat_lt, hcount]

theorem sectors_volumes (medium : Medium)
    (hd : m.drives[driveIdx.toNat]? = some d) (lba : UInt32) :
    (m.volumes medium).sectors driveIdx lba =
      medium (d.asked lba.toNat 0x20).place := by
  simp only [DiskManager.volumes, hd]

/-- A buffer sent word by word and stored word by word. -/
theorem ofWords_words (buffer : Sector) :
    ofWords ((words buffer).getD · 0) = buffer := by
  refine Vector.ext fun k hk => ?_
  have hword : (words buffer).getD (k / 2) 0 =
      le16 (buffer.toList.getD (2 * (k / 2)) 0)
        (buffer.toList.getD (2 * (k / 2) + 1) 0) := by
    rw [words, List.getD_eq_getElem _ _ (by simp; omega), List.getElem_map,
      List.getElem_range]
  have hbyte : buffer.toList.getD k 0 = buffer[k] := by
    rw [List.getD_eq_getElem _ _ (by simpa using hk), Vector.getElem_toList]
  rw [ofWords, Vector.getElem_ofFn, hword, ← hbyte]
  rcases Nat.mod_two_eq_zero_or_one k with hmod | hmod
  · rw [hmod, (byte16_le16 _ _).1, show 2 * (k / 2) = k by omega]
  · rw [hmod, (byte16_le16 _ _).2, show 2 * (k / 2) + 1 = k by omega]

/-- A `write_sector` of an LBA below 2^28 changes the sector that the file
system means, and no other below 2^28. -/
theorem writeSector_volumes (hm : Started m)
    (h : m.writeSector driveIdx lba buffer status = some outcome)
    (hok : outcome.ok = true) (hlt : lba.toNat < 268435456) (medium : Medium) :
    ∃ r disk, (∀ files, requests files outcome.writes = [r]) ∧
      (m.volumes medium).writeSector driveIdx lba buffer = some disk ∧
      ∀ driveIdx' lba', driveIdx'.toNat < m.drives.length →
        lba'.toNat < 268435456 →
        (m.volumes (Function.update medium r.place buffer)).sectors driveIdx'
          lba' = disk.sectors driveIdx' lba' := by
  have haccepted : Accepted m driveIdx lba outcome.writes :=
    ⟨outcome, buffer, status, hok, rfl, .inr h⟩
  obtain ⟨d, command, hd, hasked⟩ := haccepted.command hm
  have hidx := (List.getElem?_eq_some_iff.1 hd).1
  rw [Nat.mod_eq_of_lt hlt] at hasked
  refine ⟨_, _, hasked, if_neg ((hm.lt_driveCount medium).2 hidx), ?_⟩
  intro driveIdx' lba' hidx' hlt'
  have hd' := List.getElem?_eq_getElem hidx'
  rw [sectors_volumes _ hd']
  simp only
  by_cases hsame : driveIdx' = driveIdx
  · subst hsame
    rw [Option.some.inj (hd'.symm.trans hd), Function.update_self]
    by_cases hlba : lba' = lba
    · rw [hlba, Function.update_self]
      exact Function.update_self _ _ _
    · have hne : (d.asked lba'.toNat 0x20).place ≠
          (d.asked lba.toNat command).place := fun heq =>
        hlba (UInt32.toNat_inj.1 (place_inj heq).2)
      rw [Function.update_of_ne hlba, Function.update_of_ne hne,
        sectors_volumes _ hd]
  · have hne : (Drive.asked m.drives[driveIdx'.toNat] lba'.toNat 0x20).place ≠
        (d.asked lba.toNat command).place := fun heq =>
      hsame (UInt8.toNat_inj.1 (hm.index_eq hd' hd (place_inj heq).1))
    rw [Function.update_of_ne hsame, Function.update_of_ne hne,
      sectors_volumes _ hd']

end Volumes

/-! ## Four drives -/

/-- A drive that answers at once. -/
def found : Identity := ⟨0x50, [0x50], 0, 0, fun _ => 0⟩

/-- Four drives. -/
def fourDrives : DiskManager :=
  ⟨[⟨0x1F0, .master, true, 0⟩, ⟨0x1F0, .slave, true, 0⟩,
    ⟨0x170, .master, true, 0⟩, ⟨0x170, .slave, true, 0⟩]⟩

theorem started_fourDrives : Started fourDrives :=
  ⟨found, found, found, found, rfl⟩

theorem accepted_fourDrives (lba : UInt32) :
    Accepted fourDrives 1 lba
      (Drive.command ⟨0x1F0, .slave, true, 0⟩ lba 0x20) :=
  ⟨_, Storage.zeroSector, [0x50, 0x50], rfl, rfl, .inl ⟨fun _ => 0, rfl⟩⟩

/-- Sector 5 of the second drive is what is asked for. -/
theorem lba28_of_accepted_fourDrives :
    ∃ d, fourDrives.drives[1]? = some d ∧
      Decodes d 5 (Drive.command ⟨0x1F0, .slave, true, 0⟩ 5 0x20) := by
  obtain ⟨⟨d, hd, hiff⟩, -⟩ :=
    lba28_of_accepted started_fourDrives (accepted_fourDrives 5)
  exact ⟨d, hd, hiff.2 (by decide)⟩

/-- A transfer of sector 2^28 of the second drive is one of its sector 0. -/
theorem lba28_wraps :
    ∃ writes writes', Accepted fourDrives 1 0x10000000 writes ∧
      Accepted fourDrives 1 0 writes' ∧
      ¬ Decodes ⟨0x1F0, .slave, true, 0⟩ 0x10000000 writes ∧
      ∀ files files', requests files writes = requests files' writes' := by
  have hchannel : Drive.OnChannel ⟨0x1F0, .slave, true, 0⟩ := .inl rfl
  have hwrites := fun lba files => @requests_command _ lba hchannel 0x20
    (.inl rfl) _ idle_nil files
  simp only [List.append_nil] at hwrites
  refine ⟨_, _, accepted_fourDrives 0x10000000, accepted_fourDrives 0, ?_, ?_⟩
  · rintro ⟨command, hexact⟩
    have heq := (hwrites 0x10000000 fun _ => ⟨0, 0, 0, 0, 0⟩).symm.trans
      (hexact _)
    have hlba := congrArg Request.lba (List.cons.inj heq).1
    simp only [Drive.asked] at hlba
    exact absurd hlba (by decide)
  · intro files files'
    rw [hwrites, hwrites]
    rfl

end TermOS.Ata
