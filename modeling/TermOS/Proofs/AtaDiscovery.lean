import TermOS.Proofs.AtaBus

/-!
# The disks that are found

From a quiet controller `DiskManager::init` looks at four places, in order, and
puts the disks into the table, with the number of sectors that they say they
have. A bus without drives that floats high is polled for ever.
-/

namespace TermOS.Ata

open TermOS.Lib
open TermOS.Storage (Sector)

/-- Words 60 and 61 of the data are the number of sectors. -/
theorem sizeOf_identity (identity : Nat → UInt16) :
    Bus.sizeOf ((List.range 256).map identity) =
      UInt64.ofNat (capacity identity) := by
  have hlow := (identity 60).toNat_lt
  have hhigh := (identity 61).toNat_lt
  have hshift : ((identity 61).toUInt32 <<< 16).toNat =
      (identity 61).toNat <<< 16 := by
    rw [UInt32.toNat_shiftLeft, UInt16.toNat_toUInt32]
    simp only [UInt32.reduceToNat, Nat.reduceMod, Nat.shiftLeft_eq]
    omega
  have hdata : ∀ k, k < 256 →
      ((List.range 256).map identity).getD k 0 = identity k := by
    intro k hk
    rw [List.getD_eq_getElem _ _ (by simpa using hk), List.getElem_map,
      List.getElem_range]
  rw [Bus.sizeOf, hdata 60 (by decide), hdata 61 (by decide), capacity]
  apply UInt64.toNat_inj.1
  rw [UInt32.toNat_toUInt64, UInt32.toNat_or, hshift, UInt16.toNat_toUInt32,
    Nat.or_comm, ← Nat.shiftLeft_add_eq_or_of_lt hlow, Nat.shiftLeft_eq,
    UInt64.toNat_ofNat']
  omega

namespace Controller

variable {s : Controller} {base : UInt16} {c : Channel} {fuel : Nat}
  {sectors : Nat → Sector} {identity : Nat → UInt16}

/-! ## One place -/

/-- The disk at a place, as the table has it. -/
def driveAt (s : Controller) (place : UInt16 × DriveType) : Option Drive :=
  match s.devices place.1 (place.2 = .slave) with
  | some (.disk _ identity) =>
      some ⟨place.1, place.2, true, UInt64.ofNat (capacity identity)⟩
  | _ => none

/-- The drive register that `register_driver` writes. -/
def identifyHead (type : DriveType) : UInt8 :=
  if type = .master then 0xA0 else 0xB0

theorem selected_identify (c : Channel) (type : DriveType) :
    { c with file := ⟨0, 0, 0, 0, identifyHead type⟩ }.selected =
      c.device (type = .slave) := by
  have hslave : (identifyHead type &&& 0x10 != 0) =
      decide (type = .slave) := by
    cases type <;> decide
  show c.device (identifyHead type &&& 0x10 != 0) = _
  rw [hslave]

theorem register_empty (hempty : c.isEmpty = true) (floating : UInt8)
    (reg : Nat) : c.register floating reg = floating := if_pos hempty

theorem bus_inb (s : Controller) (port : UInt16) :
    bus.inb s port = s.inb port := rfl

theorem inb_absent (hb : IsChannel base) {k : UInt16}
    (hk : k ∈ [(0 : UInt16), 2, 3, 4, 5, 6, 7])
    (h : (s.channels base).selected = none) :
    s.inb (base + k) =
      ((s.channels base).register s.floating k.toNat, s) := by
  obtain ⟨hbase, hreg⟩ := register_of_channel hb k hk
  rw [inb, hbase, hreg]
  refine Prod.ext rfl (if_neg ?_)
  rintro ⟨-, hsome⟩
  rw [h] at hsome
  cases hsome

theorem inb_data (hb : IsChannel base) {k : UInt16}
    (hk : k ∈ [(4 : UInt16), 5]) :
    s.inb (base + k) =
      ((s.channels base).register s.floating k.toNat, s) := by
  obtain ⟨hbase, hreg⟩ := register_of_channel hb k (by
    simp only [List.mem_cons, List.not_mem_nil, or_false] at hk ⊢
    exact .inr (.inr (.inr (hk.imp_right .inl |>.imp_right fun h => h))))
  have hne : k ≠ 7 := by
    rintro rfl
    simp at hk
  rw [inb, hbase, hreg]
  exact Prod.ext rfl (if_neg fun h => hne h.1)

/-- A bus that floats high looks busy for ever. -/
theorem waitBusy_floating (hb : IsChannel base)
    (h : (s.channels base).selected = none)
    (hempty : (s.channels base).isEmpty = true)
    (hfloat : s.floating &&& 0x80 ≠ 0) : bus.waitBusy base fuel s = none := by
  have hinb := inb_absent hb (k := 7) (by decide) h
  rw [register_empty hempty] at hinb
  induction fuel with
  | zero => rfl
  | succ fuel ih =>
      rw [Bus.waitBusy]
      show (if (s.inb (base + 7)).1 &&& 0x80 ≠ 0 then
        bus.waitBusy base fuel (s.inb (base + 7)).2
        else some (s.inb (base + 7)).2) = _
      rw [hinb]
      exact (if_pos hfloat).trans ih

/-- Nothing is selected: the bus answers at once, or never. -/
theorem waitBusy_absent (hb : IsChannel base)
    (h : (s.channels base).selected = none)
    (hbit : (s.channels base).register s.floating 7 &&& 0x80 = 0)
    (hfuel : 0 < fuel) : bus.waitBusy base fuel s = some s := by
  obtain ⟨fuel, rfl⟩ : ∃ n, fuel = n + 1 := ⟨fuel - 1, by omega⟩
  rw [Bus.waitBusy]
  simp only [bus_inb, inb_absent hb (k := 7) (by decide) h]
  exact if_neg (not_not.2 hbit)

theorem writes_identify (hb : IsChannel base) (hq : s.Quiet)
    (type : DriveType) :
    bus.writes s (Bus.identify base type) =
      s.put base
        ({ s.channels base with
          file := ⟨0, 0, 0, 0, identifyHead type⟩ }.execute
            (s.delay s.commands) 0xEC)
        (s.commands + 1) := by
  obtain ⟨hbusy, hidle⟩ := hq base hb
  exact writes_command hb hbusy hidle (identifyHead type) 0 0 0 0 0xEC

theorem registerDriver_absent (hb : IsChannel base) {type : DriveType}
    (m : DiskManager) (hq : s.Quiet) (hfuel : 0 < fuel)
    (hnone : s.devices base (type = .slave) = none) :
    ∃ s', After s s' s.devices ∧
      bus.registerDriver fuel m base type s =
        if (s.channels base).isEmpty = true ∧ s.floating &&& 0x80 ≠ 0 then none
        else some (m, s') := by
  obtain ⟨hbusy, hidle⟩ := hq base hb
  obtain ⟨c, hc⟩ : ∃ c, c = { s.channels base with
      file := ⟨0, 0, 0, 0, identifyHead type⟩ } := ⟨_, rfl⟩
  have hselected : c.selected = none := by
    rw [hc, selected_identify]
    exact hnone
  have hwrites := writes_identify hb hq type
  rw [← hc, show c.execute (s.delay s.commands) 0xEC = c by
    rw [Channel.execute, hselected]] at hwrites
  have hafter := hq.put_same base c (by rw [hc]; exact hbusy)
    (by rw [hc]; exact hidle) (by rw [hc]; rfl) (s.commands + 1)
  -- the state does not change any more
  obtain ⟨s', hs'⟩ : ∃ s', s' = s.put base c (s.commands + 1) := ⟨_, rfl⟩
  have hchannel : s'.channels base = c := by rw [hs', put_channels]
  have hempty : (s.channels base).isEmpty = c.isEmpty := by
    rw [hc]
    rfl
  have hinb := fun (k : UInt16) hk =>
    @inb_absent s' base hb k hk (by rw [hchannel]; exact hselected)
  rw [hchannel] at hinb
  have hfloating : s'.floating = s.floating := by
    rw [hs']
    rfl
  rw [hfloating] at hinb
  rw [← hs'] at hafter hwrites
  refine ⟨s', hafter, ?_⟩
  rw [Bus.registerDriver, hempty]
  simp only [hwrites, bus_inb, hinb 7 (by decide)]
  by_cases he : c.isEmpty = true
  · rw [register_empty he]
    by_cases hzero : s.floating = 0
    · rw [if_pos hzero, if_neg (by rw [hzero]; simp)]
    · rw [if_neg hzero]
      by_cases hbit : s.floating &&& 0x80 = 0
      · rw [waitBusy_absent hb (by rw [hchannel]; exact hselected)
          (by rw [hchannel, register_empty he, hfloating]; exact hbit) hfuel,
          Option.bind_some]
        simp only [hinb 4 (by decide)]
        rw [register_empty he, if_pos hzero, if_neg (fun h => h.2 hbit)]
      · rw [waitBusy_floating hb (by rw [hchannel]; exact hselected)
          (by rw [hchannel]; exact he) (by rw [hfloating]; exact hbit),
          Option.bind_none, if_pos ⟨he, hbit⟩]
  · have hstatus : c.register s.floating (UInt16.toNat 7) = 0 := by
      show c.register s.floating 7 = 0
      rw [Channel.register, if_neg he]
      show c.status = 0
      rw [Channel.status, hselected]
      rfl
    rw [if_pos hstatus, if_neg fun h => he h.1]

/-- Something at the place: it is waited for, and asked whether it is a
disk. -/
theorem registerDriver_present (hb : IsChannel base) {type : DriveType}
    (m : DiskManager) {n : Nat}
    (hwrites : bus.writes s (Bus.identify base type) = s.put base c n)
    (hsome : c.selected.isSome) (hfuel : c.busy < fuel) :
    bus.registerDriver fuel m base type s =
      let s' := s.put base { c with busy := 0 } n
      if c.file.lbaMid ≠ 0 ∨ c.file.lbaHigh ≠ 0 then some (m, s')
      else
        let data := bus.inws base 256 s'
        some (⟨m.drives ++ [⟨base, type, true, Bus.sizeOf data.1⟩]⟩,
          data.2) := by
  have hstatus : (s.put base c n).inb (base + 7) = (c.status, s.put base
      { c with busy := c.busy - 1 } n) := by
    have h := inb_status (s := s.put base c n) hb
      (by rw [put_channels]; exact hsome)
    rwa [put_channels, put_set] at h
  have hwait := @waitBusy_eq (s.put base { c with busy := c.busy - 1 } n) base
    fuel hb
    (by rw [put_channels]; exact hsome)
    (by rw [put_channels]; show c.busy - 1 < fuel; omega)
  rw [put_channels, put_set] at hwait
  obtain ⟨s', hs'⟩ : ∃ s', s' = s.put base { c with busy := 0 } n := ⟨_, rfl⟩
  have hinb := fun (k : UInt16) hk => @inb_data s' base hb k hk
  have hempty : c.isEmpty = false := isEmpty_of_selected hsome
  have hchannel : s'.channels base = { c with busy := 0 } := by
    rw [hs', put_channels]
  have hmid : s'.inb (base + 4) = (c.file.lbaMid, s') := by
    rw [hinb 4 (by simp), hchannel]
    refine Prod.ext ?_ rfl
    exact if_neg (by show ¬ c.isEmpty = true; rw [hempty]; simp)
  have hhigh : s'.inb (base + 5) = (c.file.lbaHigh, s') := by
    rw [hinb 5 (by simp), hchannel]
    refine Prod.ext ?_ rfl
    exact if_neg (by show ¬ c.isEmpty = true; rw [hempty]; simp)
  rw [Bus.registerDriver]
  simp only [hwrites, bus_inb, hstatus]
  rw [if_neg (status_bits hsome).2.2, hwait, Option.bind_some, ← hs']
  simp only [hmid, hhigh]
  by_cases h₄ : c.file.lbaMid ≠ 0
  · rw [if_pos h₄, if_pos (.inl h₄)]
  · rw [if_neg h₄]
    by_cases h₅ : c.file.lbaHigh ≠ 0
    · rw [if_pos h₅, if_pos (.inr h₅)]
    · rw [if_neg h₅, if_neg (by tauto)]

/-- A device that takes packets is waited for and left out. -/
theorem registerDriver_packet (hb : IsChannel base) {type : DriveType}
    (m : DiskManager) (hq : s.Quiet) (hdelay : ∀ n, s.delay n < fuel)
    (hpacket : s.devices base (type = .slave) = some .packet) :
    ∃ s', After s s' s.devices ∧
      bus.registerDriver fuel m base type s = some (m, s') := by
  obtain ⟨hbusy, hidle⟩ := hq base hb
  obtain ⟨c, hc⟩ : ∃ c, c = { s.channels base with
      file := ⟨0, 0, 0x14, 0xEB, identifyHead type⟩
      failed := true
      busy := s.delay s.commands } := ⟨_, rfl⟩
  have hselected : c.selected = some .packet := by
    rw [hc]
    exact (selected_identify (s.channels base) type).trans hpacket
  have hexecute : { s.channels base with
      file := ⟨0, 0, 0, 0, identifyHead type⟩ }.execute
        (s.delay s.commands) 0xEC = c := by
    rw [Channel.execute, selected_identify, show (s.channels base).device
      (decide (type = .slave)) = some .packet from hpacket, hc]
    rfl
  have hwrites := writes_identify hb hq type
  rw [hexecute] at hwrites
  have hpresent := registerDriver_present hb m hwrites
    (by rw [hselected]; rfl) (show c.busy < fuel by rw [hc]; exact hdelay _)
  refine ⟨_, hq.put_same base { c with busy := 0 } rfl
    (by rw [hc]; exact hidle) (by rw [hc]; rfl) (s.commands + 1), ?_⟩
  rw [hpresent]
  exact if_pos (.inl (by rw [hc]; simp))

/-- A disk is put into the table. -/
theorem registerDriver_disk (hb : IsChannel base) {type : DriveType}
    (m : DiskManager) (hq : s.Quiet) (hdelay : ∀ n, s.delay n < fuel)
    (hdisk : s.devices base (type = .slave) =
      some (.disk sectors identity)) :
    ∃ s', After s s' s.devices ∧
      bus.registerDriver fuel m base type s = some (⟨m.drives ++
        [⟨base, type, true, UInt64.ofNat (capacity identity)⟩]⟩, s') := by
  obtain ⟨hbusy, hidle⟩ := hq base hb
  obtain ⟨c, hc⟩ : ∃ c, c = { s.channels base with
      file := ⟨0, 0, 0, 0, identifyHead type⟩
      failed := false
      busy := s.delay s.commands
      phase := Phase.receive ((List.range 256).map identity) } := ⟨_, rfl⟩
  have hselected : c.selected = some (.disk sectors identity) := by
    rw [hc]
    exact (selected_identify (s.channels base) type).trans hdisk
  have hexecute : { s.channels base with
      file := ⟨0, 0, 0, 0, identifyHead type⟩ }.execute
        (s.delay s.commands) 0xEC = c := by
    rw [Channel.execute, selected_identify, show (s.channels base).device
      (decide (type = .slave)) = some (.disk sectors identity) from hdisk, hc]
    rfl
  have hwrites := writes_identify hb hq type
  rw [hexecute] at hwrites
  have hpresent := registerDriver_present hb m hwrites
    (by rw [hselected]; rfl) (show c.busy < fuel by rw [hc]; exact hdelay _)
  have hdata := inws_all (s := s.put base { c with busy := 0 }
    (s.commands + 1)) hb
    (show ((List.range 256).map identity).length = 256 by simp)
    (by rw [put_channels]) (by rw [put_channels, hc])
  rw [put_channels, put_set] at hdata
  refine ⟨_, hq.put_same base { c with
    busy := 0
    phase := .idle } rfl rfl (by rw [hc]; rfl) (s.commands + 1), ?_⟩
  rw [hpresent]
  simp only [hdata]
  rw [if_neg (by rw [hc]; simp), sizeOf_identity]

/-- One place, whatever is there. -/
theorem registerDriver_eq (hb : IsChannel base) (type : DriveType)
    (m : DiskManager) (hq : s.Quiet) (hdelay : ∀ n, s.delay n < fuel) :
    ∃ s', After s s' s.devices ∧
      bus.registerDriver fuel m base type s =
        if (s.channels base).isEmpty = true ∧ s.floating &&& 0x80 ≠ 0 then none
        else
          some (⟨m.drives ++ (s.driveAt (base, type)).toList⟩, s') := by
  have hfuel : 0 < fuel := (Nat.zero_le _).trans_lt (hdelay 0)
  have hsome : ∀ device, s.devices base (type = .slave) = some device →
      ¬ ((s.channels base).isEmpty = true ∧ s.floating &&& 0x80 ≠ 0) := by
    rintro device hdevice ⟨hempty, -⟩
    rw [Channel.isEmpty, Bool.and_eq_true, Option.isNone_iff_eq_none,
      Option.isNone_iff_eq_none] at hempty
    rw [devices] at hdevice
    cases type
    · exact absurd (hdevice.symm.trans hempty.1) (by simp)
    · exact absurd (hdevice.symm.trans hempty.2) (by simp)
  rw [driveAt]
  cases hdevice : s.devices base (type = .slave) with
  | none =>
      obtain ⟨s', hafter, heq⟩ := registerDriver_absent hb m hq hfuel hdevice
      refine ⟨s', hafter, ?_⟩
      rw [heq]
      simp only [Option.toList_none, List.append_nil]
  | some device =>
      cases device with
      | packet =>
          obtain ⟨s', hafter, heq⟩ :=
            registerDriver_packet hb m hq hdelay hdevice
          refine ⟨s', hafter, ?_⟩
          rw [heq, if_neg (hsome _ hdevice)]
          simp only [Option.toList_none, List.append_nil]
      | disk sectors identity =>
          obtain ⟨s', hafter, heq⟩ :=
            registerDriver_disk hb m hq hdelay hdevice
          refine ⟨s', hafter, ?_⟩
          rw [heq, if_neg (hsome _ hdevice)]
          rfl

/-! ## All four -/

/-- A channel without drives on a bus that floats high. -/
def Floats (s : Controller) : Prop :=
  ∃ base, IsChannel base ∧ (s.channels base).isEmpty = true ∧
    s.floating &&& 0x80 ≠ 0

theorem After.isEmpty {s s' : Controller} (h : After s s' s.devices)
    (base : UInt16) :
    (s'.channels base).isEmpty = (s.channels base).isEmpty := by
  have hdevices := congrFun h.devices base
  rw [Controller.devices, Controller.devices] at hdevices
  rw [Channel.isEmpty, Channel.isEmpty, hdevices]

theorem After.driveAt {s s' : Controller} (h : After s s' s.devices)
    (place : UInt16 × DriveType) : s'.driveAt place = s.driveAt place := by
  rw [Controller.driveAt, Controller.driveAt, h.devices]

theorem After.trans {s s₁ s₂ : Controller} (h₁ : After s s₁ s.devices)
    (h₂ : After s₁ s₂ s₁.devices) : After s s₂ s.devices where
  quiet := h₂.quiet
  delay := h₂.delay.trans h₁.delay
  floating := h₂.floating.trans h₁.floating
  devices := h₂.devices.trans h₁.devices

/-- One place after others that have not changed the drives. -/
theorem registerDriver_after {s s₁ : Controller} (hafter : After s s₁ s.devices)
    (hdelay : ∀ n, s.delay n < fuel) (hb : IsChannel base) (type : DriveType)
    (m : DiskManager) :
    ∃ s', After s s' s.devices ∧
      bus.registerDriver fuel m base type s₁ =
        if (s.channels base).isEmpty = true ∧ s.floating &&& 0x80 ≠ 0 then none
        else
          some (⟨m.drives ++ (s.driveAt (base, type)).toList⟩, s') := by
  obtain ⟨s', hafter', heq⟩ := registerDriver_eq hb type m hafter.quiet
    (by rw [hafter.delay]; exact hdelay)
  refine ⟨s', hafter.trans hafter', ?_⟩
  rw [heq, hafter.isEmpty, hafter.floating, hafter.driveAt]

theorem After.refl (hq : s.Quiet) : After s s s.devices :=
  ⟨hq, rfl, rfl, rfl⟩

theorem init_of_floats (hq : s.Quiet) (hdelay : ∀ n, s.delay n < fuel)
    (h : s.Floats) : bus.init fuel s = none := by
  obtain ⟨base, hb, hfloats⟩ := h
  obtain ⟨s₁, h₁, heq₁⟩ := registerDriver_after (After.refl hq) hdelay (.inl rfl)
    .master ⟨[]⟩
  rw [Bus.init, heq₁]
  by_cases hf : (s.channels 0x1F0).isEmpty = true ∧ s.floating &&& 0x80 ≠ 0
  · rw [if_pos hf, Option.bind_none]
  · obtain ⟨s₂, h₂, heq₂⟩ := registerDriver_after h₁ hdelay (.inl rfl) .slave
      ⟨[] ++ (s.driveAt (0x1F0, .master)).toList⟩
    have hbase : base = 0x170 := hb.resolve_left fun h => hf (h ▸ hfloats)
    obtain ⟨s₃, h₃, heq₃⟩ := registerDriver_after h₂ hdelay (.inr rfl) .master
      ⟨([] ++ (s.driveAt (0x1F0, .master)).toList) ++
        (s.driveAt (0x1F0, .slave)).toList⟩
    rw [if_neg hf, Option.bind_some, heq₂, if_neg hf, Option.bind_some, heq₃,
      if_pos (hbase ▸ hfloats), Option.bind_none]

theorem init_of_not_floats (hq : s.Quiet) (hdelay : ∀ n, s.delay n < fuel)
    (h : ¬ s.Floats) :
    ∃ s', After s s' s.devices ∧
      bus.init fuel s = some (⟨probed.filterMap s.driveAt⟩, s') := by
  have hfloats : ∀ base, IsChannel base →
      ¬ ((s.channels base).isEmpty = true ∧ s.floating &&& 0x80 ≠ 0) :=
    fun base hb hf => h ⟨base, hb, hf⟩
  obtain ⟨s₁, h₁, heq₁⟩ := registerDriver_after (After.refl hq) hdelay (.inl rfl)
    .master ⟨[]⟩
  obtain ⟨s₂, h₂, heq₂⟩ := registerDriver_after h₁ hdelay (.inl rfl) .slave
    ⟨[] ++ (s.driveAt (0x1F0, .master)).toList⟩
  obtain ⟨s₃, h₃, heq₃⟩ := registerDriver_after h₂ hdelay (.inr rfl) .master
    ⟨([] ++ (s.driveAt (0x1F0, .master)).toList) ++
      (s.driveAt (0x1F0, .slave)).toList⟩
  obtain ⟨s₄, h₄, heq₄⟩ := registerDriver_after h₃ hdelay (.inr rfl) .slave
    ⟨(([] ++ (s.driveAt (0x1F0, .master)).toList) ++
      (s.driveAt (0x1F0, .slave)).toList) ++
      (s.driveAt (0x170, .master)).toList⟩
  have hdrives : probed.filterMap s.driveAt =
      ((([] ++ (s.driveAt (0x1F0, .master)).toList) ++
        (s.driveAt (0x1F0, .slave)).toList) ++
        (s.driveAt (0x170, .master)).toList) ++
        (s.driveAt (0x170, .slave)).toList := by
    rw [probed, List.filterMap_cons, List.filterMap_cons, List.filterMap_cons,
      List.filterMap_cons, List.filterMap_nil]
    cases s.driveAt (0x1F0, .master) <;> cases s.driveAt (0x1F0, .slave) <;>
      cases s.driveAt (0x170, .master) <;> cases s.driveAt (0x170, .slave) <;>
      rfl
  refine ⟨s₄, h₄, ?_⟩
  rw [Bus.init, heq₁, if_neg (hfloats _ (.inl rfl)), Option.bind_some, heq₂,
    if_neg (hfloats _ (.inl rfl)), Option.bind_some, heq₃,
    if_neg (hfloats _ (.inr rfl)), Option.bind_some, heq₄,
    if_neg (hfloats _ (.inr rfl)), hdrives]

/-- From a quiet controller, whose drives are busy for less than `fuel` reads
of their status: `init` does not come back if and only if a channel without
drives floats high. When it comes back, the table has the disks, in order, with
their numbers of sectors, nothing is under way, and the disks are as before. -/
theorem init_finds (hq : s.Quiet) (hdelay : ∀ n, s.delay n < fuel) :
    (bus.init fuel s = none ↔ s.Floats) ∧
      ∀ m s', bus.init fuel s = some (m, s') →
        m.drives = probed.filterMap s.driveAt ∧ After s s' s.devices := by
  by_cases hfloats : s.Floats
  · have hnone := init_of_floats hq hdelay hfloats
    refine ⟨iff_of_true hnone hfloats, fun m s' h => ?_⟩
    rw [hnone] at h
    cases h
  · obtain ⟨s', hafter, hsome⟩ := init_of_not_floats hq hdelay hfloats
    refine ⟨iff_of_false (by rw [hsome]; simp) hfloats, fun m s₁ h => ?_⟩
    rw [hsome] at h
    cases h
    exact ⟨rfl, hafter⟩

/-- A disk of 4096 sectors, and on the other channel something that takes
packets. -/
def bench : Controller where
  channels base :=
    { device := fun slave =>
        if slave then none
        else if base = 0x1F0 then
          some (.disk (fun _ => Storage.zeroSector)
            fun i => if i = 60 then 4096 else 0)
        else some .packet
      file := ⟨0, 0, 0, 0, 0⟩
      failed := false
      busy := 0
      phase := .idle }
  floating := 0xFF
  delay n := n % 3
  commands := 0

theorem bench_quiet : bench.Quiet := fun _ _ => ⟨rfl, rfl⟩

theorem bench_delay (n : Nat) : bench.delay n < 4 := by
  show n % 3 < 4
  omega

theorem bench_not_floats : ¬ bench.Floats := by
  rintro ⟨base, hb, hempty, -⟩
  rcases hb with rfl | rfl <;> cases hempty

/-- One disk is found. -/
theorem init_finds_bench :
    ∃ s', bus.init 4 bench = some (⟨[⟨0x1F0, .master, true, 4096⟩]⟩, s') := by
  obtain ⟨hnone, hsome⟩ := init_finds bench_quiet bench_delay
  cases hinit : bus.init 4 bench with
  | none => exact absurd (hnone.1 hinit) bench_not_floats
  | some r =>
      obtain ⟨⟨drives⟩, s'⟩ := r
      obtain ⟨hdrives, -⟩ := hsome _ _ hinit
      refine ⟨s', ?_⟩
      rw [show drives = _ from hdrives]
      rfl

end Controller

end TermOS.Ata
