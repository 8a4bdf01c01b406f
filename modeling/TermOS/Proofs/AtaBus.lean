import TermOS.Proofs.Lba28
import TermOS.Ref.AtaBus

/-!
# The driver on a controller

One lemma says what each stage of a transfer does to the channel: the six writes
start a command, polling takes the drive out of its busy time, and the words of
a sector come or go. Between two calls of the driver both channels are quiet,
and then the next six writes are taken. The cache is flushed without waiting
for the write before it, so a drive that is still busy drops that command; the
sector has arrived by then, and the driver waits for the drive all the same.
-/

namespace TermOS.Ata

open TermOS.Lib
open TermOS.Storage (Sector)

/-- The two channels that `init` looks at. -/
def IsChannel (base : UInt16) : Prop := base = 0x1F0 ∨ base = 0x170

theorem register_of_channel {base : UInt16} (hb : IsChannel base) :
    ∀ k ∈ [(0 : UInt16), 2, 3, 4, 5, 6, 7],
      (base + k) &&& 0xFFF8 = base ∧ (base + k) &&& 7 = k := by
  intro k hk
  simp only [List.mem_cons, List.not_mem_nil, or_false] at hk
  rcases hb with rfl | rfl <;>
    rcases hk with rfl | rfl | rfl | rfl | rfl | rfl | rfl <;> exact ⟨rfl, rfl⟩

namespace Controller

variable {s : Controller} {base : UInt16} {c c' : Channel} {fuel : Nat}

@[simp] theorem set_channels (s : Controller) (base : UInt16) (c : Channel) :
    (s.set base c).channels base = c := Function.update_self _ _ _

@[simp] theorem set_set (s : Controller) (base : UInt16) (c c' : Channel) :
    (s.set base c).set base c' = s.set base c' := by
  rw [set, set, set, Function.update_idem]

/-- A channel, and how many commands there have been. -/
def put (s : Controller) (base : UInt16) (c : Channel) (n : Nat) : Controller :=
  { s.set base c with commands := n }

@[simp] theorem put_channels (s : Controller) (base : UInt16) (c : Channel)
    (n : Nat) : (s.put base c n).channels base = c :=
  Function.update_self _ _ _

@[simp] theorem put_put (s : Controller) (base : UInt16) (c c' : Channel)
    (n n' : Nat) : (s.put base c n).put base c' n' = s.put base c' n' := by
  rw [put, put, put, set, set, set, Function.update_idem]

@[simp] theorem put_set (s : Controller) (base : UInt16) (c c' : Channel)
    (n : Nat) : (s.put base c n).set base c' = s.put base c' n := by
  rw [put, put, set, set, set, Function.update_idem]

theorem set_eq_put (s : Controller) (base : UInt16) (c : Channel) :
    s.set base c = s.put base c s.commands := rfl

/-! ## The registers -/

theorem outb_register (hb : IsChannel base) {k : UInt16} {value : UInt8}
    (hk : k ∈ [(2 : UInt16), 3, 4, 5, 6]) (hbusy : (s.channels base).busy = 0) :
    s.outb (base + k) value = s.set base { s.channels base with
      file := (s.channels base).file.put value k.toNat } := by
  obtain ⟨hbase, hreg⟩ := register_of_channel hb k (by
    simp only [List.mem_cons, List.not_mem_nil, or_false] at hk ⊢
    exact .inr (hk.imp_right fun h => h.imp_right fun h => h.imp_right fun h =>
      h.imp_right fun h => .inl h))
  have hne : k ≠ 7 := by
    rintro rfl
    exact absurd hk (by decide)
  rw [outb, hbase, hreg]
  simp only
  rw [if_neg hne, if_pos hbusy]

theorem outb_command (hb : IsChannel base) {value : UInt8}
    (hbusy : (s.channels base).busy = 0)
    (hidle : (s.channels base).phase = .idle) :
    s.outb (base + 7) value = s.put base
      ((s.channels base).execute (s.delay s.commands) value)
      (s.commands + 1) := by
  obtain ⟨hbase, hreg⟩ := register_of_channel hb 7 (by decide)
  rw [outb, hbase, hreg]
  simp only
  rw [if_pos trivial, if_pos hbusy, hidle]
  rfl

theorem outb_busy (hb : IsChannel base) {value : UInt8}
    (hbusy : (s.channels base).busy ≠ 0) : s.outb (base + 7) value = s := by
  obtain ⟨hbase, hreg⟩ := register_of_channel hb 7 (by decide)
  rw [outb, hbase, hreg]
  simp only
  rw [if_pos trivial, if_neg hbusy]

/-- Five registers and a command. -/
theorem writes_command (hb : IsChannel base)
    (hbusy : (s.channels base).busy = 0)
    (hidle : (s.channels base).phase = .idle)
    (head count low mid high command : UInt8) :
    bus.writes s
        [.outb (base + 6) head, .outb (base + 2) count, .outb (base + 3) low,
          .outb (base + 4) mid, .outb (base + 5) high,
          .outb (base + 7) command] =
      s.put base
        ({ s.channels base with
          file := ⟨count, low, mid, high, head⟩ }.execute
            (s.delay s.commands) command)
        (s.commands + 1) := by
  show outb (outb (outb (outb (outb (outb s (base + 6) head) (base + 2) count)
    (base + 3) low) (base + 4) mid) (base + 5) high) (base + 7) command = _
  have hreg := fun (k : UInt16) (value : UInt8)
      (hk : k ∈ [(2 : UInt16), 3, 4, 5, 6]) (file : TaskFile) =>
    @outb_register (s.set base { s.channels base with file := file }) base hb k
      value hk (by rw [set_channels]; exact hbusy)
  simp only [set_set, set_channels] at hreg
  rw [outb_register (k := 6) hb (by decide) hbusy, hreg 2 count (by decide),
    hreg 3 low (by decide), hreg 4 mid (by decide), hreg 5 high (by decide),
    outb_command hb (by rw [set_channels]; exact hbusy)
      (by rw [set_channels]; exact hidle), set_channels, set_eq_put, put_put]
  rfl

/-! ## Polling -/

theorem isEmpty_of_selected (h : c.selected.isSome) : c.isEmpty = false := by
  rw [Channel.selected] at h
  rw [Channel.isEmpty, Bool.and_eq_false_iff, Option.isNone_eq_false_iff,
    Option.isNone_eq_false_iff]
  cases hs : c.slave with
  | false => exact .inl (by rwa [hs] at h)
  | true => exact .inr (by rwa [hs] at h)

theorem status_busy (h : c.selected.isSome) (hbusy : 0 < c.busy) :
    c.status = 0x80 := by
  rw [Channel.status, if_neg (by rw [Option.isNone_eq_false_iff.2 h]; simp),
    if_pos hbusy]

theorem status_ready (h : c.selected.isSome) (hbusy : ¬ 0 < c.busy) :
    c.status = 0x50 ∨ c.status = 0x51 ∨ c.status = 0x58 := by
  rw [Channel.status, if_neg (by rw [Option.isNone_eq_false_iff.2 h]; simp),
    if_neg hbusy]
  cases c.phase with
  | idle =>
      cases c.failed with
      | false => exact .inl rfl
      | true => exact .inr (.inl rfl)
  | receive words => exact .inr (.inr rfl)
  | send lba words => exact .inr (.inr rfl)

/-- A drive that is there is busy or ready. -/
theorem status_bits (h : c.selected.isSome) :
    (c.status &&& 0x80 ≠ 0 ↔ 0 < c.busy) ∧
      (¬ 0 < c.busy → c.status &&& 0x40 ≠ 0) ∧ c.status ≠ 0 := by
  by_cases hbusy : 0 < c.busy
  · rw [status_busy h hbusy]
    exact ⟨iff_of_true (by decide) hbusy, absurd hbusy, by decide⟩
  · rcases status_ready h hbusy with hs | hs | hs <;> rw [hs] <;>
      exact ⟨iff_of_false (by decide) hbusy, fun _ => by decide, by decide⟩

theorem register_status (h : c.selected.isSome) (floating : UInt8) :
    c.register floating 7 = c.status := by
  rw [Channel.register, if_neg (by rw [isEmpty_of_selected h]; simp)]

theorem inb_status (hb : IsChannel base)
    (h : (s.channels base).selected.isSome) :
    s.inb (base + 7) = ((s.channels base).status, s.set base
      { s.channels base with busy := (s.channels base).busy - 1 }) := by
  obtain ⟨hbase, hreg⟩ := register_of_channel hb 7 (by decide)
  rw [inb, hbase, hreg]
  exact Prod.ext (register_status h _) (if_pos ⟨rfl, h⟩)

theorem waitBusy_eq (hb : IsChannel base)
    (h : (s.channels base).selected.isSome)
    (hfuel : (s.channels base).busy < fuel) :
    bus.waitBusy base fuel s =
      some (s.set base { s.channels base with busy := 0 }) := by
  induction fuel generalizing s with
  | zero => exact absurd hfuel (Nat.not_lt_zero _)
  | succ fuel ih =>
      obtain ⟨hbit, -, -⟩ := status_bits h
      rw [Bus.waitBusy]
      show (if (s.inb (base + 7)).1 &&& 0x80 ≠ 0 then
        bus.waitBusy base fuel (s.inb (base + 7)).2
        else some (s.inb (base + 7)).2) = _
      rw [inb_status hb h]
      simp only
      by_cases hbusy : 0 < (s.channels base).busy
      · rw [if_pos (hbit.2 hbusy), ih (by rw [set_channels]; exact h)
          (by rw [set_channels]; show _ - 1 < fuel; omega), set_set,
          set_channels]
      · rw [if_neg (mt hbit.1 hbusy),
          show (s.channels base).busy - 1 = 0 by omega]

theorem ataWaitReady_eq (hb : IsChannel base)
    (h : (s.channels base).selected.isSome)
    (hfuel : (s.channels base).busy < fuel) :
    bus.ataWaitReady base fuel s =
      some (s.set base { s.channels base with busy := 0 }) := by
  rw [Bus.ataWaitReady, waitBusy_eq hb h hfuel, Option.bind_some]
  obtain ⟨fuel, rfl⟩ : ∃ n, fuel = n + 1 := ⟨fuel - 1, by omega⟩
  have h' : ((s.set base { s.channels base with busy := 0 }).channels
      base).selected.isSome := by
    rw [set_channels]
    exact h
  have hready := (status_bits h').2.1 (by rw [set_channels]; simp)
  rw [Bus.waitReady]
  show (if ((s.set base _).inb (base + 7)).1 &&& 0x40 = 0 then
    bus.waitReady base fuel ((s.set base _).inb (base + 7)).2
    else some ((s.set base _).inb (base + 7)).2) = _
  rw [inb_status hb h']
  rw [if_neg hready, set_set, set_channels]
  rfl

/-! ## Words -/

theorem inw_eq (hb : IsChannel base) {w : UInt16} {ws : List UInt16}
    (hbusy : (s.channels base).busy = 0)
    (hphase : (s.channels base).phase = .receive (w :: ws)) :
    s.inw base = (w, s.set base { s.channels base with
      phase := if ws = [] then .idle else .receive ws }) := by
  obtain ⟨hbase, hreg⟩ := register_of_channel hb 0 (by decide)
  rw [UInt16.add_zero] at hbase hreg
  rw [inw, hbase, hreg]
  simp only
  rw [if_pos ⟨trivial, hbusy⟩, hphase]

/-- All words of a transfer are read. -/
theorem inws_eq (hb : IsChannel base) {w : UInt16} {ws : List UInt16}
    (hbusy : (s.channels base).busy = 0)
    (hphase : (s.channels base).phase = .receive (w :: ws)) :
    bus.inws base (ws.length + 1) s =
      (w :: ws, s.set base { s.channels base with phase := .idle }) := by
  induction ws generalizing s w with
  | nil =>
      show (let first := s.inw base
        ([first.1], first.2)) = _
      rw [inw_eq hb hbusy hphase, if_pos rfl]
  | cons w' ws ih =>
      have hrest := @ih (s.set base { s.channels base with
        phase := .receive (w' :: ws) }) w' (by rw [set_channels]; exact hbusy)
        (by rw [set_channels])
      rw [set_set, set_channels] at hrest
      show (let first := s.inw base
        let rest := bus.inws base (ws.length + 1) first.2
        (first.1 :: rest.1, rest.2)) = _
      rw [inw_eq hb hbusy hphase, if_neg (List.cons_ne_nil _ _)]
      simp only
      rw [hrest]

theorem outw_eq (hb : IsChannel base) {lba : Nat} {w : UInt16}
    {ws : List UInt16} (hbusy : (s.channels base).busy = 0)
    (hphase : (s.channels base).phase = .send lba ws) :
    s.outw base w =
      if ws.length + 1 = 256 then
        s.put base { s.channels base with
          device := (s.channels base).stored lba (ws ++ [w])
          busy := s.delay s.commands
          phase := .idle } (s.commands + 1)
      else s.set base { s.channels base with
        phase := .send lba (ws ++ [w]) } := by
  obtain ⟨hbase, hreg⟩ := register_of_channel hb 0 (by decide)
  rw [UInt16.add_zero] at hbase hreg
  rw [outw, hbase, hreg]
  simp only
  rw [if_pos ⟨trivial, hbusy⟩, hphase]
  rfl

/-- The rest of the words of a transfer is written. -/
theorem outws_eq (hb : IsChannel base) {lba : Nat} {w : UInt16}
    {ws before : List UInt16} (hbusy : (s.channels base).busy = 0)
    (hphase : (s.channels base).phase = .send lba before)
    (hlen : before.length + (ws.length + 1) = 256) :
    bus.writes s ((w :: ws).map (.outw base)) =
      s.put base { s.channels base with
        device := (s.channels base).stored lba (before ++ w :: ws)
        busy := s.delay s.commands
        phase := .idle } (s.commands + 1) := by
  induction ws generalizing s w before with
  | nil =>
      show s.outw base w = _
      rw [outw_eq hb hbusy hphase]
      exact if_pos hlen
  | cons w' ws ih =>
      rw [List.length_cons] at hlen
      have hrest := @ih (s.set base { s.channels base with
        phase := .send lba (before ++ [w]) }) w' (before ++ [w])
        (by rw [set_channels]; exact hbusy) (by rw [set_channels])
        (by rw [List.length_append, List.length_singleton]; omega)
      rw [set_channels, set_eq_put, put_put] at hrest
      rw [List.map_cons]
      show bus.writes (s.outw base w) ((w' :: ws).map (.outw base)) = _
      rw [outw_eq hb hbusy hphase, if_neg (by omega), set_eq_put, hrest,
        List.append_assoc]
      rfl

theorem inws_all (hb : IsChannel base) {ws : List UInt16}
    (hlen : ws.length = 256) (hbusy : (s.channels base).busy = 0)
    (hphase : (s.channels base).phase = .receive ws) :
    bus.inws base 256 s =
      (ws, s.set base { s.channels base with phase := .idle }) := by
  obtain ⟨w, ws, rfl⟩ := List.exists_of_length_succ ws hlen
  have h := inws_eq hb hbusy hphase
  rwa [← List.length_cons, hlen] at h

theorem outws_all (hb : IsChannel base) {lba : Nat} {ws : List UInt16}
    (hlen : ws.length = 256) (hbusy : (s.channels base).busy = 0)
    (hphase : (s.channels base).phase = .send lba []) :
    bus.writes s (ws.map (.outw base)) =
      s.put base { s.channels base with
        device := (s.channels base).stored lba ws
        busy := s.delay s.commands
        phase := .idle } (s.commands + 1) := by
  obtain ⟨w, ws, rfl⟩ := List.exists_of_length_succ ws hlen
  rw [List.length_cons] at hlen
  have h := @outws_eq s base hb lba w ws [] hbusy hphase
    (by rw [List.length_nil]; omega)
  rwa [List.nil_append] at h

/-! ## Between two calls -/

/-- No drive is busy and no transfer is under way. -/
def Quiet (s : Controller) : Prop :=
  ∀ base, IsChannel base →
    (s.channels base).busy = 0 ∧ (s.channels base).phase = .idle

def devices (s : Controller) (base : UInt16) : Bool → Option Device :=
  (s.channels base).device

/-- The controller after a call, with these drives. -/
structure After (s s' : Controller) (devices : UInt16 → Bool → Option Device) :
    Prop where
  quiet : s'.Quiet
  delay : s'.delay = s.delay
  floating : s'.floating = s.floating
  devices : s'.devices = devices

theorem Quiet.put (hq : s.Quiet) (base : UInt16) (c : Channel)
    (hbusy : c.busy = 0) (hphase : c.phase = .idle) (n : Nat) :
    After s (s.put base c n) (Function.update s.devices base c.device) where
  quiet base' hb' := by
    by_cases hbase : base' = base
    · rw [hbase, put_channels]
      exact ⟨hbusy, hphase⟩
    · show (Function.update s.channels base c base').busy = 0 ∧
        (Function.update s.channels base c base').phase = .idle
      rw [Function.update_of_ne hbase]
      exact hq base' hb'
  delay := rfl
  floating := rfl
  devices := by
    funext base'
    by_cases hbase : base' = base
    · rw [hbase, Function.update_self, devices, put_channels]
    · rw [Function.update_of_ne hbase]
      show (Function.update s.channels base c base').device = _
      rw [Function.update_of_ne hbase, devices]

/-- The drives are as before. -/
theorem Quiet.put_same (hq : s.Quiet) (base : UInt16) (c : Channel)
    (hbusy : c.busy = 0) (hphase : c.phase = .idle)
    (hdevice : c.device = s.devices base) (n : Nat) :
    After s (s.put base c n) s.devices := by
  have h := hq.put base c hbusy hphase n
  rwa [hdevice, Function.update_eq_self] at h

end Controller

end TermOS.Ata
