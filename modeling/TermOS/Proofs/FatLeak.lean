import TermOS.Proofs.FatPath

/-!
# Which commands lose clusters

A cluster in use belongs to something if it lies on the chain of the root, or
of an entry in reach of it. `rm` marks the entry removed and leaves the FAT as
it is, so whatever the entry named is in use and belongs to nothing: the only
entries that can be removed without a loss name no cluster. `mkdir` marks the
new cluster used before it looks for a free entry, and loses it when there is
none, when the name it writes there begins with `0xE5`, or when the directory
it is given in is itself out of reach. Besides, on a volume whose sectors
coincide, each of the writes may fall on the FAT or on another directory.

A command that does none of this keeps every chain and every entry in reach
that names a cluster, and nothing more is needed of the volume. Where files
share no clusters, on a volume in order, these are exactly the commands that
lose nothing. With cross-linked chains a removed file's clusters may belong to
another one.
-/

namespace TermOS.Storage

open TermOS.Lib

namespace Volume

variable {v : Volume} {g : Shape} {r c x y new : UInt32} {i : Fin 16}
variable {e : DirEntry} {name : Str}

/-- The cluster that follows in a chain: the low 28 bits of the word, unless
they say free, bad or end of chain. -/
def chain (v : Volume) (c : UInt32) (_ : Unit) : Option UInt32 :=
  if 2 ≤ v.fat c &&& 0x0FFFFFFF ∧ v.fat c &&& 0x0FFFFFFF < 0x0FFFFFF7
    then some (v.fat c &&& 0x0FFFFFFF) else none

/-- The first cluster of the root `r` or of an entry in reach of it. -/
def Head (v : Volume) (r c : UInt32) : Prop :=
  c = r ∨ (c ≠ 0 ∧ ∃ x i, Reach v.subdir r x ∧ (v.dir x i).Live ∧
    (v.dir x i).cluster = c)

/-- The cluster belongs to a file or directory in reach. -/
def Owned (v : Volume) (r c : UInt32) : Prop :=
  ∃ head, v.Head r head ∧ Reach v.chain head c

/-- Every cluster that is not free belongs to something. -/
def NoLeak (v : Volume) (r : UInt32) : Prop :=
  ∀ c : UInt32, 2 ≤ c → v.fat c ≠ 0 → v.Owned r c

/-- No two files share a cluster: entries name different clusters, and no
chain leads to one that an entry names, or to a free one. -/
structure Separate (v : Volume) : Prop where
  sole : v.Sole
  named : ∀ x i, v.InReach x → (v.dir x i).Live → (v.dir x i).cluster ≠ 0 →
    2 ≤ (v.dir x i).cluster
  chainUsed : ∀ c y, v.chain c () = some y → v.fat y ≠ 0
  chainInner : ∀ c x i, v.InReach x → (v.dir x i).Live →
    v.chain c () ≠ some (v.dir x i).cluster

theorem chain_ne_zero (h : v.chain c () = some y) : y ≠ 0 := by
  intro heq
  subst heq
  rw [chain] at h
  split at h
  · next hrange =>
      rw [Option.some.inj h] at hrange
      exact absurd hrange.1 (by decide)
  · cases h

theorem chain_congr {v' : Volume} (h : v'.fat = v.fat) :
    v'.chain = v.chain := by
  funext c u
  rw [chain, h, chain]

/-- Neither a free word nor the end of a chain leads on. -/
theorem chain_allocate (p : UInt32) (hfree : v.fat new = 0) :
    (v.allocate new p).chain = v.chain := by
  funext c u
  by_cases hc : c = new
  · subst hc
    simp only [chain, allocate_fat_self, hfree]
    decide
  · simp only [chain, allocate_fat_of_ne hc]

/-! ## What keeps an owner -/

/-- The chains are the same in `v'`, and so are the entries in reach of `r`
that name a cluster. -/
structure Keeps (v v' : Volume) (r : UInt32) : Prop where
  chain : v'.chain = v.chain
  entry : ∀ x i, Reach v.subdir r x → (v.dir x i).Live →
    (v.dir x i).cluster ≠ 0 → v'.dir x i = v.dir x i

/-- Replacing an entry that is removed or names no cluster. -/
theorem Keeps.of_slots {v' : Volume} (hchain : v'.chain = v.chain)
    (hdir : ∀ x, Reach v.subdir r x → v'.dir x = v.dir x ∨
      ∃ i e, v'.dir x = Function.update (v.dir x) i e ∧
        ((v.dir x i).Live → (v.dir x i).cluster = 0)) : v.Keeps v' r := by
  refine ⟨hchain, fun x j hx hlive hzero => ?_⟩
  rcases hdir x hx with heq | ⟨i, e, heq, hslot⟩
  · rw [heq]
  · have hne : j ≠ i := by
      intro hji
      subst hji
      exact hzero (hslot hlive)
    rw [heq, Function.update_of_ne hne]

section Keeps

variable {v' : Volume} (h : v.Keeps v' r)
variable (hnone : ∀ i, ¬ (v.dir 0 i).Live)

include h hnone in
/-- What names no cluster leads nowhere. -/
theorem Keeps.reach (hx : Reach v.subdir r x) (hzero : x ≠ 0) :
    Reach v'.subdir r x := by
  have hany : x = 0 ∨ Reach v'.subdir r x := by
    refine hx.induct (P := fun z => z = 0 ∨ Reach v'.subdir r z)
      (.inr .root) fun z j w hreach ih edge => ?_
    obtain ⟨hlive, hdir, hcl⟩ := subdir_eq_some.1 edge
    by_cases hw : w = 0
    · exact .inl hw
    · have hz : z ≠ 0 := by
        intro heq
        subst heq
        exact hnone j hlive
      have hkeep := h.entry z j hreach hlive (by rwa [hcl])
      refine .inr ((ih.resolve_left hz).step (i := j) ?_)
      rw [subdir, hkeep]
      exact edge
  exact hany.resolve_left hzero

include h hnone in
theorem Keeps.reach_of_live (hx : Reach v.subdir r x)
    (hlive : (v.dir x i).Live) : Reach v'.subdir r x := by
  refine h.reach hnone hx ?_
  intro heq
  subst heq
  exact hnone i hlive

include h hnone in
theorem Keeps.trans {v'' : Volume} (h' : v'.Keeps v'' r) :
    v.Keeps v'' r := by
  refine ⟨h'.chain.trans h.chain, fun x i hx hlive hzero => ?_⟩
  have hkeep := h.entry x i hx hlive hzero
  rw [← hkeep] at hlive hzero ⊢
  exact h'.entry x i (h.reach_of_live hnone hx (hkeep ▸ hlive)) hlive hzero

include h hnone in
theorem Keeps.head (hc : v.Head r c) : v'.Head r c := by
  rcases hc with rfl | ⟨hzero, x, i, hx, hlive, hcl⟩
  · exact .inl rfl
  · refine .inr ⟨hzero, x, i, h.reach_of_live hnone hx hlive, ?_⟩
    rw [h.entry x i hx hlive (by rwa [hcl])]
    exact ⟨hlive, hcl⟩

include h hnone in
theorem Keeps.owned (hc : v.Owned r c) : v'.Owned r c := by
  obtain ⟨head, hh, hreach⟩ := hc
  exact ⟨head, h.head hnone hh, h.chain ▸ hreach⟩

include h hnone in
/-- A cluster that was free needs an entry of its own. -/
theorem Keeps.noLeak (hleak : v.NoLeak r)
    (hused : ∀ c, v'.fat c ≠ 0 → v.fat c ≠ 0 ∨ v'.Head r c) :
    v'.NoLeak r := by
  intro c hc hc'
  rcases hused c hc' with hold | hhead
  · exact h.owned hnone (hleak c hc hold)
  · exact ⟨c, hhead, .root⟩

end Keeps

/-! ## Files that share nothing -/

/-- The command leaves no cluster behind: what `rm` removes names none, and
what `mkdir` takes gets an entry. -/
def Frees (v : Volume) (c new : UInt32) : Op → Prop
  | .cd _ => True
  | .touch _ _ => True
  | .rm filename _ => ∀ i, v.matchSlot c filename = some i →
      (v.dir c i).Live → (v.dir c i).cluster = 0
  | .mkdir name _ => v.lookupSlot c name = none → new ≠ 0 →
      v.freeSlot c ≠ none ∧ name.headD 0 ≠ 0xE5

section Inert

variable (he : ¬ e.Live ∨ (e.isDirectory = false ∧ e.cluster = 0))

include he in
theorem head_of_setSlot (h : (v.setSlot x i e).Head 2 c) : v.Head 2 c := by
  rcases h with rfl | ⟨hzero, z, j, hz, hlive, hcl⟩
  · exact .inl rfl
  · refine .inr ⟨hzero, z, j, inReach_of_setSlot he hz, ?_⟩
    have hkeep := live_of_setSlot he hlive (by rwa [hcl])
    rw [hkeep] at hlive hcl
    exact ⟨hlive, hcl⟩

include he in
theorem Separate.setSlot (h : v.Separate) : (v.setSlot x i e).Separate := by
  constructor
  case sole => exact h.sole.setSlot he
  case named =>
    intro z j hz hlive hzero
    have hkeep := live_of_setSlot he hlive hzero
    rw [hkeep] at hlive hzero ⊢
    exact h.named z j (inReach_of_setSlot he hz) hlive hzero
  case chainUsed => exact h.chainUsed
  case chainInner =>
    intro c z j hz hlive hnext
    have hkeep := live_of_setSlot he hlive (chain_ne_zero hnext)
    rw [hkeep] at hlive hnext
    exact h.chainInner c z j (inReach_of_setSlot he hz) hlive hnext

end Inert

section New

variable (hwf : v.WellFormed g) (hfree : v.fat new = 0)

include hwf hfree in
theorem head_of_allocate {p : UInt32} (h : (v.allocate new p).Head 2 c) :
    v.Head 2 c := by
  rcases h with rfl | ⟨hzero, z, j, hz, hlive, hcl⟩
  · exact .inl rfl
  · have hz' := inReach_of_allocate hz
    rw [allocate_of_ne (ne_new_of_inReach hwf hfree hz')] at hlive hcl
    exact .inr ⟨hzero, z, j, hz', hlive, hcl⟩

include hwf hfree in
theorem Separate.allocate (h : v.Separate) (p : UInt32) :
    (v.allocate new p).Separate := by
  have hkeep : ∀ {z}, (v.allocate new p).InReach z →
      v.InReach z ∧ (v.allocate new p).dir z = v.dir z := by
    intro z hz
    have hz' := inReach_of_allocate hz
    exact ⟨hz', allocate_of_ne (ne_new_of_inReach hwf hfree hz')⟩
  constructor
  case sole => exact h.sole.allocate hwf hfree
  case named =>
    intro z j hz hlive hzero
    obtain ⟨hz', hdir⟩ := hkeep hz
    rw [hdir] at hlive hzero ⊢
    exact h.named z j hz' hlive hzero
  case chainUsed =>
    intro c y hnext
    rw [chain_allocate p hfree] at hnext
    exact allocate_fat_ne_zero p (h.chainUsed c y hnext)
  case chainInner =>
    intro c z j hz hlive
    obtain ⟨hz', hdir⟩ := hkeep hz
    rw [hdir] at hlive ⊢
    rw [chain_allocate p hfree]
    exact h.chainInner c z j hz' hlive

theorem Separate.link (hwf : v.WellFormed g) (hfree : v.fat new = 0)
    (hx : v.InReach x) (he : e.Live ∧ e.isDirectory = true ∧ e.cluster = new)
    (hexist : g.Exists new) (h : v.Separate) : (v.link x i e new).Separate := by
  have hchain : (v.link x i e new).chain = v.chain :=
    chain_allocate (dotdotOf x) hfree
  constructor
  case sole => exact h.sole.link hwf hfree hx he hexist
  case named =>
    intro z j hz hlive hzero
    rcases live_of_link hwf hfree hx he hz hlive with ⟨hz', heq⟩ | ⟨-, -, heq⟩
    · rw [heq] at hlive hzero ⊢
      exact h.named z j hz' hlive hzero
    · rw [heq, he.2.2]
      exact hexist.two_le
  case chainUsed =>
    intro c y hnext
    rw [hchain] at hnext
    exact allocate_fat_ne_zero (dotdotOf x) (h.chainUsed c y hnext)
  case chainInner =>
    intro c z j hz hlive
    rw [hchain]
    rcases live_of_link hwf hfree hx he hz hlive with ⟨hz', heq⟩ | ⟨-, -, heq⟩
    · rw [heq] at hlive ⊢
      exact h.chainInner c z j hz' hlive
    · -- No chain leads to a cluster that was free.
      rw [heq, he.2.2]
      exact fun hnext => h.chainUsed c new hnext hfree

end New

theorem Separate.touch (h : v.Separate) : (v.touch c name).Separate := by
  rw [Volume.touch]
  split
  · exact h
  · exact h.setSlot
      (.inr ⟨newFileEntry_isDirectory _ _, newFileEntry_cluster _ _⟩)

theorem Separate.rm (h : v.Separate) : (v.rm c name).Separate := by
  rw [Volume.rm]
  split
  · exact h
  · exact h.setSlot (.inl (DirEntry.not_live_of_isFree (isFree_removed _)))

theorem Separate.mkdir (hwf : v.WellFormed g) (hc : v.InReach c)
    (hnew : new ≠ 0 → g.Exists new ∧ v.fat new = 0) (h : v.Separate) :
    (v.mkdir c name new).Separate := by
  rcases mkdir_cases v c name new with ⟨-, heq⟩ |
    ⟨-, hzero, ⟨-, heq⟩ | ⟨i, -, heq⟩⟩ <;> rw [heq]
  · exact h
  · exact h.allocate hwf (hnew hzero).2 _
  · obtain ⟨hexist, hfree⟩ := hnew hzero
    by_cases hdead : name.headD 0 = 0xE5
    · exact (h.allocate hwf hfree _).setSlot
        (.inl (DirEntry.not_live_of_isFree ((isFree_newDirEntry _ _ _).2 hdead)))
    · exact h.link hwf hfree hc ⟨live_newDirEntry _ _ _ hdead,
        newDirEntry_isDirectory _ _ _, newDirEntry_cluster _ _ _⟩ hexist

theorem Separate.perform (hwf : v.WellFormed g) (hc : v.InReach c)
    (hnew : new ≠ 0 → g.Exists new ∧ v.fat new = 0) (h : v.Separate) (op : Op) :
    (v.perform c new op).Separate := by
  cases op with
  | cd path => exact h
  | mkdir name uninit => exact h.mkdir hwf hc hnew
  | touch name uninit => exact h.touch
  | rm filename uninit => exact h.rm

/-! ## The losing steps -/

/-- A cluster that is no head and that no chain leads to belongs to nothing. -/
theorem not_owned (hhead : ¬ v.Head r c) (hchain : ∀ z, v.chain z () ≠ some c) :
    ¬ v.Owned r c := by
  intro howned
  obtain ⟨head, hh, n, hn⟩ := howned
  cases hn with
  | root => exact hhead hh
  | step _ edge => exact hchain _ edge

/-- `rm` of a live entry that names a cluster. -/
theorem Separate.rm_leaks (hs : v.Separate) (hwf : v.WellFormed g)
    (hc : v.InReach c) (hi : v.matchSlot c name = some i)
    (hlive : (v.dir c i).Live) (hzero : (v.dir c i).cluster ≠ 0) :
    ¬ (v.rm c name).NoLeak 2 := by
  intro h
  have hdead : ¬ (removed (v.dir c i)).Live :=
    DirEntry.not_live_of_isFree (isFree_removed _)
  have hrm : v.rm c name = v.setSlot c i (removed (v.dir c i)) := by
    rw [Volume.rm, hi]
  rw [hrm] at h
  have howned :
      (v.setSlot c i (removed (v.dir c i))).Owned 2 (v.dir c i).cluster :=
    h _ (hs.named c i hc hlive hzero) (hwf.used c i hc hlive hzero)
  refine not_owned ?_ (fun z => ?_) howned
  · intro hhead
    rcases hhead with heq | ⟨-, z, j, hz, hlive', hcl⟩
    · exact hs.sole.root c i hc hlive heq
    · have hne : ¬ (z = c ∧ j = i) := by
        intro hsame
        obtain ⟨rfl, rfl⟩ := hsame
        rw [setSlot_self] at hlive'
        exact hdead hlive'
      rw [setSlot_of_ne hne] at hlive' hcl
      exact hne (hs.sole.inj z j c i (inReach_of_setSlot (.inl hdead) hz) hc
        hlive' hlive (by rwa [hcl]) hcl)
  · exact hs.chainInner z c i hc hlive

/-- A cluster that was free and is not any more, while the heads are the old
ones. -/
theorem Separate.new_leaks {v' : Volume} (hs : v.Separate)
    (hwf : v.WellFormed g) (hexist : g.Exists new) (hfree : v.fat new = 0)
    (hused : v'.fat new ≠ 0) (hchain : v'.chain = v.chain)
    (hhead : v'.Head 2 new → v.Head 2 new) : ¬ v'.NoLeak 2 := by
  intro h
  refine not_owned (fun hh => ?_) (fun z hnext => ?_)
    (h new hexist.two_le hused)
  · rcases hhead hh with rfl | ⟨-, z, j, hz, hlive, hcl⟩
    · exact hwf.rootUsed hfree
    · exact hwf.cluster_ne_free hexist hfree hz hlive hcl
  · rw [hchain] at hnext
    exact hs.chainUsed z new hnext hfree

theorem Separate.mkdir_leaks (hs : v.Separate) (hwf : v.WellFormed g)
    (hlook : v.lookupSlot c name = none) (hzero : new ≠ 0)
    (hexist : g.Exists new) (hfree : v.fat new = 0)
    (hlost : v.freeSlot c = none ∨ name.headD 0 = 0xE5) :
    ¬ (v.mkdir c name new).NoLeak 2 := by
  have hused : (v.allocate new (dotdotOf c)).fat new ≠ 0 := by
    rw [allocate_fat_self]
    decide
  rcases mkdir_cases v c name new with ⟨hnone, -⟩ |
    ⟨-, -, ⟨-, heq⟩ | ⟨i, hi, heq⟩⟩
  · exact absurd (hnone hlook) hzero
  · rw [heq]
    exact hs.new_leaks hwf hexist hfree hused (chain_allocate _ hfree)
      fun hh => head_of_allocate hwf hfree hh
  · have hdead : name.headD 0 = 0xE5 :=
      hlost.resolve_left fun hnone => by
        rw [hi] at hnone
        cases hnone
    rw [heq]
    refine hs.new_leaks hwf hexist hfree hused (chain_allocate (dotdotOf c) hfree)
      fun hh => head_of_allocate hwf hfree (head_of_setSlot (.inl ?_) hh)
    exact DirEntry.not_live_of_isFree ((isFree_newDirEntry _ _ _).2 hdead)

/-- Where files share nothing, a command that loses no cluster is one of
those. -/
theorem Separate.frees (hs : v.Separate) (hwf : v.WellFormed g)
    (hc : v.InReach c) (hnew : new ≠ 0 → g.Exists new ∧ v.fat new = 0) {op : Op}
    (h : (v.perform c new op).NoLeak 2) : v.Frees c new op := by
  cases op with
  | cd path => trivial
  | touch name uninit => trivial
  | rm filename uninit =>
      intro i hi hlive
      by_contra hzero
      exact hs.rm_leaks hwf hc hi hlive hzero h
  | mkdir name uninit =>
      intro hlook hzero
      obtain ⟨hexist, hfree⟩ := hnew hzero
      refine ⟨fun hnone => ?_, fun hdead => ?_⟩
      · exact hs.mkdir_leaks hwf hlook hzero hexist hfree (.inl hnone) h
      · exact hs.mkdir_leaks hwf hlook hzero hexist hfree (.inr hdead) h

end Volume

/-! ## One sector of the volume

Here nothing is known of where the FAT and the directories are. -/

namespace Fs

variable {fs fs' : Fs} {g : Shape} {r c lba : UInt32} {s : Sector} {op : Op}

/-- No word of the FAT is in the sector. -/
def OffFat (fs : Fs) (g : Shape) (lba : UInt32) : Prop :=
  ∀ c, g.InFat c → fs.fatSector c ≠ lba

/-- No directory in reach of `r` has its entries in the sector. -/
def OffTree (fs : Fs) (g : Shape) (r lba : UInt32) : Prop :=
  ∀ c, Reach (fs.volume g).subdir r c → g.Exists c →
    fs.getSectorByCluster c ≠ lba

theorem volume_put_fat (h : fs.OffFat g lba) :
    ((fs.put lba s).volume g).fat = (fs.volume g).fat := by
  funext c
  by_cases hc : g.InFat c
  · have hne := h c hc
    simp only [fatSector] at hne
    simp [volume, put, fatSector, hc, hne]
  · simp [volume, hc]

theorem volume_put_dir (h : fs.getSectorByCluster c ≠ lba) :
    ((fs.put lba s).volume g).dir c = (fs.volume g).dir c := by
  by_cases hc : g.Exists c
  · simp only [getSectorByCluster] at h
    simp [volume, put, getSectorByCluster, hc, h]
  · simp [volume, hc]

theorem volume_put_dir_self (hc : g.Exists c)
    (h : fs.getSectorByCluster c = lba) :
    ((fs.put lba s).volume g).dir c = dirEntry s := by
  simp only [getSectorByCluster] at h
  simp [volume, put, getSectorByCluster, hc, h]

theorem not_live_volume_zero (fs : Fs) (g : Shape) (i : Fin 16) :
    ¬ ((fs.volume g).dir 0 i).Live := by
  have hnot : ¬ g.Exists 0 := fun h => h.ne_zero rfl
  simp only [volume, if_neg hnot]
  exact DirEntry.not_live_of_isFree (dirEntry_zeroSector i)

/-- Words are told apart by sector and offset, whether or not the sectors
wrap. -/
theorem eq_of_fatSector (h : fs.fatSector c = fs.fatSector lba)
    (ho : fatOffset c = fatOffset lba) : c = lba := by
  have hdiv : c / 128 = lba / 128 := (UInt32.add_right_inj _).1 h
  have hnat := congrArg UInt32.toNat hdiv
  have hoff := congrArg Fin.val ho
  rw [UInt32.toNat_div, UInt32.toNat_div] at hnat
  simp only [fatOffset, UInt32.reduceToNat] at hnat hoff
  exact UInt32.toNat_inj.1 (by omega)

/-- A word of the FAT is replaced. -/
theorem volume_put_word (c value d : UInt32) :
    ((fs.put (fs.fatSector c) (setFatWord (fs.diskMgr.sectors 1
        (fs.fatSector c)) (fatOffset c) value)).volume g).fat d =
      if g.InFat d ∧ d = c then value else (fs.volume g).fat d := by
  by_cases hd : g.InFat d
  · by_cases hdc : d = c
    · subst hdc
      simp [volume, put, fatSector, hd]
    · by_cases hsec : fs.fatSector d = fs.fatSector c
      · have hword := fatWord_setFatWord_of_ne
          (fs.diskMgr.sectors 1 (fs.fatSector c))
          (fun ho => hdc (eq_of_fatSector hsec ho)) value
        simp only [fatSector] at hsec hword
        simp [volume, put, fatSector, hd, hdc, hsec, hword]
      · simp only [fatSector] at hsec
        simp [volume, put, fatSector, hd, hdc, hsec]
  · simp [volume, hd]

/-! ## Commands that lose nothing -/

/-- The next command leaves no cluster behind: `touch` and `rm` write to no
sector of the FAT, what `rm` removes names no cluster, and what `mkdir` takes
gets an entry in a directory in reach of the root `r` and is not written over
another. -/
def Frees (fs : Fs) (g : Shape) (r : UInt32) : Op → Prop
  | .cd _ => True
  | .touch _ _ => fs.Ready → fs.freeSlot ≠ none →
      fs.OffFat g (fs.getSectorByCluster fs.currentDirCluster)
  | .rm filename _ => fs.Ready → ∀ i, (firstSlot fun i =>
        fatNameMatch filename (dirEntry fs.currentSector i).name) = some i →
      fs.OffFat g (fs.getSectorByCluster fs.currentDirCluster) ∧
        ((dirEntry fs.currentSector i).Live →
          (dirEntry fs.currentSector i).cluster = 0)
  | .mkdir name _ => fs.Takes name →
      (fs.freeSlot ≠ none ∧ name.headD 0 ≠ 0xE5) ∧
      (Reach (fs.volume g).subdir r fs.currentDirCluster ∧
        g.Exists fs.currentDirCluster) ∧
      fs.OffFat g (fs.getSectorByCluster fs.currentDirCluster) ∧
      fs.OffTree g r (fs.fatSector fs.findFreeCluster) ∧
      fs.OffFat g (fs.getSectorByCluster fs.findFreeCluster) ∧
      fs.OffTree g r (fs.getSectorByCluster fs.findFreeCluster)

/-- A slot of the current directory is replaced, and of every directory that
shares its sector. -/
theorem volume_put_current (i : Fin 16) (e : DirEntry) (x : UInt32) :
    ((fs.put (fs.getSectorByCluster fs.currentDirCluster)
        (setDirEntry fs.currentSector i e)).volume g).dir x =
        (fs.volume g).dir x ∨
      ((fs.volume g).dir x = dirEntry fs.currentSector ∧
        ((fs.put (fs.getSectorByCluster fs.currentDirCluster)
          (setDirEntry fs.currentSector i e)).volume g).dir x =
          Function.update ((fs.volume g).dir x) i e) := by
  by_cases hx : g.Exists x
  · by_cases hsec : fs.getSectorByCluster x =
        fs.getSectorByCluster fs.currentDirCluster
    · have hold : (fs.volume g).dir x = dirEntry fs.currentSector := by
        simp only [volume, if_pos hx, hsec]
        rfl
      refine .inr ⟨hold, ?_⟩
      rw [volume_put_dir_self hx hsec, dirEntry_setDirEntry, hold]
    · exact .inl (volume_put_dir hsec)
  · refine .inl ?_
    simp only [volume, if_neg hx]

theorem keeps_put (hoff : fs.OffFat g
      (fs.getSectorByCluster fs.currentDirCluster)) {i : Fin 16} (e : DirEntry)
    (hslot : (dirEntry fs.currentSector i).Live →
      (dirEntry fs.currentSector i).cluster = 0) :
    (fs.volume g).Keeps ((fs.put (fs.getSectorByCluster fs.currentDirCluster)
      (setDirEntry fs.currentSector i e)).volume g) r := by
  refine .of_slots ?_ fun x _ => ?_
  · exact Volume.chain_congr (volume_put_fat hoff)
  · rcases volume_put_current i e x with heq | ⟨hold, heq⟩
    · exact .inl heq
    · refine .inr ⟨i, e, heq, ?_⟩
      rw [hold]
      exact hslot

theorem noLeak_put (hleak : (fs.volume g).NoLeak r)
    (hoff : fs.OffFat g (fs.getSectorByCluster fs.currentDirCluster))
    {i : Fin 16} (e : DirEntry) (hslot : (dirEntry fs.currentSector i).Live →
      (dirEntry fs.currentSector i).cluster = 0) :
    ((fs.put (fs.getSectorByCluster fs.currentDirCluster)
      (setDirEntry fs.currentSector i e)).volume g).NoLeak r := by
  refine (keeps_put hoff e hslot).noLeak (not_live_volume_zero fs g) hleak
    fun c hc => .inl ?_
  rwa [volume_put_fat hoff] at hc

theorem noLeak_touch {name : Str} {uninit : Sector}
    (hleak : (fs.volume g).NoLeak r)
    (hfrees : fs.Frees g r (.touch name uninit)) :
    ((fs.touch name uninit).volume g).NoLeak r := by
  by_cases hready : fs.Ready
  · simp only [touch, read_ready hready, write_ready hready, Option.getD_some]
    split
    · exact hleak
    · next i hi =>
        have hsome : fs.freeSlot ≠ none := by
          rw [freeSlot, currentSector, hi]
          exact Option.some_ne_none i
        have hoff := hfrees hready hsome
        have hfree := firstSlot_some hi
        exact noLeak_put hleak hoff _
          fun hlive => absurd hlive (DirEntry.not_live_of_isFree hfree)
  · simp only [touch, write_not_ready hready]
    split <;> exact hleak

theorem noLeak_rm {filename : Str} {uninit : Sector}
    (hleak : (fs.volume g).NoLeak r)
    (hfrees : fs.Frees g r (.rm filename uninit)) :
    ((fs.rm filename uninit).volume g).NoLeak r := by
  by_cases hready : fs.Ready
  · simp only [rm, read_ready hready, write_ready hready, Option.getD_some]
    split
    · exact hleak
    · next i hi =>
        obtain ⟨hoff, hslot⟩ := hfrees hready i hi
        exact noLeak_put hleak hoff _ hslot
  · simp only [rm, write_not_ready hready]
    split <;> exact hleak

/-- The FAT and the directories in reach after the first two writes of
`mkdir`. -/
theorem volume_made {name : Str} (htakes : fs.Takes name)
    (hfat : fs.OffTree g r (fs.fatSector fs.findFreeCluster))
    (hnew : fs.OffFat g (fs.getSectorByCluster fs.findFreeCluster))
    (htree : fs.OffTree g r (fs.getSectorByCluster fs.findFreeCluster))
    (uninit : Sector) :
    (∀ d, ((fs.made uninit).volume g).fat d =
        if g.InFat d ∧ d = fs.findFreeCluster then 0x0FFFFFFF
          else (fs.volume g).fat d) ∧
      ∀ x, Reach (fs.volume g).subdir r x →
        ((fs.made uninit).volume g).dir x = (fs.volume g).dir x := by
  have hword : ∀ w, (fs.put (fs.fatSector fs.findFreeCluster) w).OffFat g
        (fs.getSectorByCluster fs.findFreeCluster) ∧
      ∀ {x}, fs.getSectorByCluster x ≠
          fs.getSectorByCluster fs.findFreeCluster →
        (fs.put (fs.fatSector fs.findFreeCluster) w).getSectorByCluster x ≠
          fs.getSectorByCluster fs.findFreeCluster :=
    fun _ => ⟨hnew, id⟩
  rw [made, updateFat_ready htakes.1]
  refine ⟨fun d => ?_, fun x hx => ?_⟩
  · rw [volume_put_fat (hword _).1, volume_put_word]
  · by_cases hexist : g.Exists x
    · rw [volume_put_dir ((hword _).2 (htree x hx hexist)),
        volume_put_dir (hfat x hx hexist)]
    · simp only [volume, if_neg hexist]

/-- What `mkdir` takes was free, and no chain leads on from there. -/
theorem keeps_made {name : Str} (htakes : fs.Takes name)
    (hfat : fs.OffTree g r (fs.fatSector fs.findFreeCluster))
    (hnew : fs.OffFat g (fs.getSectorByCluster fs.findFreeCluster))
    (htree : fs.OffTree g r (fs.getSectorByCluster fs.findFreeCluster))
    (uninit : Sector) :
    (fs.volume g).Keeps ((fs.made uninit).volume g) r := by
  obtain ⟨hword, hdir⟩ := volume_made htakes hfat hnew htree uninit
  refine .of_slots ?_ fun x hx => .inl (hdir x hx)
  by_cases hin : g.InFat fs.findFreeCluster
  · have hfree : (fs.volume g).fat fs.findFreeCluster = 0 := by
      simp only [volume, if_pos hin]
      exact (findFreeCluster_free htakes.2.2).2.2.2
    rw [← Volume.chain_allocate 0 hfree]
    refine Volume.chain_congr (funext fun d => ?_)
    rw [hword]
    by_cases hd : d = fs.findFreeCluster
    · rw [hd, if_pos ⟨hin, rfl⟩, Volume.allocate_fat_self]
    · rw [if_neg fun h => hd h.2, Volume.allocate_fat_of_ne hd]
  · refine Volume.chain_congr (funext fun d => ?_)
    rw [hword, if_neg]
    rintro ⟨hd, rfl⟩
    exact hin hd

/-- The current directory is as it was when its slot is filled. -/
theorem currentSector_made (hready : fs.Ready)
    (hfat : fs.getSectorByCluster fs.currentDirCluster ≠
      fs.fatSector fs.findFreeCluster)
    (hnew : fs.getSectorByCluster fs.currentDirCluster ≠
      fs.getSectorByCluster fs.findFreeCluster) (uninit : Sector) :
    (fs.made uninit).currentSector = fs.currentSector := by
  have hplace : fs.SamePlace (fs.made uninit) :=
    (samePlace_updateFat uninit _ _).trans samePlace_put
  rw [currentSector, hplace.sector, hplace.cluster, made, updateFat_ready hready]
  simp only [put, Function.update_self, Function.update_of_ne hfat,
    Function.update_of_ne hnew]
  rfl

theorem noLeak_mkdir {name : Str} {uninit : Sector}
    (hleak : (fs.volume g).NoLeak r)
    (hfrees : fs.Frees g r (.mkdir name uninit)) :
    ((fs.mkdir name uninit).volume g).NoLeak r := by
  rcases mkdir_outcomes fs name uninit with ⟨-, m, heq⟩ | ⟨htakes, hrest⟩
  · rw [heq]
    exact hleak
  · obtain ⟨⟨hslot, hname⟩, ⟨hreach, hexist⟩, hcurrent, hfat, hnew, htree⟩ :=
      hfrees htakes
    rcases hrest with ⟨hnone, -⟩ | ⟨i, hi, heq⟩
    · exact absurd hnone hslot
    · have hfree := firstSlot_some hi
      have hplace : fs.SamePlace (fs.made uninit) :=
        (samePlace_updateFat uninit _ _).trans samePlace_put
      have hsector : (fs.made uninit).currentSector = fs.currentSector :=
        currentSector_made htakes.1 (hfat _ hreach hexist)
          (htree _ hreach hexist) uninit
      have hmade := keeps_made htakes hfat hnew htree uninit
      obtain ⟨hword, -⟩ := volume_made htakes hfat hnew htree uninit
      have hoff : (fs.made uninit).OffFat g ((fs.made uninit).getSectorByCluster
          (fs.made uninit).currentDirCluster) := by
        intro c hc
        rw [fatSector, hplace.fatStart, hplace.sector, hplace.cluster]
        exact hcurrent c hc
      rw [heq]
      have hentry : (newDirEntry (dirEntry fs.currentSector i) name
            fs.findFreeCluster).Live ∧
          (newDirEntry (dirEntry fs.currentSector i) name
            fs.findFreeCluster).cluster = fs.findFreeCluster :=
        ⟨live_newDirEntry _ _ _ hname, newDirEntry_cluster _ _ _⟩
      generalize newDirEntry (dirEntry fs.currentSector i) name
        fs.findFreeCluster = e at *
      rw [← hplace.sector, ← hplace.cluster, ← hsector]
      rw [← hsector] at hfree
      have hput := keeps_put (r := r) hoff e fun hlive =>
        absurd hlive (DirEntry.not_live_of_isFree hfree)
      have hnone : ∀ j, ¬ ((fs.volume g).dir 0 j).Live :=
        not_live_volume_zero fs g
      have hkeeps := hmade.trans hnone hput
      refine hkeeps.noLeak hnone hleak fun c hc => ?_
      rw [volume_put_fat hoff, hword] at hc
      split at hc
      · next htaken =>
          -- The new cluster is what the new entry names.
          rw [htaken.2]
          refine .inr (.inr ⟨htakes.2.2, fs.currentDirCluster, i,
            hkeeps.reach hnone hreach hexist.ne_zero, ?_⟩)
          rw [volume_put_dir_self hexist (by rw [hplace.cluster]),
            dirEntry_setDirEntry_self]
          exact hentry
      · exact .inl hc

theorem noLeak_step (hleak : (fs.volume g).NoLeak r) (hstep : fs.Step op fs')
    (hfrees : fs.Frees g r op) : (fs'.volume g).NoLeak r := by
  obtain rfl : fs' = fs.perform op := hstep
  cases op with
  | cd path =>
      rw [perform, volume_cd]
      exact hleak
  | touch name uninit =>
      rw [perform]
      exact noLeak_touch hleak hfrees
  | rm filename uninit =>
      rw [perform]
      exact noLeak_rm hleak hfrees
  | mkdir name uninit =>
      rw [perform]
      exact noLeak_mkdir hleak hfrees

/-! ## On a volume in order -/

theorem Sound.volume_frees (h : fs.Sound g) (hs : (fs.volume g).Separate)
    (hstep : fs.Step op fs') (hleak : (fs'.volume g).NoLeak 2) :
    fs.Ready → (fs.volume g).Frees fs.currentDirCluster fs.findFreeCluster op := by
  obtain rfl : fs' = fs.perform op := hstep
  intro hready
  rw [h.volume_perform hready op] at hleak
  exact hs.frees h.tree h.current (newCluster_spec h.geometry) hleak

/-- The FAT, the directories in reach and the free clusters are apart. -/
theorem Sound.frees (h : fs.Sound g)
    (hfrees : fs.Ready →
      (fs.volume g).Frees fs.currentDirCluster fs.findFreeCluster op) :
    fs.Frees g 2 op := by
  have hoff : ∀ {c}, g.Exists c → fs.OffFat g (fs.getSectorByCluster c) :=
    fun hc _ hin => h.geometry.fatSector_ne_sector hin hc
  have hentry : ∀ i, dirEntry fs.currentSector i =
      (fs.volume g).dir fs.currentDirCluster i :=
    fun i => congrFun (dirEntry_current h.exists) i
  cases op with
  | cd path => trivial
  | touch name uninit => exact fun _ _ => hoff h.exists
  | rm filename uninit =>
      intro hready i hi
      refine ⟨hoff h.exists, ?_⟩
      simp only [hentry] at hi ⊢
      exact hfrees hready i hi
  | mkdir name uninit =>
      intro htakes
      obtain ⟨hready, hfind, hzero⟩ := htakes
      obtain ⟨hexist, hin, hfree⟩ := findFreeCluster_spec h.geometry hzero
      rw [findFile_eq hready h.exists, Volume.lookup,
        Option.map_eq_none_iff] at hfind
      obtain ⟨hslot, hname⟩ := hfrees hready hfind hzero
      have hfreeSlot : fs.freeSlot =
          (fs.volume g).freeSlot fs.currentDirCluster := by
        simp only [freeSlot, Volume.freeSlot, hentry]
      refine ⟨⟨hfreeSlot ▸ hslot, hname⟩, ⟨h.current, h.exists⟩,
        hoff h.exists, ?_, hoff hexist, ?_⟩
      · exact fun c _ hc heq => h.geometry.fatSector_ne_sector hin hc heq.symm
      · intro c hc hexist' heq
        obtain rfl := h.geometry.sector_inj hexist' hexist heq
        exact h.tree.not_inReach hfree hc

theorem Sound.separate (h : fs.Sound g) (hs : (fs.volume g).Separate)
    (hstep : fs.Step op fs') : (fs'.volume g).Separate :=
  h.keeps hstep hs
    (hs.perform h.tree h.current (newCluster_spec h.geometry) op)

end Fs

/-! ## Runs -/

theorem noLeak_formatted : (formatted.volume ⟨12798, 100⟩).NoLeak 2 := by
  intro c _ hused
  rw [formatted_fat] at hused
  by_cases hc : c = 2
  · exact ⟨2, .inl rfl, hc ▸ .root⟩
  · rw [if_neg hc] at hused
    exact absurd rfl hused

theorem separate_formatted : (formatted.volume ⟨12798, 100⟩).Separate := by
  have hdead : ∀ c i, ¬ ((formatted.volume ⟨12798, 100⟩).dir c i).Live :=
    fun c i => DirEntry.not_live_of_isFree (formatted_dir c i)
  have hchain : ∀ c y, (formatted.volume ⟨12798, 100⟩).chain c () ≠ some y := by
    intro c y
    rw [Volume.chain, formatted_fat]
    split <;> simp
  constructor
  case sole => exact (Volume.treeFacts_iff.1 treeFacts_formatted).2
  case named => exact fun x i _ hlive => absurd hlive (hdead x i)
  case chainUsed => exact fun c y hnext => absurd hnext (hchain c y)
  case chainInner => exact fun c x i _ _ => hchain c _

/-- A run whose commands leave no cluster behind loses none at any time,
whatever the volume and wherever its root is. On a volume in order on which no
two files share a cluster these runs are the only ones. -/
theorem noLeak_along_run {fs fs' : Fs} {g : Shape} {r : UInt32} {ops : List Op}
    (hleak : (fs.volume g).NoLeak r) :
    (Trace (Trace.Along Fs.Step fun fs op _ => fs.Frees g r op) fs ops fs' →
      Trace (Trace.Along Fs.Step fun _ _ fs' => (fs'.volume g).NoLeak r)
        fs ops fs') ∧
    (fs.Sound g → (fs.volume g).Separate → r = 2 →
      Trace (Trace.Along Fs.Step fun _ _ fs' => (fs'.volume g).NoLeak r)
        fs ops fs' →
      Trace (Trace.Along Fs.Step fun fs op _ => fs.Frees g r op) fs ops fs') := by
  refine ⟨?_, ?_⟩
  · refine Trace.along_mono (I := fun fs : Fs => (fs.volume g).NoLeak r) ?_ hleak
    intro fs op fs' hleak hstep hfrees
    have hleak' := Fs.noLeak_step hleak hstep hfrees
    exact ⟨hleak', hleak'⟩
  · rintro h hs rfl
    refine Trace.along_mono
      (I := fun fs : Fs => fs.Sound g ∧ (fs.volume g).Separate) ?_ ⟨h, hs⟩
    rintro fs op fs' ⟨hsound, hs⟩ hstep hleak'
    exact ⟨hsound.frees (hsound.volume_frees hs hstep hleak'),
      hsound.step hstep, hsound.separate hs hstep⟩

theorem noLeak_along_run_formatted :
    Trace (Trace.Along Fs.Step fun _ _ fs' =>
        (fs'.volume ⟨12798, 100⟩).NoLeak 2) formatted
      [.mkdir (lit "a") zeroSector] (formatted.mkdir (lit "a") zeroSector) := by
  have hfrees : formatted.Frees ⟨12798, 100⟩ 2 (.mkdir (lit "a") zeroSector) := by
    refine sound_formatted.frees fun _ _ _ => ⟨fun hnone => ?_, by decide⟩
    exact firstSlot_none hnone 0 (formatted_dir _ 0)
  exact (noLeak_along_run noLeak_formatted).1 (.cons ⟨rfl, hfrees⟩ (.nil _))

/-- The cluster of a directory that is made and removed again is lost. -/
theorem noLeak_mkdir_rm :
    (formatted.volume ⟨12798, 100⟩).NoLeak 2 ∧
      ¬ (((formatted.mkdir (lit "a") zeroSector).rm (lit "a")
        zeroSector).volume ⟨12798, 100⟩).NoLeak 2 := by
  refine ⟨noLeak_formatted, fun hleak => ?_⟩
  obtain ⟨hlocated, hroot, e, hfind, hdir⟩ := mkdir_formatted
  obtain ⟨hready, -⟩ := hlocated.sound.child hfind hdir
  obtain ⟨hfound, hlink⟩ := volume_mkdir_formatted
  have hs := sound_formatted.separate separate_formatted
    (rfl : formatted.Step (.mkdir (lit "a") zeroSector) _)
  -- The entry of `a` is the first one.
  have hentry : ((formatted.mkdir (lit "a") zeroSector).volume
      ⟨12798, 100⟩).dir 2 0 =
        newDirEntry ((formatted.volume ⟨12798, 100⟩).dir 2 0) (lit "a")
          formatted.findFreeCluster := by
    rw [hlink, Volume.link, Volume.setSlot_self]
  have hmatch : ((formatted.mkdir (lit "a") zeroSector).volume
      ⟨12798, 100⟩).matchSlot 2 (lit "a") = some 0 := by
    refine firstSlot_zero ?_
    rw [hentry]
    exact (by decide : fatNameMatch (lit "a") (fatName (lit "a")) = true)
  have hfrees := hlocated.sound.volume_frees hs
    (rfl : Fs.Step _ (.rm (lit "a") zeroSector) _) hleak hready
  rw [hroot] at hfrees
  have hzero := hfrees 0 hmatch
  rw [hentry, newDirEntry_cluster] at hzero
  exact hfound (hzero (live_newDirEntry _ _ _ (by decide)))

end TermOS.Storage
