import TermOS.Proofs.LineEditing
import TermOS.Proofs.TaskRing
import TermOS.Ref.Startup

/-!
# What the shell is started on

Nothing on the way from `_kmain` to the prompt calls `Tasking::init`, and no
command but `edit` calls into `Tasking` at all. So in whatever state the shell
waits for a line, the scheduler's statics are the ones the kernel was linked
with: `task_list` is null, and the first `edit` dereferences it. Up to then
the loop never gets stuck, because the last entry of the history, or what lies
behind it, always holds a zero for `strcpy` to stop at.
-/

namespace TermOS.Shell

open TermOS.Lib
open TermOS.Console (LineInput newline)
open TermOS.Storage (Str lit)
open TermOS.Tasking (Sched TaskPtr)

/-! ## Strings in memory -/

section Memory

variable {m : Nat → UInt8} {a n : Nat} {s : Str}

/-- There is a zero at or behind an address. -/
def EndsFrom (m : Nat → UInt8) (a : Nat) : Prop := ∃ z, a ≤ z ∧ m z = 0

theorem EndsFrom.of_le {b : Nat} (h : EndsFrom m b) (hab : a ≤ b) :
    EndsFrom m a := by
  obtain ⟨z, hz, hzero⟩ := h
  exact ⟨z, Nat.le_trans hab hz, hzero⟩

theorem stringAt_mono {fuel : Nat} (hle : n ≤ fuel)
    (h : stringAt m n a = some s) : stringAt m fuel a = some s := by
  induction n generalizing a fuel s with
  | zero => cases h
  | succ n ih =>
      obtain ⟨fuel, rfl⟩ : ∃ k, fuel = k + 1 := ⟨fuel - 1, by omega⟩
      rw [stringAt] at h ⊢
      split at h
      · next hzero => rw [if_pos hzero]; exact h
      · next hzero =>
          rw [if_neg hzero]
          obtain ⟨t, ht, rfl⟩ := Option.map_eq_some_iff.1 h
          rw [ih (Nat.le_of_succ_le_succ hle) ht]
          rfl

/-- A string with a zero at or behind its start can be read. -/
theorem EndsFrom.exists_stringAt (h : EndsFrom m a) :
    ∃ fuel s, stringAt m fuel a = some s := by
  obtain ⟨z, hz, hzero⟩ := h
  obtain ⟨n, rfl⟩ := Nat.exists_eq_add_of_le hz
  clear hz
  induction n generalizing a with
  | zero => exact ⟨1, [], if_pos hzero⟩
  | succ n ih =>
      by_cases ha : m a = 0
      · exact ⟨1, [], if_pos ha⟩
      · obtain ⟨fuel, s, hs⟩ := @ih (a + 1) (by
          rw [Nat.add_right_comm]
          exact hzero)
        refine ⟨fuel + 1, m a :: s, ?_⟩
        rw [stringAt, if_neg ha, hs]
        rfl

/-- A copied string ends where it was copied to. -/
theorem EndsFrom.copyString (h : EndsFrom m a) (dest : Nat) (s : Str) :
    EndsFrom (copyString m dest s) a := by
  obtain ⟨z, hz, hzero⟩ := h
  by_cases hin : dest ≤ z ∧ z ≤ dest + s.length
  · refine ⟨dest + s.length, Nat.le_trans hz hin.2, ?_⟩
    rw [Shell.copyString, if_pos ⟨Nat.le_add_right _ _, Nat.le_refl _⟩,
      Nat.add_sub_cancel_left, List.getD_eq_default _ _ (Nat.le_refl _)]
  · refine ⟨z, hz, ?_⟩
    rw [Shell.copyString, if_neg hin]
    exact hzero

end Memory

/-! ## The history -/

namespace History

variable {hist hist' : History} {m m' : Nat → UInt8} {is : List Nat}
  {n fuel : Nat}

/-- The entries there are, and a zero in the last one or behind it. -/
structure Ended (hist : History) : Prop where
  count : hist.count ≤ historySize
  ends : EndsFrom hist.bytes (entrySize * (historySize - 1))

theorem entry_le {i : Nat} (hi : i < historySize) :
    entrySize * i ≤ entrySize * (historySize - 1) :=
  Nat.mul_le_mul_left _ (Nat.le_sub_one_of_lt hi)

theorem shift_mono (hle : n ≤ fuel) (h : shift n is m = some m') :
    shift fuel is m = some m' := by
  induction is generalizing m with
  | nil => exact h
  | cons i is ih =>
      rw [shift] at h ⊢
      split at h
      · cases h
      · next s hs =>
          rw [stringAt_mono hle hs]
          exact ih h

theorem ends_shift {a : Nat} (hm : EndsFrom m a)
    (h : shift fuel is m = some m') : EndsFrom m' a := by
  induction is generalizing m with
  | nil =>
      obtain rfl := Option.some.inj h
      exact hm
  | cons i is ih =>
      rw [shift] at h
      split at h
      · cases h
      · exact ih (hm.copyString _ _) h

theorem exists_shift (hm : EndsFrom m (entrySize * (historySize - 1)))
    (his : ∀ i ∈ is, i + 1 < historySize) :
    ∃ fuel m', shift fuel is m = some m' := by
  induction is generalizing m with
  | nil => exact ⟨0, m, rfl⟩
  | cons i is ih =>
      have hi := entry_le (his i List.mem_cons_self)
      obtain ⟨n, s, hs⟩ := (hm.of_le hi).exists_stringAt
      obtain ⟨k, m', hrest⟩ := ih (hm.copyString (entrySize * i) s)
        fun j hj => his j (List.mem_cons_of_mem _ hj)
      refine ⟨max n k, m', ?_⟩
      rw [shift, stringAt_mono (Nat.le_max_left n k) hs]
      exact shift_mono (Nat.le_max_right n k) hrest

theorem Ended.exists_entry (h : hist.Ended) {i : Nat} (hi : i < hist.count) :
    ∃ fuel s, hist.entry fuel i = some s := by
  have hle := entry_le (Nat.lt_of_lt_of_le hi h.count)
  exact (h.ends.of_le hle).exists_stringAt

theorem Ended.add (h : hist.Ended) {cmd : Str}
    (hadd : hist.add fuel cmd = some hist') : hist'.Ended := by
  rw [History.add] at hadd
  split at hadd
  · obtain rfl := Option.some.inj hadd
    exact h
  · split at hadd
    · split at hadd
      · cases hadd
      · next m hshift =>
          obtain rfl := Option.some.inj hadd
          exact ⟨h.count, (ends_shift h.ends hshift).copyString _ _⟩
    · next hroom =>
        obtain rfl := Option.some.inj hadd
        exact ⟨Nat.lt_of_le_of_ne h.count hroom, h.ends.copyString _ _⟩

theorem Ended.exists_add (h : hist.Ended) (cmd : Str) :
    ∃ fuel hist', hist.add fuel cmd = some hist' := by
  by_cases hnil : cmd = []
  · exact ⟨0, hist, if_pos hnil⟩
  by_cases hfull : hist.count = historySize
  · obtain ⟨fuel, m, hshift⟩ :=
      @exists_shift hist.bytes (List.range (historySize - 1)) h.ends
        fun i hi => Nat.add_lt_of_lt_sub (List.mem_range.1 hi)
    refine ⟨fuel, ?_⟩
    rw [History.add, if_neg hnil, if_pos hfull, hshift]
    exact ⟨_, rfl⟩
  · refine ⟨0, ?_⟩
    rw [History.add, if_neg hnil, if_neg hfull]
    exact ⟨_, rfl⟩

end History

/-! ## What the commands leave alone -/

namespace Kernel

variable {hw : Hardware} {editorMain : UInt64} {k k' l : Kernel}
  {input : Input} {hidden : Hidden} {arg : Option Str} {text : Str}

/-- The scheduler and the history are as they were. -/
structure Keeps (k k' : Kernel) : Prop where
  sched : k'.sched = k.sched
  history : k'.history = k.history

theorem Keeps.refl (k : Kernel) : k.Keeps k := ⟨rfl, rfl⟩

theorem Keeps.trans (h : k.Keeps k') (h' : k'.Keeps l) : k.Keeps l :=
  ⟨h'.sched.trans h.sched, h'.history.trans h.history⟩

theorem keeps_after (k : Kernel) (r : Storage.Fs × Console.Ostream) :
    k.Keeps (k.after r) := ⟨rfl, rfl⟩

theorem keeps_sayLine (k : Kernel) (text : Str) : k.Keeps (k.sayLine text) :=
  keeps_after k _

theorem keeps_withArg {run : Str → Kernel} (usage : String)
    (hrun : ∀ arg, k.Keeps (run arg)) : k.Keeps (k.withArg usage run arg) := by
  cases arg with
  | none => exact keeps_after k _
  | some arg => exact hrun arg

theorem keeps_foldl {α : Type} {f : Kernel → α → Kernel}
    (hf : ∀ (k : Kernel) (a : α), k.Keeps (f k a)) (as : List α) (k : Kernel) :
    k.Keeps (as.foldl f k) := by
  induction as generalizing k with
  | nil => exact Keeps.refl k
  | cons a as ih => exact (hf k a).trans (ih (f k a))

theorem keeps_cmdHelp (k : Kernel) : k.Keeps k.cmdHelp := by
  rw [cmdHelp]
  exact (keeps_sayLine k _).trans
    (keeps_foldl (fun k c => keeps_after k _) cmdTable _)

theorem keeps_historyLines {fuel : Nat} {is : List Nat}
    (h : k.historyLines fuel is = some k') : k.Keeps k' := by
  induction is generalizing k with
  | nil =>
      obtain rfl := Option.some.inj h
      exact Keeps.refl k
  | cons i is ih =>
      rw [historyLines] at h
      split at h
      · cases h
      · exact (keeps_after k _).trans (ih h)

theorem historyLines_mono {n fuel : Nat} {is : List Nat} (hle : n ≤ fuel)
    (h : k.historyLines n is = some k') : k.historyLines fuel is = some k' := by
  induction is generalizing k with
  | nil => exact h
  | cons i is ih =>
      rw [historyLines] at h ⊢
      split at h
      · cases h
      · next text htext =>
          rw [History.entry, stringAt_mono hle htext]
          exact ih h

theorem exists_historyLines {is : List Nat} (hist : k.history.Ended)
    (his : ∀ i ∈ is, i < k.history.count) :
    ∃ fuel k', k.historyLines fuel is = some k' := by
  induction is generalizing k with
  | nil => exact ⟨0, k, rfl⟩
  | cons i is ih =>
      obtain ⟨n, text, htext⟩ :=
        hist.exists_entry (his i List.mem_cons_self)
      obtain ⟨m, k', hrest⟩ := @ih (k.say fun o =>
          (((o.int (Int32.ofNat (i + 1))).str (lit ": ")).str text).endl) hist
        fun j hj => his j (List.mem_cons_of_mem _ hj)
      refine ⟨max n m, k', ?_⟩
      rw [historyLines, History.entry,
        stringAt_mono (Nat.le_max_left n m) htext]
      exact historyLines_mono (Nat.le_max_right n m) hrest

/-- Every command but `edit`. -/
theorem Func.keeps {c : Command} (h : k.Func editorMain hidden arg k' c)
    (hc : c ≠ .edit) : k.Keeps k' := by
  cases c with
  | ls =>
      obtain rfl := h
      exact keeps_after k _
  | cd =>
      obtain rfl := h
      cases arg with
      | none => exact (keeps_after k _).trans (keeps_after _ _)
      | some arg => exact keeps_after k _
  | mkdir =>
      obtain rfl := h
      exact keeps_withArg _ fun arg => keeps_after k _
  | cat =>
      obtain rfl := h
      exact keeps_withArg _ fun arg => keeps_after k _
  | pwd =>
      obtain rfl := h
      exact keeps_sayLine k _
  | clear =>
      obtain rfl := h
      exact ⟨by rw [cmdClear], by rw [cmdClear]⟩
  | help =>
      obtain rfl := h
      exact keeps_cmdHelp k
  | touch =>
      obtain rfl := h
      exact keeps_withArg _ fun arg => keeps_after k _
  | history =>
      obtain ⟨fuel, hlines⟩ := h
      exact keeps_historyLines hlines
  | rm =>
      obtain rfl := h
      exact keeps_withArg _ fun arg => keeps_after k _
  | edit => exact absurd rfl hc

theorem exists_func (hist : k.history.Ended) {c : Command} (hc : c ≠ .edit) :
    ∃ k', k.Func editorMain hidden arg k' c := by
  cases c with
  | history =>
      obtain ⟨fuel, k', hlines⟩ := @exists_historyLines k
        (List.range k.history.count) hist fun i hi => List.mem_range.1 hi
      exact ⟨k', fuel, hlines⟩
  | edit => exact absurd rfl hc
  | _ => exact ⟨_, rfl⟩

theorem readLine_ends {s : LineInput} {reads : List UInt8}
    (h : newline ∈ reads) : (s.readLine reads).2 = true := by
  induction reads generalizing s with
  | nil => cases h
  | cons c reads ih =>
      rw [LineInput.readLine]
      split
      · next hzero =>
          refine ih (List.mem_of_ne_of_mem (fun heq => ?_) h)
          rw [hzero] at heq
          exact absurd heq (by decide)
      · split
        · rfl
        · next hnew => exact ih (List.mem_of_ne_of_mem (Ne.symm hnew) h)

theorem exists_readLine (h : newline ∈ input.reads) :
    ∃ line read, k.prompt.readLine input = some (line, read) := by
  rw [readLine]
  split
  · exact ⟨_, _, rfl⟩
  · next s hread =>
      have hends := @readLine_ends ⟨input.buffer, 0, k.prompt.term⟩ _ h
      rw [hread] at hends
      cases hends

theorem recalled_lt {hist : History} {line : Str} {i : Nat}
    (h : recalled hist line = some i) : i < hist.count := by
  rw [recalled] at h
  split at h
  · next hidx =>
      obtain rfl := Option.some.inj h
      omega
  · cases h

theorem keeps_readLine {line : Str}
    (h : k.prompt.readLine input = some (line, k')) : k.Keeps k' := by
  rw [readLine] at h
  split at h
  · obtain ⟨-, rfl⟩ := Prod.mk.inj (Option.some.inj h)
    have hprompt : k.Keeps k.prompt := keeps_after k _
    exact ⟨hprompt.sched, hprompt.history⟩
  · cases h

theorem Fetch.keeps (h : k.Fetch input text k') : k.Keeps k' := by
  obtain ⟨line, read, hread, ⟨-, -, rfl⟩ | ⟨-, i, fuel, -, -, rfl⟩⟩ := h
  · exact keeps_readLine hread
  · exact (keeps_readLine hread).trans (keeps_sayLine _ _)

theorem Miss.keeps (h : k.Miss input k') : k.Keeps k' := by
  obtain ⟨line, read, hread, -, -, rfl⟩ := h
  exact (keeps_readLine hread).trans (keeps_sayLine _ _)

/-- Only the name of `cmd_edit` finds it in the table. -/
theorem ne_edit_of_find {name : Str} {c : Str × Command × Str}
    (hname : name ≠ lit "edit")
    (hfind : cmdTable.find? (fun c => c.1 == name) = some c) :
    c.2.1 ≠ .edit := by
  have honly : ∀ c ∈ cmdTable, c.2.1 = .edit → c.1 = lit "edit" := by decide
  intro hedit
  have hkey : c.1 = name := by simpa using List.find?_some hfind
  exact hname (hkey ▸ honly c (List.mem_of_find?_eq_some hfind) hedit)

/-! ## The states in which the shell waits for a line -/

/-- The scheduler is as the kernel was linked, and the strings of the history
end. -/
structure Waiting (hw : Hardware) (k : Kernel) : Prop where
  sched : k.sched = .initial hw.taskStacks hw.stackMem
  history : k.history.Ended

theorem Waiting.of_keeps (h : k.Waiting hw) (hkeeps : k.Keeps k') :
    k'.Waiting hw :=
  ⟨hkeeps.sched.trans h.sched, hkeeps.history ▸ h.history⟩

theorem keeps_registerDriver (k : Kernel) (hw : Hardware) (port : UInt16)
    (type : DriveType) : k.Keeps (k.registerDriver hw port type) := by
  rw [registerDriver]
  split
  · exact Keeps.refl k
  · exact ⟨rfl, rfl⟩

theorem keeps_diskMgrInit (k : Kernel) (hw : Hardware) :
    k.Keeps (k.diskMgrInit hw) := by
  rw [diskMgrInit]
  refine (keeps_sayLine k (lit "Scanning ATA buses...")).trans ?_
  refine (keeps_registerDriver _ hw 0x1F0 .ataMaster).trans ?_
  refine (keeps_registerDriver _ hw 0x1F0 .ataSlave).trans ?_
  refine (keeps_registerDriver _ hw 0x170 .ataMaster).trans ?_
  exact keeps_registerDriver _ hw 0x170 .ataSlave

theorem waiting_kmain (hw : Hardware) : (kmain hw).Waiting hw := by
  have hzero : (initial hw).history.bytes 639 = 0 := by
    simp only [initial]
    exact if_pos (by decide)
  have hended : (initial hw).history.Ended :=
    ⟨Nat.zero_le _, 639, by decide, hzero⟩
  rw [kmain]
  refine Waiting.of_keeps ?_ (keeps_after _ _)
  refine Waiting.of_keeps ?_ (keeps_sayLine _ _)
  refine Waiting.of_keeps ?_ (keeps_after _ _)
  refine Waiting.of_keeps ?_ (keeps_diskMgrInit _ hw)
  refine Waiting.of_keeps ?_ (keeps_after _ _)
  refine Waiting.of_keeps ?_ (keeps_sayLine _ _)
  exact ⟨rfl, hended⟩

/-- The scheduler's functions that a command or an interrupt calls find no
task, and `create_task` does not come back. -/
theorem Waiting.step (h : k.Waiting hw) {e : Event}
    (hstep : k.Step editorMain e k') : k'.Waiting hw := by
  cases e with
  | timer rsp =>
      obtain ⟨fuel, s, hsched, rfl⟩ := hstep
      rw [h.sched] at hsched
      have hsame := @Sched.step_initial s hw.taskStacks hw.stackMem
        (.schedule rsp) ⟨fuel, hsched⟩
      exact ⟨hsame, h.history⟩
  | ctrlC =>
      obtain rfl := hstep
      refine ⟨?_, h.history⟩
      show k.sched.killTask k.sched.getForegroundTask = _
      rw [h.sched]
      rfl
  | round input =>
      rcases hstep with ⟨text, fetched, hfetch, fuel, hist, hadd, hrest⟩ | hmiss
      · have hfetched := h.of_keeps hfetch.keeps
        have hadded : Waiting hw { fetched with history := hist } :=
          ⟨hfetched.sched, hfetched.history.add hadd⟩
        split at hrest
        · next c _ =>
            by_cases hedit : c.2.1 = .edit
            · rw [hedit] at hrest
              obtain ⟨t, s, hcreate, -⟩ := hrest
              rw [hadded.sched, Sched.createTask_initial] at hcreate
              cases hcreate
            · exact hadded.of_keeps (hrest.keeps hedit)
        · subst hrest
          split
          · exact hadded
          · exact hadded.of_keeps (keeps_after _ _)
      · exact h.of_keeps hmiss.keeps

theorem waiting_of_run {events : List Event}
    (h : Trace (Step editorMain) (kmain hw) events k) : k.Waiting hw :=
  h.invariant (fun _ _ _ hk hstep => hk.step hstep) (waiting_kmain hw)

end Kernel

/-! ## The first `edit` -/

/-- A task is one of those that `schedule` walks through. -/
def OnRing (s : Sched) (t : TaskPtr) : Prop :=
  ∃ current l, s.currentTask = some current ∧
    Ring s.next current l ∧ t ∈ current :: l

/-- The event makes the shell run `edit`, with the kernel `k` at its call. -/
def RunsEdit (k : Kernel) (e : Event) (k' : Kernel) : Prop :=
  ∃ input text, e = .round input ∧ k.Fetch input text k' ∧
    cmdName text = lit "edit"

/-- Where `edit` is run, `create_task` finds a list of tasks, and the task it
returns is on the ring. -/
def CreatesSafely (editorMain : UInt64) (k : Kernel) (e : Event) : Prop :=
  ∀ k', RunsEdit k e k' → ∃ t s,
    k'.sched.createTask editorMain = some (t, s) ∧ ∀ u, t = some u → OnRing s u

/-- A condition on every event of a session, and on the state of the kernel
before it. -/
def AlongSession (hw : Hardware) (editorMain : UInt64) (events : List Event)
    (Q : Kernel → Event → Prop) : Prop :=
  ∀ pre e post k, events = pre ++ e :: post →
    Trace (Kernel.Step editorMain) (Kernel.kmain hw) pre k → Q k e

namespace Kernel

variable {hw : Hardware} {editorMain : UInt64} {k : Kernel} {e : Event}

theorem Waiting.createsSafely_iff (h : k.Waiting hw) :
    CreatesSafely editorMain k e ↔ ∀ k', ¬ RunsEdit k e k' := by
  refine ⟨?_, ?_⟩
  · intro hsafe k' hedit
    obtain ⟨t, s, hcreate, -⟩ := hsafe k' hedit
    obtain ⟨input, text, -, hfetch, -⟩ := hedit
    rw [(h.of_keeps hfetch.keeps).sched, Sched.createTask_initial] at hcreate
    cases hcreate
  · exact fun hnone k' hedit => absurd hedit (hnone k')

/-- Without an `edit` the shell gets on to its next prompt, once the line has
ended. -/
theorem Waiting.exists_step (h : k.Waiting hw)
    (hedit : ∀ k', ¬ RunsEdit k e k')
    (hends : ∀ input, e = .round input → newline ∈ input.reads) :
    ∃ k', k.Step editorMain e k' := by
  cases e with
  | timer rsp =>
      refine ⟨_, 0, k.sched, ?_, rfl⟩
      rw [h.sched]
      rfl
  | ctrlC => exact ⟨_, rfl⟩
  | round input =>
      have hfetched : ∀ text k', k.Fetch input text k' →
          ∃ l, k'.Execute editorMain input.hidden text l := by
        intro text k' hfetch
        have hwaiting := h.of_keeps hfetch.keeps
        obtain ⟨fuel, hist, hadd⟩ := hwaiting.history.exists_add text
        have hname : cmdName text ≠ lit "edit" :=
          fun hname => hedit k' ⟨input, text, rfl, hfetch, hname⟩
        refine Exists.imp (fun l hl => ⟨fuel, hist, hadd, hl⟩) ?_
        cases hfind : cmdTable.find? fun c => c.1 == cmdName text with
        | none => exact ⟨_, rfl⟩
        | some c =>
            exact exists_func (hwaiting.history.add hadd)
              (ne_edit_of_find hname hfind)
      obtain ⟨line, read, hread⟩ := @exists_readLine k input (hends input rfl)
      cases hrecall : isRecall line with
      | false =>
          have hfetch : k.Fetch input line read :=
            ⟨line, read, hread, .inl ⟨hrecall, rfl, rfl⟩⟩
          obtain ⟨l, hl⟩ := hfetched line read hfetch
          exact ⟨l, .inl ⟨line, read, hfetch, hl⟩⟩
      | true =>
          cases hidx : recalled read.history line with
          | none => exact ⟨_, .inr ⟨line, read, hread, hrecall, hidx, rfl⟩⟩
          | some i =>
              have hwaiting := h.of_keeps (keeps_readLine hread)
              obtain ⟨fuel, text, htext⟩ :=
                hwaiting.history.exists_entry (recalled_lt hidx)
              have hfetch : k.Fetch input text (read.sayLine text) :=
                ⟨line, read, hread,
                  .inr ⟨hrecall, i, fuel, hidx, htext, rfl⟩⟩
              obtain ⟨l, hl⟩ := hfetched text _ hfetch
              exact ⟨l, .inl ⟨text, _, hfetch, hl⟩⟩

end Kernel

/-- A session without `edit` goes on to its end. -/
theorem exists_run {hw : Hardware} {editorMain : UInt64} {events : List Event}
    (hnone : AlongSession hw editorMain events fun k e =>
      ∀ k', ¬ RunsEdit k e k')
    (hends : ∀ input, .round input ∈ events → newline ∈ input.reads) :
    ∃ k, Trace (Kernel.Step editorMain) (Kernel.kmain hw) events k := by
  induction events using List.reverseRecOn with
  | nil => exact ⟨_, .nil _⟩
  | append_singleton events e ih =>
      obtain ⟨k, hrun⟩ := ih
        (fun pre e' post k heq => hnone pre e' (post ++ [e]) k (by simp [heq]))
        fun input hin => hends input (List.mem_append_left _ hin)
      have hlast : e ∈ events ++ [e] :=
        List.mem_append_right _ List.mem_cons_self
      obtain ⟨k', hstep⟩ := (Kernel.waiting_of_run hrun).exists_step
        (hnone events e [] k rfl hrun) fun input he => hends input (he ▸ hlast)
      exact ⟨k', Trace.append_iff.2 ⟨k, hrun, .cons hstep (.nil _)⟩⟩

/-- The kernel starts up and the shell is given a session: `create_task` never
dereferences a null `task_list`, and every task it returns is on the ring, if
and only if no line of the session runs `edit`. -/
theorem createsSafely_along_session_iff (hw : Hardware) (editorMain : UInt64)
    (events : List Event) :
    AlongSession hw editorMain events (CreatesSafely editorMain) ↔
      AlongSession hw editorMain events fun k e => ∀ k', ¬ RunsEdit k e k' := by
  refine ⟨?_, ?_⟩
  · intro hsafe pre e post k heq hrun
    have hwaiting := Kernel.waiting_of_run hrun
    exact hwaiting.createsSafely_iff.1 (hsafe pre e post k heq hrun)
  · intro hnone pre e post k heq hrun
    have hwaiting := Kernel.waiting_of_run hrun
    exact hwaiting.createsSafely_iff.2 (hnone pre e post k heq hrun)

/-- A kernel without disks. -/
def noDisks : Hardware where
  taskStacks := ⟨0x24000, by decide⟩
  stackMem := fun _ => 0
  bitmapMem := fun _ => 0
  behindHistory := fun _ => 0
  term := ⟨fun _ => 0, 0, 0, 0x0F, 0⟩
  identify := fun _ _ => none
  sectors := fun _ _ => Storage.zeroSector

/-- A line that is typed without a pause. -/
def typedLine (line : String) : Input where
  reads := lit line ++ [newline]
  buffer := fun _ => 0
  hidden := ⟨Storage.zeroSector, fun _ => 0, []⟩

/-- Characters that go into the line as they are. -/
def plain (c : UInt8) : Bool :=
  c != 0 && c != newline && c != Console.backspace

theorem readLine_typedLine (k : Kernel) (line : String)
    (h : (lit line).all plain = true) :
    ∃ read, k.prompt.readLine (typedLine line) = some (lit line, read) := by
  have hplain : ∀ c ∈ lit line,
      c ≠ 0 ∧ c ≠ newline ∧ c ≠ Console.backspace := by
    intro c hc
    simpa [plain, and_assoc] using List.all_eq_true.1 h c hc
  obtain ⟨s, hread, hbytes⟩ :=
    LineInput.readLine_plain hplain ⟨fun _ => 0, 0, k.prompt.term⟩
  refine ⟨{ k.prompt with term := s.term }, ?_⟩
  have hread : LineInput.readLine ⟨(typedLine line).buffer, 0, k.prompt.term⟩
      (typedLine line).reads = (s, true) := hread
  rw [Kernel.readLine, hread]
  exact congrArg (fun bytes => some (bytes, _)) hbytes

theorem fetch_edit (k : Kernel) :
    ∃ k', k.Fetch (typedLine "edit") (lit "edit") k' := by
  obtain ⟨read, hread⟩ := readLine_typedLine k "edit" (by decide)
  exact ⟨read, lit "edit", read, hread, .inl ⟨by decide, rfl, rfl⟩⟩

/-- `edit` as the first command. -/
theorem not_createsSafely_edit :
    ¬ AlongSession noDisks 0x8000 [.round (typedLine "edit")]
      (CreatesSafely 0x8000) := by
  intro hsafe
  have hfirst := hsafe [] _ [] (Kernel.kmain noDisks) rfl (.nil _)
  have hwaiting := Kernel.waiting_kmain noDisks
  obtain ⟨k', hfetch⟩ := fetch_edit (Kernel.kmain noDisks)
  exact hwaiting.createsSafely_iff.1 hfirst k'
    ⟨_, lit "edit", rfl, hfetch, by decide⟩

end TermOS.Shell
