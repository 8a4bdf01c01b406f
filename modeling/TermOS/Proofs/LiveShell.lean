import TermOS.Proofs.KeyInput
import TermOS.Proofs.Startup
import TermOS.Ref.LiveShell

/-!
# What is typed is what is executed

The shell of `Kernel.Step` is given its lines. Here it has to come by them: the
keys go into the ring one interrupt at a time, and the reader, the echo and the
commands run in between. Whatever the interleaving, the lines that the commands
get are those that the keys spell, in their order, each of them whole. Nothing
that a command does but what it shows depends on what the screen shows, so
scrolling back, which rewrites the screen between any two characters, comes to
nothing.
-/

namespace TermOS.Shell

open TermOS.Lib
open TermOS.Console (Ostream KeyInput LineInput Kbd View HoldsQueue newline typed)
open TermOS.Storage (Fs Str lit)
open TermOS.Tasking (Sched)

/-! ## Commands do not look at the screen -/

namespace Kernel

variable {k k' l : Kernel} {editorMain : UInt64} {hidden : Hidden}
  {arg : Option Str} {text line : Str}

/-- The same kernel behind another screen. -/
def Like (k l : Kernel) : Prop := ∃ t, l = { k with term := t }

theorem Like.refl (k : Kernel) : k.Like k := ⟨k.term, rfl⟩

theorem Like.after (h : k.Like l) (r : Fs × Ostream) :
    (k.after r).Like (l.after r) := by
  obtain ⟨t, rfl⟩ := h
  exact ⟨_, rfl⟩

theorem Like.say (h : k.Like l) (f : Ostream → Ostream) :
    (k.say f).Like (l.say f) := by
  obtain ⟨t, rfl⟩ := h
  exact ⟨_, rfl⟩

theorem Like.sayLine (h : k.Like l) (text : Str) :
    (k.sayLine text).Like (l.sayLine text) := h.say _

theorem Like.fs (h : k.Like l) : l.fs = k.fs := by
  obtain ⟨t, rfl⟩ := h
  rfl

theorem Like.withArg (h : k.Like l) (usage : String) {f g : Str → Kernel}
    (hrun : ∀ s, (f s).Like (g s)) :
    (k.withArg usage f arg).Like (l.withArg usage g arg) := by
  cases arg with
  | none => exact h.sayLine _
  | some s => exact hrun s

theorem Like.call (h : k.Like l) (fs : Fs) : (k.call fs).Like (l.call fs) := by
  obtain ⟨t, rfl⟩ := h
  exact ⟨_, rfl⟩

theorem Like.foldl {α : Type} {f : Kernel → α → Kernel}
    (hf : ∀ {k l : Kernel} (a : α), k.Like l → (f k a).Like (f l a))
    (as : List α) (h : k.Like l) : (as.foldl f k).Like (as.foldl f l) := by
  induction as generalizing k l with
  | nil => exact h
  | cons a as ih => exact ih (hf a h)

theorem Like.cmdCd (h : k.Like l) :
    (k.cmdCd hidden arg).Like (l.cmdCd hidden arg) := by
  have hfs := h.fs
  cases arg with
  | none =>
      rw [Kernel.cmdCd, Kernel.cmdCd, hfs]
      exact (h.call _).call _
  | some s =>
      rw [Kernel.cmdCd, Kernel.cmdCd, hfs]
      exact h.call _

theorem Like.historyLines {fuel : Nat} {is : List Nat} (h : k.Like l)
    (hlines : k.historyLines fuel is = some k') :
    ∃ l', l.historyLines fuel is = some l' ∧ k'.Like l' := by
  induction is generalizing k l with
  | nil =>
      obtain rfl := Option.some.inj hlines
      exact ⟨l, rfl, h⟩
  | cons i is ih =>
      have hhist : l.history = k.history := by
        obtain ⟨t, rfl⟩ := h
        rfl
      rw [Kernel.historyLines] at hlines ⊢
      rw [hhist]
      split at hlines
      · cases hlines
      · exact ih (h.say _) hlines

theorem Like.cmdEdit (h : k.Like l) (hedit : k.CmdEdit editorMain k') :
    ∃ l', l.CmdEdit editorMain l' ∧ k'.Like l' := by
  obtain ⟨t, rfl⟩ := h
  obtain ⟨task, s, hcreate, h⟩ := hedit
  cases task with
  | none =>
      obtain rfl := h
      exact ⟨_, ⟨none, s, hcreate, rfl⟩, Like.say ⟨t, rfl⟩ _⟩
  | some task =>
      obtain ⟨ops, s', term, hrun, hzombie, rfl⟩ := h
      exact ⟨_, ⟨some task, s, hcreate, ops, s', term, hrun, hzombie, rfl⟩,
        term, rfl⟩

theorem Like.func {c : Command} (h : k.Like l)
    (hfunc : k.Func editorMain hidden arg k' c) :
    ∃ l', l.Func editorMain hidden arg l' c ∧ k'.Like l' := by
  have hfs := h.fs
  cases c with
  | ls =>
      obtain rfl := hfunc
      refine ⟨_, rfl, ?_⟩
      rw [cmdLs, cmdLs, hfs]
      exact h.say _
  | cd =>
      obtain rfl := hfunc
      exact ⟨_, rfl, h.cmdCd⟩
  | mkdir =>
      obtain rfl := hfunc
      refine ⟨_, rfl, h.withArg _ fun s => ?_⟩
      rw [hfs]
      exact h.call _
  | cat =>
      obtain rfl := hfunc
      refine ⟨_, rfl, h.withArg _ fun s => ?_⟩
      have hout : l.out = k.out := by
        obtain ⟨t, rfl⟩ := h
        rfl
      rw [hfs, hout]
      exact h.after _
  | pwd =>
      obtain rfl := hfunc
      refine ⟨_, rfl, ?_⟩
      rw [cmdPwd, cmdPwd, hfs]
      exact h.sayLine _
  | clear =>
      obtain rfl := hfunc
      obtain ⟨t, rfl⟩ := h
      exact ⟨_, rfl, _, rfl⟩
  | help =>
      obtain rfl := hfunc
      refine ⟨_, rfl, ?_⟩
      rw [cmdHelp, cmdHelp]
      refine Like.foldl ?_ cmdTable (h.sayLine _)
      intro k l c hk
      exact hk.say _
  | touch =>
      obtain rfl := hfunc
      refine ⟨_, rfl, h.withArg _ fun s => ?_⟩
      rw [hfs]
      exact h.call _
  | history =>
      obtain ⟨fuel, hlines⟩ := hfunc
      have hcount : l.history.count = k.history.count := by
        obtain ⟨t, rfl⟩ := h
        rfl
      rw [cmdHistory] at hlines
      obtain ⟨l', hlines', hlike⟩ := h.historyLines hlines
      rw [← hcount] at hlines'
      exact ⟨l', ⟨fuel, hlines'⟩, hlike⟩
  | rm =>
      obtain rfl := hfunc
      refine ⟨_, rfl, h.withArg _ fun s => ?_⟩
      rw [hfs]
      exact h.call _
  | edit => exact h.cmdEdit hfunc

theorem Like.execute (h : k.Like l) (hrun : k.Execute editorMain hidden text k') :
    ∃ l', l.Execute editorMain hidden text l' ∧ k'.Like l' := by
  obtain ⟨t, rfl⟩ := h
  obtain ⟨fuel, hist, hadd, hrun⟩ := hrun
  have hlike : Like { k with history := hist }
      { k with term := t, history := hist } := ⟨t, rfl⟩
  cases hfind : cmdTable.find? fun c => c.1 == cmdName text with
  | some c =>
      rw [hfind] at hrun
      obtain ⟨l', hfunc, hafter⟩ := hlike.func hrun
      refine ⟨l', ⟨fuel, hist, hadd, ?_⟩, hafter⟩
      rw [hfind]
      exact hfunc
  | none =>
      rw [hfind] at hrun
      obtain rfl := hrun
      refine ⟨if cmdName text = [] then { k with term := t, history := hist }
        else Kernel.say { k with term := t, history := hist } fun o =>
          ((o.str (lit "Unknown command: ")).str (cmdName text)).endl,
        ⟨fuel, hist, hadd, ?_⟩, ?_⟩
      · rw [hfind]
      · split
        · exact hlike
        · exact hlike.say _

theorem Like.answer (h : k.Like l) (hrun : k.Answer editorMain hidden line k') :
    ∃ l', l.Answer editorMain hidden line l' ∧ k'.Like l' := by
  have hhist : l.history = k.history := by
    obtain ⟨t, rfl⟩ := h
    rfl
  rcases hrun with ⟨hno, hrun⟩ | ⟨hyes, i, fuel, text, hi, hentry, hrun⟩ |
    ⟨hyes, hnone, rfl⟩
  · obtain ⟨l', hrun', hlike⟩ := h.execute hrun
    exact ⟨l', .inl ⟨hno, hrun'⟩, hlike⟩
  · obtain ⟨l', hrun', hlike⟩ := (h.sayLine text).execute hrun
    rw [← hhist] at hi hentry
    exact ⟨l', .inr (.inl ⟨hyes, i, fuel, text, hi, hentry, hrun'⟩), hlike⟩
  · rw [← hhist] at hnone
    exact ⟨_, .inr (.inr ⟨hyes, hnone, rfl⟩), h.sayLine _⟩

/-! ## A line is what its keystrokes make of it -/

theorem firstBytes_readLine {reads : List UInt8} (s : LineInput)
    (hs : CString.firstBytes s.buffer s.i = [])
    (hnew : newline ∉ reads) (hzero : 0 ∉ reads) :
    CString.firstBytes (s.readLine reads).1.buffer (s.readLine reads).1.i =
      typed reads := by
  induction reads using List.reverseRecOn with
  | nil => exact hs
  | append_singleton reads c ih =>
      obtain ⟨hnew, hc⟩ := not_or.1 (mt List.mem_append.2 hnew)
      obtain ⟨hzero, hc'⟩ := not_or.1 (mt List.mem_append.2 hzero)
      rw [List.mem_singleton] at hc hc'
      rw [LineInput.readLine_append hnew, LineInput.readLine,
        if_neg (Ne.symm hc'), if_neg (Ne.symm hc), LineInput.readLine,
        LineInput.typed_concat]
      exact KeyInput.firstBytes_key (ih hnew hzero) c

theorem readLine_typed {ks : List UInt8} (k : Kernel) (buffer : Nat → UInt8)
    (hidden : Hidden) (hnew : newline ∉ ks) (hzero : 0 ∉ ks) :
    ∃ read, k.prompt.readLine ⟨ks ++ [newline], buffer, hidden⟩ =
      some (typed ks, read) ∧ k.Like read := by
  let s : LineInput := ⟨buffer, 0, k.prompt.term⟩
  have hbytes := firstBytes_readLine s rfl hnew hzero
  have hread : s.readLine (ks ++ [newline]) =
      ((s.readLine ks).1.enter, true) := by
    rw [LineInput.readLine_append hnew, LineInput.readLine,
      if_neg (by decide), if_pos rfl]
  have hline : CString.firstBytes (s.readLine ks).1.enter.buffer
      (s.readLine ks).1.enter.i = typed ks :=
    (CString.firstBytes_update _ _ _).trans hbytes
  refine ⟨{ k.prompt with term := (s.readLine ks).1.enter.term }, ?_, _, rfl⟩
  rw [readLine, hread]
  exact congrArg (fun line => some (line, _)) hline

theorem round_of_answer {input : Input} {read : Kernel}
    (hread : k.prompt.readLine input = some (line, read))
    (h : read.Answer editorMain input.hidden line k') :
    k.Round editorMain input k' := by
  rcases h with ⟨hno, hrun⟩ | ⟨hyes, i, fuel, text, hi, hentry, hrun⟩ |
    ⟨hyes, hnone, rfl⟩
  · exact .inl ⟨line, read, ⟨line, read, hread, .inl ⟨hno, rfl, rfl⟩⟩, hrun⟩
  · exact .inl ⟨text, _, ⟨line, read, hread,
      .inr ⟨hyes, i, fuel, hi, hentry, rfl⟩⟩, hrun⟩
  · exact .inr ⟨line, read, hread, hyes, hnone, rfl⟩

end Kernel

/-- The characters that a round reads. -/
def Event.reads : Event → List UInt8
  | .round input => input.reads
  | _ => []

/-- A round reads a line and its newline. -/
def Event.Whole (e : Event) : Prop :=
  ∀ input, e = .round input → ∃ ks, input.reads = ks ++ [newline] ∧ newline ∉ ks

namespace LiveShell

variable {s s' : LiveShell} {k : Kernel} {editorMain : UInt64}
  {received rest : List UInt8}

/-- The characters that come into the ring. -/
def heard (keys : Console.Keys) (events : List Event) : List UInt8 :=
  KeyInput.heard keys (events.filterMap Event.input)

theorem heard_cons (keys : Console.Keys) (e : Event) (events : List Event) :
    heard keys (e :: events) = e.input.elim [] (·.heard keys) ++
      heard (e.input.elim keys (·.keys keys)) events := by
  cases e <;> rfl

/-- The kernel is that of `k` behind its own screen, and the reader has
received a part of the next line. -/
structure Follows (s : LiveShell) (k : Kernel) (received rest : List UInt8) :
    Prop where
  kernel : s.kernel.Like k
  reader : s.reader.Reads received rest
  nonzero : 0 ∉ received ++ rest

theorem zero_not_mem_heard (keys : Console.Keys) (e : KeyInput.Event) :
    0 ∉ e.heard keys := by
  cases e with
  | key scancode beyond dropped =>
      rw [KeyInput.Event.heard]
      split
      · exact List.not_mem_nil
      · intro hmem
        rw [Option.mem_toList] at hmem
        exact KeyInput.Reads.pushed_ne_zero hmem rfl
  | timer => exact List.not_mem_nil
  | read => exact List.not_mem_nil

/-- What the reader does behind an unchanged kernel. -/
theorem Follows.reader_step {e : KeyInput.Event} {l : Kernel}
    (h : Follows s k received rest) (hstep : s.reader.Step e s'.reader)
    (hlike : s'.kernel.Like l) :
    ∃ received' rest', Follows s' l received' rest' ∧
      received' ++ rest' = received ++ rest ++ e.heard s.reader.view.keys ∧
      s'.reader.view.keys = e.keys s.reader.view.keys := by
  obtain ⟨received', rest', hreads, hchars, hkeys⟩ := h.reader.step hstep
  refine ⟨received', rest', ⟨hlike, hreads, ?_⟩, hchars, hkeys⟩
  rw [hchars]
  intro hmem
  rcases List.mem_append.1 hmem with hmem | hmem
  · exact h.nonzero hmem
  · exact zero_not_mem_heard _ e hmem

theorem follows_ask {view : View} {kbd : Kbd} {buffer : Nat → UInt8}
    {queued : List UInt8} {l : Kernel} (hlike : k.Like l)
    (hring : HoldsQueue ⟨kbd, .idle⟩ ⟨queued, .idle⟩) (hqueued : 0 ∉ queued) :
    Follows (ask k view kbd buffer) l [] queued :=
  ⟨hlike, KeyInput.reads_start hring hqueued, hqueued⟩

/-- An answer is a round with the characters that the reader has received. -/
theorem Follows.answer {hidden : Hidden} {k' : Kernel}
    (h : Follows s k received rest) (hend : s.reader.point = .ended)
    (hanswer : s.shown.Answer editorMain hidden s.line k')
    (buffer : Nat → UInt8) :
    ∃ l, k.Round editorMain ⟨received, buffer, hidden⟩ l ∧ k'.Like l ∧
      Event.Whole (.round ⟨received, buffer, hidden⟩) := by
  obtain ⟨ks, rfl, hnew, hbytes, -⟩ := h.reader.ended hend
  have hzero : 0 ∉ ks := by
    intro hmem
    exact h.nonzero (List.mem_append_left _ (List.mem_append_left _ hmem))
  obtain ⟨read, hread, t, hlike⟩ := k.readLine_typed buffer hidden hnew hzero
  have hshown : s.shown.Like read := by
    obtain ⟨t', hk⟩ := h.kernel
    refine ⟨t, ?_⟩
    rw [hlike, hk]
    rfl
  obtain ⟨l, hanswer', hafter⟩ := hshown.answer hanswer
  have hline : s.line = typed ks := hbytes
  rw [hline] at hanswer'
  refine ⟨l, Kernel.round_of_answer hread hanswer', hafter, ?_⟩
  intro input heq
  cases heq
  exact ⟨ks, rfl, hnew⟩

/-- Where a run of the shell has come to, and what it has read of the
characters on the way. -/
def Accounts (editorMain : UInt64) (k : Kernel) (s : LiveShell)
    (chars : List UInt8) : Prop :=
  ∃ evs l received rest, Trace (Kernel.Step editorMain) k evs l ∧
    Follows s l received rest ∧ (∀ e ∈ evs, e.Whole) ∧
    evs.flatMap Shell.Event.reads ++ (received ++ rest) = chars

/-- An interrupt, or a step of the reader: nothing that reads a line. -/
theorem Follows.quiet {e : KeyInput.Event} {evs : List Shell.Event}
    {l : Kernel} (h : Follows s k received rest)
    (hstep : s.reader.Step e s'.reader)
    (hrun : Trace (Kernel.Step editorMain) k evs l) (hlike : s'.kernel.Like l)
    (hquiet : ∀ e ∈ evs, e.reads = [] ∧ e.Whole) :
    Accounts editorMain k s'
        (received ++ rest ++ e.heard s.reader.view.keys) ∧
      s'.reader.view.keys = e.keys s.reader.view.keys := by
  obtain ⟨received', rest', hfollows, hchars, hkeys⟩ :=
    h.reader_step hstep hlike
  refine ⟨⟨evs, l, received', rest', hrun, hfollows,
    fun e he => (hquiet e he).2, ?_⟩, hkeys⟩
  rw [List.flatMap_eq_nil_iff.2 fun e he => (hquiet e he).1, List.nil_append,
    hchars]

theorem quiet_of_interrupt {e : Shell.Event}
    (h : ∀ input, e ≠ .round input) : e.reads = [] ∧ e.Whole := by
  refine ⟨?_, fun input heq => absurd heq (h input)⟩
  cases e with
  | round input => exact absurd rfl (h input)
  | timer rsp => rfl
  | ctrlC => rfl

theorem Follows.step {e : Event} (h : Follows s k received rest)
    (hstep : s.Step editorMain e s') :
    Accounts editorMain k s'
        (received ++ rest ++
          e.input.elim [] (·.heard s.reader.view.keys)) ∧
      s'.reader.view.keys =
        e.input.elim s.reader.view.keys (·.keys s.reader.view.keys) := by
  have hkernel := h.kernel
  cases e with
  | key scancode beyond dropped =>
      obtain ⟨hreader, hafter⟩ := hstep
      rw [afterKey] at hafter
      split at hafter
      · -- A Ctrl+C.
        have hrun : Trace (Kernel.Step editorMain) k [.ctrlC] _ :=
          .cons rfl (.nil _)
        refine h.quiet hreader hrun ?_ ?_
        · obtain ⟨t, rfl⟩ := hkernel
          exact ⟨t, by rw [hafter]⟩
        · intro e he
          obtain rfl := List.mem_singleton.1 he
          exact quiet_of_interrupt fun _ => Shell.Event.noConfusion
      · refine h.quiet hreader (.nil k) ?_ fun _ he => absurd he
          List.not_mem_nil
        rw [hafter]
        exact hkernel
  | timer rsp =>
      obtain ⟨hreader, fuel, sched, hsched, hafter⟩ := hstep
      obtain ⟨t, rfl⟩ := hkernel
      have hrun : Trace (Kernel.Step editorMain) { s.kernel with term := t }
          [.timer rsp] { s.kernel with term := t, sched := sched } :=
        .cons ⟨fuel, sched, hsched, rfl⟩ (.nil _)
      refine h.quiet hreader hrun ⟨t, by rw [hafter]⟩ ?_
      intro e he
      obtain rfl := List.mem_singleton.1 he
      exact quiet_of_interrupt fun _ => Shell.Event.noConfusion
  | read =>
      obtain ⟨-, hreader, hafter⟩ := hstep
      refine h.quiet hreader (.nil k) ?_ fun _ he => absurd he
        List.not_mem_nil
      rw [hafter]
      exact hkernel
  | answer hidden buffer =>
      obtain ⟨hend, -, k', hanswer, rfl⟩ := hstep
      obtain ⟨l, hround, hlike, hwhole⟩ := h.answer hend hanswer buffer
      have hqueue := h.reader.queue
      rw [hend] at hqueue
      have hrest : 0 ∉ rest := fun hmem =>
        h.nonzero (List.mem_append_right _ hmem)
      refine ⟨⟨[.round ⟨received, buffer, hidden⟩], l, [], rest,
        .cons hround (.nil _), follows_ask hlike hqueue hrest, ?_, ?_⟩, rfl⟩
      · intro e he
        obtain rfl := List.mem_singleton.1 he
        exact hwhole
      · show [received].flatten ++ rest = received ++ rest ++ []
        simp

theorem Accounts.step {chars : List UInt8} {e : Event}
    (h : Accounts editorMain k s chars) (hstep : s.Step editorMain e s') :
    Accounts editorMain k s'
        (chars ++ e.input.elim [] (·.heard s.reader.view.keys)) ∧
      s'.reader.view.keys =
        e.input.elim s.reader.view.keys (·.keys s.reader.view.keys) := by
  obtain ⟨evs, l, received, rest, hrun, hfollows, hwhole, rfl⟩ := h
  obtain ⟨⟨evs', l', received', rest', hrun', hfollows', hwhole', hchars⟩,
    hkeys⟩ := hfollows.step hstep
  refine ⟨⟨evs ++ evs', l', received', rest',
    Trace.append_iff.2 ⟨l, hrun, hrun'⟩, hfollows', ?_, ?_⟩, hkeys⟩
  · intro e he
    exact (List.mem_append.1 he).elim (hwhole e) (hwhole' e)
  · rw [List.flatMap_append, List.append_assoc, hchars, List.append_assoc,
      List.append_assoc, List.append_assoc]

theorem Accounts.run {chars : List UInt8} {events : List Event}
    (h : Accounts editorMain k s chars)
    (hrun : Trace (Step editorMain) s events s') :
    Accounts editorMain k s' (chars ++ heard s.reader.view.keys events) := by
  induction hrun generalizing chars with
  | nil s =>
      rw [show heard s.reader.view.keys [] = [] from rfl, List.append_nil]
      exact h
  | cons head _ ih =>
      obtain ⟨hnext, hkeys⟩ := h.step head
      have hafter := ih hnext
      rw [hkeys, List.append_assoc, ← heard_cons] at hafter
      exact hafter

/-- An empty line is answered with the next prompt. -/
theorem answer_nil (k : Kernel) (editorMain : UInt64) (hidden : Hidden) :
    k.Answer editorMain hidden [] k := by
  have hfind : (cmdTable.find? fun c => c.1 == cmdName []) = none := by decide
  refine .inl ⟨rfl, 0, k.history, rfl, ?_⟩
  rw [hfind]
  rfl

/-- Only the empty text stands for an empty line. -/
theorem followed_nil {text : Str} (h : k.StandsFor [] text) :
    Followed text := by
  rcases h with ⟨-, rfl⟩ | ⟨hrecall, -⟩
  · exact ⟨by decide, by decide⟩
  · exact absurd hrecall (by decide)

theorem step_read {m m' : KeyInput} (hroom : m.i < inputSize)
    (h : m.advance = some m') : Step editorMain ⟨k, m⟩ .read ⟨k, m'⟩ :=
  ⟨hroom, h, rfl⟩

theorem room : 0 < inputSize := by decide

/-- Return is pressed, with room in the ring and no modifier held. -/
theorem step_return {m : KeyInput} (haccepts : m.kbd.accepts = true)
    (hkeys : m.view.keys = ⟨false, false⟩) :
    Step editorMain ⟨k, m⟩ (.key 0x1C (fun _ => 0) false)
      ⟨k, m.key 0x1C fun _ => 0⟩ := by
  refine ⟨⟨?_, rfl⟩, ?_⟩
  · rw [hkeys, haccepts]
    rfl
  · rw [afterKey, hkeys]
    rfl

/-- Return is pressed, the reader reads it, and the line is answered. -/
theorem exists_return (k : Kernel) : ∃ s, Trace (Step 0x8000)
    (ask k (.start ⟨fun _ => 0, 0, 0, 0, 0⟩) .initial fun _ => 0)
    [.key 0x1C (fun _ => 0) false, .read, .read, .read,
      .answer (typedLine "").hidden fun _ => 0] s :=
  ⟨_, .cons (step_return rfl rfl) (.cons (step_read room rfl)
    (.cons (step_read room rfl) (.cons (step_read room rfl)
      (.cons ⟨rfl, fun _ => followed_nil, _, answer_nil _ _ _, rfl⟩
        (.nil _)))))⟩

theorem accounts_of_run {view : View} {kbd : Kbd} {buffer : Nat → UInt8}
    {queued : List UInt8} {events : List Event}
    (hring : HoldsQueue ⟨kbd, .idle⟩ ⟨queued, .idle⟩) (hqueued : 0 ∉ queued)
    (hrun : Trace (Step editorMain) (ask k view kbd buffer) events s) :
    Accounts editorMain k s (queued ++ heard view.keys events) := by
  have hstart : Accounts editorMain k (ask k view kbd buffer) queued :=
    ⟨[], k, [], queued, .nil k, follows_ask (.refl k) hring hqueued,
      fun _ he => absurd he List.not_mem_nil, rfl⟩
  exact hstart.run hrun

/-- The shell asks for its first line with characters already in the ring, and
keys, timer ticks, steps of the reader and commands come in any order. At every
moment the kernel is where a run of the loop over given lines has brought it,
but for the screen, and those lines, the part of the next one that the reader
has received and what the ring holds are the characters that came into the
ring, in their order. -/
theorem executes_typed {k : Kernel} {editorMain : UInt64} {view : View}
    {kbd : Kbd} {buffer : Nat → UInt8} {queued : List UInt8}
    {events : List Event} {s : LiveShell}
    (hring : HoldsQueue ⟨kbd, .idle⟩ ⟨queued, .idle⟩) (hqueued : 0 ∉ queued)
    (hrun : Trace (Step editorMain) (ask k view kbd buffer) events s) :
    Accounts editorMain k s (queued ++ heard view.keys events) :=
  accounts_of_run hring hqueued hrun

theorem executes_typed_return : ∃ s,
    Trace (Step 0x8000) (ask (Kernel.kmain noDisks)
        (.start ⟨fun _ => 0, 0, 0, 0, 0⟩) .initial fun _ => 0)
      [.key 0x1C (fun _ => 0) false, .read, .read, .read,
        .answer (typedLine "").hidden fun _ => 0] s ∧
      Accounts 0x8000 (Kernel.kmain noDisks) s [newline] := by
  obtain ⟨s, hrun⟩ := exists_return (Kernel.kmain noDisks)
  exact ⟨s, hrun, executes_typed HoldsQueue.initial List.not_mem_nil hrun⟩

/-! ## Left to itself -/

/-- There is no room left in `input`, or a line has been read whose text does
not fit its row of the history or runs `edit`. -/
def Stops (s : LiveShell) : Prop :=
  inputSize ≤ s.reader.i ∨ (s.reader.point = .ended ∧ ∃ text,
    s.shown.StandsFor s.line text ∧
      (entrySize ≤ text.length ∨ cmdName text = lit "edit"))

theorem exists_execute {hw : Hardware} {hidden : Hidden} {text : Str}
    (h : k.Waiting hw) (hname : cmdName text ≠ lit "edit") :
    ∃ k', k.Execute editorMain hidden text k' := by
  obtain ⟨fuel, hist, hadd⟩ := h.history.exists_add text
  refine Exists.imp (fun l hl => ⟨fuel, hist, hadd, hl⟩) ?_
  cases hfind : cmdTable.find? fun c => c.1 == cmdName text with
  | none => exact ⟨_, rfl⟩
  | some c =>
      exact Kernel.exists_func (h.history.add hadd)
        (Kernel.ne_edit_of_find hname hfind)

/-- There is an answer to every line whose text is followed. -/
theorem exists_answer {hw : Hardware} (h : k.Waiting hw) (hidden : Hidden)
    {line : Str} (hline : ∀ text, k.StandsFor line text → Followed text) :
    ∃ k', k.Answer editorMain hidden line k' := by
  cases hrecall : isRecall line with
  | false =>
      obtain ⟨-, hname⟩ := hline line (.inl ⟨hrecall, rfl⟩)
      obtain ⟨k', hrun⟩ := exists_execute h hname
      exact ⟨k', .inl ⟨hrecall, hrun⟩⟩
  | true =>
      cases hidx : recalled k.history line with
      | none => exact ⟨_, .inr (.inr ⟨hrecall, hidx, rfl⟩)⟩
      | some i =>
          obtain ⟨fuel, text, hentry⟩ :=
            h.history.exists_entry (Kernel.recalled_lt hidx)
          obtain ⟨-, hname⟩ :=
            hline text (.inr ⟨hrecall, i, fuel, hidx, hentry⟩)
          have hsaid := h.of_keeps (Kernel.keeps_sayLine k text)
          obtain ⟨k', hrun⟩ := exists_execute hsaid hname
          exact ⟨k', .inr (.inl ⟨hrecall, i, fuel, text, hidx, hentry, hrun⟩)⟩

theorem Follows.waiting_shown {hw : Hardware} (h : Follows s k received rest)
    (hwaiting : k.Waiting hw) : s.shown.Waiting hw := by
  obtain ⟨t, rfl⟩ := h.kernel
  exact ⟨hwaiting.sched, hwaiting.history⟩

/-- The reader goes on to where it comes to, or to the end of `input`. -/
theorem trace_reads {n : Nat} {m m' : KeyInput}
    (hrun : Trace KeyInput.Step m (List.replicate n .read) m') :
    Trace (Step editorMain) ⟨k, m⟩ (List.replicate n .read) ⟨k, m'⟩ ∨
      ∃ n' m₁, Trace (Step editorMain) ⟨k, m⟩ (List.replicate n' .read)
        ⟨k, m₁⟩ ∧ inputSize ≤ m₁.i := by
  induction n generalizing m with
  | zero =>
      cases hrun
      exact .inl (.nil _)
  | succ n ih =>
      cases hrun with
      | @cons _ m₁ _ _ _ head tail =>
          by_cases hroom : m.i < inputSize
          · have hread : Step editorMain ⟨k, m⟩ .read ⟨k, m₁⟩ :=
              step_read hroom head
            rcases ih tail with hrun | ⟨n', m₂, hrun, hfull⟩
            · exact .inl (.cons hread hrun)
            · exact .inr ⟨n' + 1, m₂, .cons hread hrun, hfull⟩
          · exact .inr ⟨0, m, .nil _, Nat.le_of_not_lt hroom⟩

/-- The shell goes on by itself. -/
def Alone (hidden : Hidden) (buffer : Nat → UInt8) (e : Event) : Prop :=
  e = .read ∨ e = .answer hidden buffer

/-- Every character has been read and every line answered; the reader waits. -/
def AtRest (editorMain : UInt64) (k : Kernel) (s : LiveShell)
    (chars : List UInt8) : Prop :=
  s.reader.point = .halted ∧ ∃ evs l received,
    Trace (Kernel.Step editorMain) k evs l ∧ s.kernel.Like l ∧
      (∀ e ∈ evs, e.Whole) ∧ newline ∉ received ∧ s.line = typed received ∧
      evs.flatMap Shell.Event.reads ++ received = chars

/-- A line that is complete is answered, if its text is followed. -/
theorem Follows.next {hw : Hardware} (h : Follows s k received rest)
    (hwaiting : k.Waiting hw) (hend : s.reader.point = .ended)
    (editorMain : UInt64) (hidden : Hidden) (buffer : Nat → UInt8) : s.Stops ∨
      ∃ s' l, s.Step editorMain (.answer hidden buffer) s' ∧
        k.Step editorMain (.round ⟨received, buffer, hidden⟩) l ∧
        Shell.Event.Whole (.round ⟨received, buffer, hidden⟩) ∧
        Follows s' l [] rest ∧ s'.reader.point = .pop .idle ∧
        received ≠ [] := by
  by_cases hline : ∀ text, s.shown.StandsFor s.line text → Followed text
  · obtain ⟨k', hanswer⟩ := @exists_answer _ editorMain _
      (h.waiting_shown hwaiting) hidden _ hline
    obtain ⟨l, hround, hlike, hwhole⟩ := h.answer hend hanswer buffer
    obtain ⟨ks, hks, -⟩ := h.reader.ended hend
    have hqueue := h.reader.queue
    rw [hend] at hqueue
    have hrest : 0 ∉ rest := fun hmem =>
      h.nonzero (List.mem_append_right _ hmem)
    refine .inr ⟨_, l, ⟨hend, hline, k', hanswer, rfl⟩, hround, hwhole,
      follows_ask hlike hqueue hrest, rfl, ?_⟩
    rw [hks]
    simp
  · push Not at hline
    obtain ⟨text, hstands, hnot⟩ := hline
    rw [Followed, not_and_or, not_not, Nat.not_lt] at hnot
    exact .inl (.inr ⟨hend, text, hstands, hnot⟩)

/-- Left to itself the shell answers every line that has been heard and comes
to rest, unless it stops before. -/
theorem Accounts.settles {hw : Hardware} {chars : List UInt8}
    (h : Accounts editorMain (Kernel.kmain hw) s chars)
    (hpoint : (∃ c, s.reader.point = .pop c) ∨ s.reader.point = .ended)
    (hidden : Hidden) (buffer : Nat → UInt8) : ∃ later s',
      (∀ e ∈ later, Alone hidden buffer e) ∧
      Trace (Step editorMain) s later s' ∧
      (AtRest editorMain (Kernel.kmain hw) s' chars ∨ s'.Stops) := by
  obtain ⟨evs, l, received, rest, hrun, hfollows, hwhole, hchars⟩ := h
  induction hsize : (received ++ rest).length using Nat.strong_induction_on
    generalizing s evs l received rest with
  | h size ih =>
      -- Up to the end of the line, or to the end of the ring.
      obtain ⟨n, m, received', rest', hreads, hreader, hchars', hend⟩ :
          ∃ n m received' rest',
            Trace KeyInput.Step s.reader (List.replicate n .read) m ∧
              m.Reads received' rest' ∧
              received' ++ rest' = received ++ rest ∧
              (m.point = .ended ∨ m.point = .halted ∧ rest' = []) := by
        rcases hpoint with hpop | hend
        · exact hfollows.reader.settles hpop
        · exact ⟨0, _, _, _, .nil _, hfollows.reader, rfl, .inl hend⟩
      have halone : ∀ n, ∀ e ∈ List.replicate n Event.read,
          Alone hidden buffer e :=
        fun _ e he => .inl (List.eq_of_mem_replicate he)
      have hlift := @trace_reads s.kernel editorMain _ _ _ hreads
      rcases hlift with hlater | ⟨n', m₁, hlater, hfull⟩
      case inr => exact ⟨_, _, halone n', hlater, .inr (.inl hfull)⟩
      have hfollows' : Follows ⟨s.kernel, m⟩ l received' rest' :=
        ⟨hfollows.kernel, hreader, hchars' ▸ hfollows.nonzero⟩
      rw [← hchars'] at hchars hsize
      rcases hend with hend | ⟨hhalted, rfl⟩
      · rcases hfollows'.next (Kernel.waiting_of_run hrun) hend
          editorMain hidden buffer
          with hstop | ⟨s', l', hstep, hround, hline, hnext, hidle, hne⟩
        · exact ⟨_, _, halone n, hlater, .inr hstop⟩
        · have hlt : rest'.length < size := by
            have hpos := List.length_pos_iff.2 hne
            rw [← hsize, List.length_append]
            omega
          obtain ⟨later, s₁, halone', hrun', hdone⟩ :=
            ih _ hlt (.inl ⟨_, hidle⟩) _ _ _ _
              (Trace.append_iff.2 ⟨l, hrun, .cons hround (.nil _)⟩) hnext
              (fun e he => (List.mem_append.1 he).elim (hwhole e) fun he =>
                List.mem_singleton.1 he ▸ hline)
              (by rw [← hchars]; simp [Shell.Event.reads]) rfl
          refine ⟨_, s₁, ?_, Trace.append_iff.2
            ⟨_, hlater, .cons hstep hrun'⟩, hdone⟩
          intro e he
          rcases List.mem_append.1 he with he | he
          · exact halone n e he
          · rcases List.mem_cons.1 he with rfl | he
            · exact .inr rfl
            · exact halone' e he
      · have hopen : m.point ≠ .ended := by
          rw [hhalted]
          exact Console.ReadPoint.noConfusion
        obtain ⟨hnew, hbytes⟩ := hreader.line hopen
        rw [List.append_nil] at hchars
        exact ⟨_, _, halone n, hlater, .inl ⟨hhalted, evs, l, received', hrun,
          hfollows.kernel, hwhole, hnew, hbytes, hchars⟩⟩

end LiveShell

end TermOS.Shell
