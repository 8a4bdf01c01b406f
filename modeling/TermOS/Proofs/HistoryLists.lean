import TermOS.Proofs.Recall
import TermOS.Proofs.Screen
import TermOS.Proofs.ShellHistory
import TermOS.Proofs.Startup

/-!
# What `history` prints is what was executed

A round of the shell executes a text, the line that was typed or the one that it
recalls, or it executes none. Over a whole session that starts with `_kmain`
the rows of `history` are then the last ten of these texts, as long as each of
them fits its row, and the format of `std::cout` is decimal at every prompt. So
`history` prints them numbered from 1, itself the last of them, and `!` with
the number of a line, if that is a single digit, executes the line.
-/

namespace TermOS.Shell

open TermOS.Lib
open TermOS.Console (Ostream LineInput Fmt newline)
open TermOS.Storage (Fs Str lit)

/-! ## The number format -/

theorem currentFmt_endl (o : Ostream) : o.endl.currentFmt = o.currentFmt :=
  rfl

/-- What prints piece by piece keeps the format if each piece does. -/
theorem currentFmt_foldl {α : Type} (f : Ostream → α → Ostream)
    (hf : ∀ (o : Ostream) a, o.currentFmt = .dec → (f o a).currentFmt = .dec)
    (as : List α) {o : Ostream} (ho : o.currentFmt = .dec) :
    (as.foldl f o).currentFmt = .dec := by
  induction as generalizing o with
  | nil => exact ho
  | cons a as ih => exact ih (hf o a ho)

theorem currentFmt_printUint (n : UInt64) (base : Nat)
    {o : Ostream} (ho : o.currentFmt = .dec) :
    (o.printUint n base).currentFmt = .dec := by
  rw [Ostream.printUint]
  split
  · exact ho
  · exact currentFmt_foldl (fun o d => o.char (Ostream.digit d))
      (fun _ _ h => h) _ ho

theorem currentFmt_uint (n : UInt64) {o : Ostream} (ho : o.currentFmt = .dec) :
    (o.uint n).currentFmt = .dec := by
  rw [Ostream.uint, ho]
  exact currentFmt_printUint n 10 ho

theorem currentFmt_int (n : Int32) {o : Ostream} (ho : o.currentFmt = .dec) :
    (o.int n).currentFmt = .dec := by
  rw [Ostream.int]
  split
  · exact currentFmt_uint _ (o := o.char 0x2D) ho
  · exact currentFmt_uint _ ho

theorem currentFmt_lsLine (e : Storage.DirEntry) {o : Ostream}
    (ho : o.currentFmt = .dec) : (Fs.lsLine o e).currentFmt = .dec := by
  have hname : (e.name.toList.foldl Ostream.char o).currentFmt = .dec :=
    currentFmt_foldl Ostream.char (fun _ _ h => h) _ ho
  rw [Fs.lsLine]
  split
  · exact hname
  · exact currentFmt_uint _ rfl

theorem currentFmt_cat (fs : Fs) (name : Str) (uninit : Storage.Sector)
    (beyond : Nat → UInt8) {o : Ostream} (ho : o.currentFmt = .dec) :
    (fs.cat o name uninit beyond).2.currentFmt = .dec := by
  rw [Fs.cat]
  split
  · exact ho
  · split
    · exact ho
    · rw [currentFmt_endl]
      exact currentFmt_foldl Ostream.char (fun _ _ h => h) _ ho

namespace Kernel

variable {editorMain : UInt64} {k k' l : Kernel} {input : Input}
  {hidden : Hidden} {arg : Option Str} {text : Str}

theorem coutFmt_after (k : Kernel) (r : Fs × Ostream) :
    (k.after r).coutFmt = r.2.currentFmt := rfl

theorem coutFmt_say (k : Kernel) (f : Ostream → Ostream) :
    (k.say f).coutFmt = (f k.out).currentFmt := rfl

theorem coutFmt_call (k : Kernel) (fs : Fs) : (k.call fs).coutFmt = k.coutFmt :=
  rfl

theorem dec_foldl {α : Type} {f : Kernel → α → Kernel}
    (hf : ∀ (k : Kernel) (a : α), k.coutFmt = .dec → (f k a).coutFmt = .dec)
    (as : List α) {k : Kernel} (hk : k.coutFmt = .dec) :
    (as.foldl f k).coutFmt = .dec := by
  induction as generalizing k with
  | nil => exact hk
  | cons a as ih => exact ih (hf k a hk)

theorem dec_withArg {run : Str → Kernel} (usage : String)
    (hk : k.coutFmt = .dec) (hrun : ∀ arg, (run arg).coutFmt = .dec) :
    (k.withArg usage run arg).coutFmt = .dec := by
  cases arg with
  | none => exact hk
  | some arg => exact hrun arg

theorem dec_historyLines {fuel : Nat} {is : List Nat} (hk : k.coutFmt = .dec)
    (h : k.historyLines fuel is = some k') : k'.coutFmt = .dec := by
  induction is generalizing k with
  | nil =>
      obtain rfl := Option.some.inj h
      exact hk
  | cons i is ih =>
      rw [historyLines] at h
      split at h
      · cases h
      · exact ih (currentFmt_int _ (o := k.out) hk) h

theorem Func.dec {c : Command} (hk : k.coutFmt = .dec)
    (h : k.Func editorMain hidden arg k' c) : k'.coutFmt = .dec := by
  cases c with
  | ls =>
      obtain rfl := h
      rw [cmdLs, coutFmt_say, Fs.ls]
      exact currentFmt_foldl Fs.lsLine (fun o e ho => currentFmt_lsLine e ho) _
        (o := k.out) hk
  | cd =>
      obtain rfl := h
      cases arg with
      | none => exact (coutFmt_call _ _).trans ((coutFmt_call k _).trans hk)
      | some arg => exact (coutFmt_call k _).trans hk
  | mkdir =>
      obtain rfl := h
      exact dec_withArg _ hk fun arg => (coutFmt_call k _).trans hk
  | cat =>
      obtain rfl := h
      refine dec_withArg _ hk fun arg => ?_
      rw [coutFmt_after]
      exact currentFmt_cat k.fs arg hidden.uninit hidden.beyond (o := k.out) hk
  | pwd =>
      obtain rfl := h
      exact hk
  | clear =>
      obtain rfl := h
      rw [cmdClear]
      exact hk
  | help =>
      obtain rfl := h
      rw [cmdHelp]
      refine dec_foldl (fun k c hk => ?_) cmdTable ?_
      · rw [coutFmt_say]
        exact hk
      · rw [sayLine, coutFmt_say]
        exact hk
  | touch =>
      obtain rfl := h
      exact dec_withArg _ hk fun arg => (coutFmt_call k _).trans hk
  | history =>
      obtain ⟨fuel, hlines⟩ := h
      exact dec_historyLines hk hlines
  | rm =>
      obtain rfl := h
      exact dec_withArg _ hk fun arg => (coutFmt_call k _).trans hk
  | edit =>
      obtain ⟨t, s, -, h⟩ := h
      cases t with
      | none =>
          obtain rfl := h
          exact hk
      | some t =>
          obtain ⟨ops, s', term, -, -, rfl⟩ := h
          exact hk

theorem dec_readLine {line : Str} (hk : k.coutFmt = .dec)
    (h : k.prompt.readLine input = some (line, k')) : k'.coutFmt = .dec := by
  rw [readLine] at h
  split at h
  · obtain ⟨-, rfl⟩ := Prod.mk.inj (Option.some.inj h)
    exact hk
  · cases h

theorem Fetch.dec (hk : k.coutFmt = .dec) (h : k.Fetch input text k') :
    k'.coutFmt = .dec := by
  obtain ⟨line, read, hread, ⟨-, -, rfl⟩ | ⟨-, i, fuel, -, -, rfl⟩⟩ := h
  · exact dec_readLine hk hread
  · have hdec := dec_readLine hk hread
    rw [sayLine, coutFmt_say]
    exact hdec

theorem Execute.dec (hk : k.coutFmt = .dec)
    (h : k.Execute editorMain hidden text k') : k'.coutFmt = .dec := by
  obtain ⟨fuel, hist, -, hrun⟩ := h
  split at hrun
  · refine Func.dec ?_ hrun
    exact hk
  · obtain rfl := hrun
    split <;> exact hk

theorem dec_kmain (hw : Hardware) : (kmain hw).coutFmt = .dec := by
  rw [kmain, coutFmt_say]
  rfl

/-! ## No zero in a line -/

theorem zero_notMem_stringAt {m : Nat → UInt8} {fuel a : Nat}
    (h : stringAt m fuel a = some text) : 0 ∉ text := by
  induction fuel generalizing a text with
  | zero => cases h
  | succ fuel ih =>
      rw [stringAt] at h
      split at h
      · obtain rfl := Option.some.inj h
        exact List.not_mem_nil
      · next hne =>
          obtain ⟨t, ht, rfl⟩ := Option.map_eq_some_iff.1 h
          intro hmem
          rcases List.mem_cons.1 hmem with heq | hmem
          · exact hne heq.symm
          · exact ih ht hmem

theorem zero_notMem_buffer {s : LineInput} {reads : List UInt8}
    (h : ∀ j < s.i, s.buffer j ≠ 0) :
    ∀ j < (s.readLine reads).1.i, (s.readLine reads).1.buffer j ≠ 0 := by
  induction reads generalizing s with
  | nil => exact h
  | cons c reads ih =>
      rw [LineInput.readLine]
      split
      · exact ih h
      · next hzero =>
          split
          · intro j hj
            have hne : j ≠ s.i := Nat.ne_of_lt hj
            show Function.update s.buffer s.i 0 j ≠ 0
            rw [Function.update_of_ne hne]
            exact h j hj
          · refine ih fun j hj => ?_
            rw [LineInput.key] at hj ⊢
            split at hj
            · next hback =>
                rw [if_pos hback]
                split at hj
                · next hpos =>
                    rw [if_pos hpos]
                    exact h j (Nat.lt_of_lt_of_le hj (Nat.sub_le _ _))
                · next hpos =>
                    rw [if_neg hpos]
                    exact h j hj
            · next hback =>
                rw [if_neg hback]
                rcases Nat.lt_succ_iff_lt_or_eq.1 hj with hlt | rfl
                · have hne : j ≠ s.i := Nat.ne_of_lt hlt
                  show Function.update s.buffer s.i c j ≠ 0
                  rw [Function.update_of_ne hne]
                  exact h j hlt
                · show Function.update s.buffer s.i c s.i ≠ 0
                  rw [Function.update_self]
                  exact hzero

theorem zero_notMem_readLine {line : Str}
    (h : k.prompt.readLine input = some (line, k')) : 0 ∉ line := by
  rw [readLine] at h
  split at h
  · next s hread =>
      obtain ⟨rfl, -⟩ := Prod.mk.inj (Option.some.inj h)
      intro hmem
      obtain ⟨j, hj, hzero⟩ := List.mem_map.1 hmem
      have hbuffer := @zero_notMem_buffer ⟨input.buffer, 0, k.prompt.term⟩
        input.reads (fun j hj => absurd hj (Nat.not_lt_zero j))
      rw [hread] at hbuffer
      exact hbuffer j (List.mem_range.1 hj) hzero
  · cases h

theorem Fetch.zero_notMem (h : k.Fetch input text k') : 0 ∉ text := by
  obtain ⟨line, read, hread, ⟨-, rfl, -⟩ | ⟨-, i, fuel, -, hentry, -⟩⟩ := h
  · exact zero_notMem_readLine hread
  · exact zero_notMem_stringAt hentry

/-! ## What has been executed -/

/-- A round that executes a text, or an event that executes none. -/
def Does (editorMain : UInt64) (k : Kernel) : Option Str → Kernel → Prop
  | some text, k' => ∃ input fetched, k.Fetch input text fetched ∧
      fetched.Execute editorMain input.hidden text k'
  | none, k' => (∃ input, k.Miss input k') ∨
      (∃ rsp, k.Step editorMain (.timer rsp) k') ∨ k.Step editorMain .ctrlC k'

/-- That is all that happens to the shell. -/
theorem step_iff_does : (∃ e, k.Step editorMain e k') ↔
    ∃ o, k.Does editorMain o k' := by
  refine ⟨?_, ?_⟩
  · rintro ⟨input | rsp | _, hstep⟩
    · rcases hstep with ⟨text, fetched, hfetch, hrun⟩ | hmiss
      · exact ⟨some text, input, fetched, hfetch, hrun⟩
      · exact ⟨none, .inl ⟨input, hmiss⟩⟩
    · exact ⟨none, .inr (.inl ⟨rsp, hstep⟩)⟩
    · exact ⟨none, .inr (.inr hstep)⟩
  · rintro ⟨_ | text, hdoes⟩
    · rcases hdoes with ⟨input, hmiss⟩ | ⟨rsp, hstep⟩ | hstep
      · exact ⟨.round input, .inr hmiss⟩
      · exact ⟨.timer rsp, hstep⟩
      · exact ⟨.ctrlC, hstep⟩
    · obtain ⟨input, fetched, hfetch, hrun⟩ := hdoes
      exact ⟨.round input, .inl ⟨text, fetched, hfetch, hrun⟩⟩

/-- So the runs are the same. -/
theorem run_iff_does : (∃ events, Trace (Step editorMain) k events k') ↔
    ∃ done, Trace (Does editorMain) k done k' := by
  refine ⟨?_, ?_⟩
  · rintro ⟨events, h⟩
    induction h with
    | nil k => exact ⟨[], .nil k⟩
    | cons head tail ih =>
        obtain ⟨o, hdoes⟩ := step_iff_does.1 ⟨_, head⟩
        obtain ⟨done, hrest⟩ := ih
        exact ⟨o :: done, .cons hdoes hrest⟩
  · rintro ⟨done, h⟩
    induction h with
    | nil k => exact ⟨[], .nil k⟩
    | cons head tail ih =>
        obtain ⟨e, hstep⟩ := step_iff_does.2 ⟨_, head⟩
        obtain ⟨events, hrest⟩ := ih
        exact ⟨e :: events, .cons hstep hrest⟩

/-- The commands among them: an empty line goes nowhere. -/
def executed (done : List (Option Str)) : List Str :=
  done.filterMap fun o => o.filter (· ≠ [])

theorem executed_some (h : text ≠ []) : executed [some text] = [text] := by
  simp [executed, Option.filter, h]

/-- The last ten. -/
def lastTen (texts : List Str) : List Str :=
  texts.drop (texts.length - historySize)

/-- Everything fits its row. -/
def Short (done : List (Option Str)) : Prop :=
  ∀ text, some text ∈ done → text.length < entrySize

/-- A line of what `history` prints. -/
def numbered (i : Nat) (text : Str) : Str :=
  decimal (i + 1) ++ lit ": " ++ text ++ [newline]

/-- All it prints if its rows hold these texts. -/
def listing (texts : List Str) : Str :=
  (List.range texts.length).flatMap fun i => numbered i (texts.getD i [])

/-- The rows hold the last ten of the texts, and numbers are decimal. -/
structure Remembers (k : Kernel) (texts : List Str) : Prop where
  dec : k.coutFmt = .dec
  lines : ∃ ls : List CommandLine, k.history.Records ls ∧
    ls.map Subtype.val = texts ∧ ∀ l ∈ ls, l.val.length < entrySize

theorem allRoom_of_short {ls : List CommandLine}
    (h : ∀ l ∈ ls, l.val.length < entrySize) : AllRoom ls := by
  intro pre l post heq
  have hmem : ∀ x ∈ pre ++ [l], x.val.length < 64 := fun x hx => by
    refine h x ?_
    rw [heq, List.append_cons]
    exact List.mem_append_left post hx
  refine ⟨fun _ => hmem l (by simp), fun prev hprev hlong => ?_⟩
  have hin := List.mem_append_left [l] (List.mem_of_getLast? hprev)
  exact absurd hlong (Nat.not_le.2 (hmem prev hin))

/-- Whatever fuel it took. -/
theorem records_of_add {hist hist' : History} {ls : List CommandLine}
    {l : CommandLine} {fuel : Nat} (h : hist.Records ls)
    (hls : ∀ x ∈ ls ++ [l], x.val.length < entrySize)
    (hadd : hist.add fuel l.val = some hist') : hist'.Records (ls ++ [l]) := by
  have hmono : hist.add (max fuel 128) l.val = some hist' := by
    rw [History.add, if_neg l.property.1] at hadd ⊢
    split at hadd
    · next hfull =>
        rw [if_pos hfull]
        split at hadd
        · cases hadd
        · next m hshift =>
            rw [History.shift_mono (Nat.le_max_left _ _) hshift]
            exact hadd
    · next hfree =>
        rw [if_neg hfree]
        exact hadd
  obtain ⟨hall, hroom⟩ := allRoom_concat.1 (allRoom_of_short hls)
  have hfuel : 127 < max fuel 128 := Nat.le_max_right fuel 128
  obtain ⟨hist'', hstep, hrec, -⟩ := h.add hall hroom hfuel
  obtain rfl := Option.some.inj (hmono.symm.trans hstep)
  exact hrec

theorem Remembers.record {texts : List Str} {l : CommandLine} {fuel : Nat}
    {hist : History} (h : k.Remembers texts) (hlen : l.val.length < entrySize)
    (hadd : k.history.add fuel l.val = some hist) :
    Remembers { k with history := hist } (texts ++ [l.val]) := by
  obtain ⟨ls, hrec, rfl, hls⟩ := h.lines
  have hall : ∀ x ∈ ls ++ [l], x.val.length < entrySize :=
    List.forall_mem_append.2 ⟨hls, List.forall_mem_singleton.2 hlen⟩
  exact ⟨h.dec, ls ++ [l], records_of_add hrec hall hadd, List.map_append,
    hall⟩

theorem Remembers.exists_add {texts : List Str} {l : CommandLine}
    (h : k.Remembers texts) (hlen : l.val.length < entrySize) :
    ∃ fuel hist, k.history.add fuel l.val = some hist := by
  obtain ⟨ls, hrec, rfl, hls⟩ := h.lines
  obtain ⟨hall, hroom⟩ := allRoom_concat.1 (allRoom_of_short
    (List.forall_mem_append.2 ⟨hls, List.forall_mem_singleton.2 hlen⟩))
  obtain ⟨hist, hstep, -⟩ := hrec.add hall hroom (Nat.lt_succ_self 127)
  exact ⟨128, hist, hstep⟩

theorem Remembers.of_keeps {texts : List Str} (h : k.Remembers texts)
    (hkeeps : k.Keeps k') (hdec : k'.coutFmt = .dec) : k'.Remembers texts :=
  ⟨hdec, hkeeps.history ▸ h.lines⟩

/-- A command that fits its row, as a line of the history. -/
theorem Fetch.exists_line (h : k.Fetch input text k') (hnil : text ≠ [])
    (hlen : text.length < entrySize) : ∃ l : CommandLine, l.val = text := by
  have hle : text.length ≤ 127 := Nat.le_trans (Nat.le_of_lt hlen) (by decide)
  exact ⟨⟨text, hnil, hle, h.zero_notMem⟩, rfl⟩

theorem Func.history {c : Command} (h : k.Func editorMain hidden arg k' c) :
    k'.history = k.history := by
  by_cases hc : c = .edit
  · subst hc
    obtain ⟨t, s, -, h⟩ := h
    cases t with
    | none =>
        obtain rfl := h
        rfl
    | some t =>
        obtain ⟨ops, s', term, -, -, rfl⟩ := h
        rfl
  · exact (h.keeps hc).history

theorem Execute.history (h : k.Execute editorMain hidden text k') :
    ∃ fuel, k.history.add fuel text = some k'.history := by
  obtain ⟨fuel, hist, hadd, hrun⟩ := h
  refine ⟨fuel, hadd.trans (congrArg some ?_)⟩
  split at hrun
  · exact (Func.history hrun).symm
  · obtain rfl := hrun
    split <;> rfl

/-- One event more. -/
theorem Remembers.does {texts : List Str} {o : Option Str}
    (h : k.Remembers texts) (hdoes : k.Does editorMain o k')
    (hshort : ∀ text, o = some text → text.length < entrySize) :
    k'.Remembers (texts ++ executed [o]) := by
  cases o with
  | none =>
      rw [show executed [none] = [] from rfl, List.append_nil]
      rcases hdoes with ⟨input, hmiss⟩ | ⟨rsp, fuel, s, -, rfl⟩ | rfl
      · refine ⟨?_, ?_⟩
        · obtain ⟨line, read, hread, -, -, rfl⟩ := hmiss
          have hdec := dec_readLine h.dec hread
          rw [sayLine, coutFmt_say]
          exact hdec
        · rw [hmiss.keeps.history]
          exact h.lines
      · exact ⟨h.dec, h.lines⟩
      · exact ⟨h.dec, h.lines⟩
  | some text =>
      obtain ⟨input, fetched, hfetch, hrun⟩ := hdoes
      have hfetched := h.of_keeps hfetch.keeps (hfetch.dec h.dec)
      obtain ⟨fuel, hadd⟩ := hrun.history
      refine ⟨hrun.dec hfetched.dec, ?_⟩
      by_cases hnil : text = []
      · subst hnil
        rw [History.add, if_pos rfl] at hadd
        rw [show executed [some []] = [] from rfl, List.append_nil,
          ← Option.some.inj hadd]
        exact hfetched.lines
      · have hlen := hshort text rfl
        obtain ⟨l, rfl⟩ := hfetch.exists_line hnil hlen
        rw [executed_some hnil]
        exact (hfetched.record hlen hadd).lines

theorem Remembers.run {texts : List Str} {done : List (Option Str)}
    (h : k.Remembers texts) (hshort : Short done)
    (htrace : Trace (Does editorMain) k done k') :
    k'.Remembers (texts ++ executed done) := by
  induction htrace generalizing texts with
  | nil k =>
      rw [show executed [] = [] from rfl, List.append_nil]
      exact h
  | @cons k l k' o done head tail ih =>
      have hstep := h.does head fun text ho =>
        hshort text (ho ▸ List.mem_cons_self)
      have hrest := ih hstep fun text hmem =>
        hshort text (List.mem_cons_of_mem o hmem)
      rwa [List.append_assoc, executed, executed, ← List.filterMap_append,
        List.singleton_append] at hrest

theorem remembers_kmain (hw : Hardware) : (kmain hw).Remembers [] := by
  refine ⟨dec_kmain hw, [], ?_, rfl, fun l hl => absurd hl List.not_mem_nil⟩
  have hkeeps : (initial hw).Keeps (kmain hw) := by
    rw [kmain]
    refine Keeps.trans ?_ (keeps_after _ _)
    refine Keeps.trans ?_ (keeps_sayLine _ _)
    refine Keeps.trans ?_ (keeps_after _ _)
    refine Keeps.trans ?_ (keeps_diskMgrInit _ hw)
    refine Keeps.trans ?_ (keeps_after _ _)
    refine Keeps.trans ?_ (keeps_sayLine _ _)
    exact ⟨rfl, rfl⟩
  rw [hkeeps.history]
  exact History.records_nil _

/-! ## What `history` prints -/

theorem say_eq (k : Kernel) (f : Ostream → Ostream) :
    k.say f = { k with
      coutFmt := (f k.out).currentFmt
      term := k.term.vgaWrite (f k.out).written } := by
  rw [say, after]
  simp only [List.drop_length, if_pos]

theorem zero_notMem_decimal (n : Nat) : 0 ∉ decimal n := by
  intro hmem
  rw [decimal, List.mem_reverse] at hmem
  obtain ⟨d, hd, hzero⟩ := List.mem_map.1 hmem
  have hall : ∀ d < 10, Ostream.digit d ≠ 0 := by decide
  exact hall d (Nat.digits_lt_base (by decide) hd) hzero

theorem zero_notMem_numbered (i : Nat) (htext : 0 ∉ text) :
    0 ∉ numbered i text := by
  have hcolon : (0 : UInt8) ∉ lit ": " := by decide
  have hend : (0 : UInt8) ∉ [newline] := by decide
  rw [numbered]
  simp only [List.mem_append, not_or]
  exact ⟨⟨⟨zero_notMem_decimal _, hcolon⟩, htext⟩, hend⟩

theorem say_numbered (hk : k.coutFmt = .dec) (htext : 0 ∉ text) {i : Nat}
    (hi : i < historySize) :
    (k.say fun o => (((o.int (Int32.ofNat (i + 1))).str (lit ": ")).str
      text).endl) = { k with term := k.term.vgaWrite (numbered i text) } := by
  have hlt : i + 1 < 2147483648 := Nat.lt_of_le_of_lt hi (by decide)
  have hself : text.takeWhile (· ≠ 0) = text :=
    Console.Terminal.takeWhile_ne_zero fun c hc heq => htext (heq ▸ hc)
  have hline : (((k.out.int (Int32.ofNat (i + 1))).str (lit ": ")).str
      text).endl = ⟨k.coutFmt, numbered i text⟩ := by
    rw [int_eq_decimal k.out hk (Nat.succ_pos i) hlt, Ostream.endl,
      Ostream.char, Ostream.str, Ostream.str, Ostream.str, hself]
    rfl
  rw [say_eq, hline]

/-- The loop prints one line after the other. -/
theorem historyLines_eq {fuel : Nat} {t : Nat → Str} {is : List Nat}
    (hk : k.coutFmt = .dec)
    (hall : ∀ i ∈ is, k.history.entry fuel i = some (t i) ∧ 0 ∉ t i ∧
      i < historySize) :
    k.historyLines fuel is = some { k with
      term := k.term.vgaWrite (is.flatMap fun i => numbered i (t i)) } := by
  induction is generalizing k with
  | nil => rfl
  | cons i is ih =>
      obtain ⟨hentry, hzero, hi⟩ := hall i List.mem_cons_self
      have hprint : ∀ rest, k.term.vgaWrite (numbered i (t i) ++ rest) =
          (k.term.vgaWrite (numbered i (t i))).vgaWrite rest :=
        Console.Terminal.print_append k.term fun c hc heq =>
          zero_notMem_numbered i hzero (heq ▸ hc)
      have hrest := @ih { k with
          term := k.term.vgaWrite (numbered i (t i)) } hk
        fun j hj => hall j (List.mem_cons_of_mem i hj)
      rw [historyLines, hentry]
      show historyLines (k.say _) fuel is = _
      rw [say_numbered hk hzero hi, hrest, List.flatMap_cons, hprint]

theorem lastTen_map (ls : List CommandLine) :
    lastTen (ls.map Subtype.val) = (recent ls).map Subtype.val := by
  rw [lastTen, recent, List.length_map, List.map_drop]

theorem entry_of_records {hist : History} {ls : List CommandLine}
    (h : hist.Records ls) {i : Nat} {x : CommandLine}
    (hx : (recent ls)[i]? = some x) : hist.entry 128 i = some x.val :=
  History.stringAt_eq (h.entries i x hx) (Nat.lt_succ_of_le x.property.2.1)

theorem count_of_records {hist : History} {ls : List CommandLine}
    (h : hist.Records ls) : hist.count = (recent ls).length := by
  rw [h.count, recent, List.length_drop]
  show min ls.length 10 = ls.length - (ls.length - 10)
  omega

theorem Remembers.cmdHistory {texts : List Str} (h : k.Remembers texts) :
    k.cmdHistory 128 =
      some { k with term := k.term.vgaWrite (listing (lastTen texts)) } := by
  obtain ⟨ls, hrec, rfl, -⟩ := h.lines
  have hcount := count_of_records hrec
  rw [Kernel.cmdHistory, lastTen_map, listing, List.length_map, hcount]
  refine historyLines_eq h.dec fun i hi => ?_
  have hlt := List.mem_range.1 hi
  have hx := List.getElem?_eq_getElem hlt
  have hget : ((recent ls).map Subtype.val).getD i [] =
      ((recent ls)[i]).val := by
    rw [List.getD_eq_getElem?_getD, List.getElem?_map, hx]
    rfl
  rw [hget]
  refine ⟨entry_of_records hrec hx, ((recent ls)[i]).property.2.2, ?_⟩
  rw [← hcount, hrec.count] at hlt
  exact Nat.lt_of_lt_of_le hlt (Nat.min_le_right _ _)

/-- `history` prints the last ten of these commands and itself, numbered from 1,
and does nothing else but record itself. -/
def Lists (k : Kernel) (editorMain : UInt64) (texts : List Str) : Prop :=
  ∀ input text fetched, k.Fetch input text fetched →
    cmdName text = lit "history" → text.length < entrySize →
    (∃ k', fetched.Execute editorMain input.hidden text k') ∧
    ∀ k', fetched.Execute editorMain input.hidden text k' →
      k' = { fetched with
        history := k'.history
        term := fetched.term.vgaWrite (listing (lastTen (texts ++ [text]))) }

/-- `!` with the number of a line takes the command of that line, if the number
has one digit. -/
def Recalls (k : Kernel) (texts : List Str) : Prop :=
  ∀ input i t read, i < 9 → (lastTen texts)[i]? = some t →
    k.prompt.readLine input = some (0x21 :: decimal (i + 1), read) →
    ∀ text fetched, k.Fetch input text fetched ↔
      text = t ∧ fetched = read.sayLine t

theorem Remembers.lists {texts : List Str} (h : k.Remembers texts) :
    k.Lists editorMain texts := by
  intro input text fetched hfetch hname hlen
  have hfetched := h.of_keeps hfetch.keeps (hfetch.dec h.dec)
  have hnil : text ≠ [] := fun hnil => by
    rw [hnil] at hname
    exact absurd hname (by decide)
  have hfind : cmdTable.find? (fun c => c.1 == cmdName text) =
      some (lit "history", .history, lit "History") := by
    rw [hname]
    rfl
  obtain ⟨l, rfl⟩ := hfetch.exists_line hnil hlen
  refine ⟨?_, ?_⟩
  · obtain ⟨fuel, hist, hadd⟩ := hfetched.exists_add hlen
    obtain ⟨k', hprints⟩ : ∃ k',
        ({ fetched with history := hist } : Kernel).cmdHistory 128 = some k' :=
      ⟨_, (hfetched.record hlen hadd).cmdHistory⟩
    refine ⟨k', fuel, hist, hadd, ?_⟩
    rw [hfind]
    exact ⟨128, hprints⟩
  · rintro k' ⟨fuel, hist, hadd, hrun⟩
    rw [hfind] at hrun
    obtain ⟨n, hlines⟩ := hrun
    have hprints := (hfetched.record hlen hadd).cmdHistory
    rw [Kernel.cmdHistory] at hlines hprints
    have hsame := (historyLines_mono (Nat.le_max_left n 128) hlines).symm.trans
      (historyLines_mono (Nat.le_max_right n 128) hprints)
    obtain rfl := Option.some.inj hsame
    rfl

theorem Remembers.recalls {texts : List Str} (h : k.Remembers texts) :
    k.Recalls texts := by
  intro input i t read hi ht hread text fetched
  obtain ⟨ls, hrec, rfl, -⟩ := h.lines
  rw [lastTen_map, List.getElem?_map] at ht
  obtain ⟨x, hx, rfl⟩ := Option.map_eq_some_iff.1 ht
  have hhist : read.history = k.history := (keeps_readLine hread).history
  have hentry : read.history.entry 128 i = some x.val := by
    rw [hhist]
    exact entry_of_records hrec hx
  have hdec := decimal_of_lt (Nat.succ_pos i) (Nat.succ_lt_succ hi)
  rw [hdec] at hread
  have hrecalled : recalled read.history [0x21, Ostream.digit (i + 1)] =
      some i := by
    have hfirst : firstChar [0x21, Ostream.digit (i + 1)] =
        0x30 + ((i + 1 : Nat) : Int) := toInt_digit (Nat.succ_lt_succ hi)
    have hcount : i < read.history.count := by
      rw [hhist, count_of_records hrec]
      exact (List.getElem?_eq_some_iff.1 hx).1
    rw [recalled_eq_some_iff, hfirst]
    exact ⟨by omega, hcount⟩
  refine ⟨?_, ?_⟩
  · rintro ⟨line, read', hread', hcases⟩
    obtain ⟨rfl, rfl⟩ := readLine_unique hread hread'
    rcases hcases with ⟨hno, -, -⟩ | ⟨-, j, fuel, hj, htext, rfl⟩
    · cases hno
    · obtain rfl := Option.some.inj (hrecalled.symm.trans hj)
      have hsame := (stringAt_mono (Nat.le_max_left fuel 128) htext).symm.trans
        (stringAt_mono (Nat.le_max_right fuel 128) hentry)
      obtain rfl := Option.some.inj hsame
      exact ⟨rfl, rfl⟩
  · rintro ⟨rfl, rfl⟩
    exact ⟨_, read, hread, .inr ⟨rfl, i, 128, hrecalled, hentry, rfl⟩⟩

end Kernel

/-- In every run from `_kmain` on, whatever interrupts it, `history` prints what
has been executed, and the numbers it prints recall it. -/
theorem history_lists (hw : Hardware) (editorMain : UInt64)
    (done : List (Option Str)) (k : Kernel)
    (h : Trace (Kernel.Does editorMain) (Kernel.kmain hw) done k)
    (hshort : Kernel.Short done) :
    k.Lists editorMain (Kernel.executed done) ∧
      k.Recalls (Kernel.executed done) := by
  have hremembers := (Kernel.remembers_kmain hw).run hshort h
  rw [List.nil_append] at hremembers
  exact ⟨hremembers.lists, hremembers.recalls⟩

/-- After `pwd` as the first command. -/
theorem history_lists_pwd :
    ∃ k, Trace (Kernel.Does 0x8000) (Kernel.kmain noDisks)
        [some (lit "pwd")] k ∧
      k.Lists 0x8000 [lit "pwd"] ∧ k.Recalls [lit "pwd"] := by
  obtain ⟨read, hread⟩ :=
    readLine_typedLine (Kernel.kmain noDisks) "pwd" (by decide)
  have hfetch : (Kernel.kmain noDisks).Fetch (typedLine "pwd") (lit "pwd")
      read := ⟨_, read, hread, .inl ⟨by decide, rfl, rfl⟩⟩
  have hfetched := (Kernel.remembers_kmain noDisks).of_keeps hfetch.keeps
    (hfetch.dec (Kernel.dec_kmain noDisks))
  obtain ⟨l, hl⟩ := hfetch.exists_line (by decide) (by decide)
  have hlen : l.val.length < entrySize := by
    rw [hl]
    decide
  obtain ⟨fuel, hist, hadd⟩ := hfetched.exists_add hlen
  rw [hl] at hadd
  have hrun : read.Execute 0x8000 (typedLine "pwd").hidden (lit "pwd")
      ({ read with history := hist } : Kernel).cmdPwd :=
    ⟨fuel, hist, hadd, rfl⟩
  have htrace : Trace (Kernel.Does 0x8000) (Kernel.kmain noDisks)
      [some (lit "pwd")] _ := .cons ⟨_, read, hfetch, hrun⟩ (.nil _)
  have hshort : Kernel.Short [some (lit "pwd")] := fun text hmem => by
    obtain rfl := Option.some.inj (List.mem_singleton.1 hmem)
    decide
  have hlists := history_lists noDisks 0x8000 _ _ htrace hshort
  rw [Kernel.executed_some (by decide)] at hlists
  exact ⟨_, htrace, hlists⟩

end TermOS.Shell
