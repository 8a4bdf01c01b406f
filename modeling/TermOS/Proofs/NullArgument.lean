import TermOS.Proofs.FatPath
import TermOS.Proofs.Startup
import TermOS.Ref.ShellCalls

/-!
# No handler passes a null pointer, but `cmd_cd`

Of the six handlers that call the driver four look at the argument and return,
and `cmd_ls` passes nothing. `cmd_cd` looks at it as well, and then goes on: a
bare `cd` is `cd /` and a second `fat32_cd`, of the null pointer. Address 0 is
mapped, so what is there is taken for a path.
-/

namespace TermOS.Shell

open TermOS.Console (Ostream)
open TermOS.Storage (Str lit slash)

/-! ## The calls are all that a command does to the driver -/

namespace Kernel

variable {k k' : Kernel} {editorMain : UInt64} {hidden : Hidden}
  {arg : Option Str} {text : Str}

theorem fs_say (k : Kernel) (f : Ostream → Ostream) : (k.say f).fs = k.fs :=
  rfl

theorem fs_withArg (k : Kernel) (usage : String) (f : Option Str → StorageCall)
    {run : Str → Kernel} (hrun : ∀ s, run s = (f (some s)).run hidden k) :
    (k.withArg usage run arg).fs =
      ((guarded f arg).foldl (StorageCall.run hidden) k).fs := by
  cases arg with
  | none => rfl
  | some s => exact congrArg Kernel.fs (hrun s)

theorem fs_historyLines {fuel : Nat} {is : List Nat}
    (h : k.historyLines fuel is = some k') : k'.fs = k.fs := by
  induction is generalizing k with
  | nil =>
      obtain rfl := Option.some.inj h
      rfl
  | cons i is ih =>
      rw [historyLines] at h
      split at h
      · cases h
      · exact (ih h).trans (fs_say k _)

theorem fs_foldl {α : Type} {f : Kernel → α → Kernel}
    (hf : ∀ (k : Kernel) (a : α), (f k a).fs = k.fs) (as : List α)
    (k : Kernel) : (as.foldl f k).fs = k.fs := by
  induction as generalizing k with
  | nil => rfl
  | cons a as ih => exact (ih (f k a)).trans (hf k a)

theorem fs_cmdHelp (k : Kernel) : k.cmdHelp.fs = k.fs := by
  rw [cmdHelp]
  exact (fs_foldl (fun k c => fs_say k _) cmdTable _).trans (fs_say k _)

theorem CmdEdit.fs (h : k.CmdEdit editorMain k') : k'.fs = k.fs := by
  obtain ⟨t, s, -, h⟩ := h
  cases t with
  | none =>
      obtain rfl := h
      rfl
  | some t =>
      obtain ⟨ops, s', term, -, -, rfl⟩ := h
      rfl

theorem cmdCd_eq (k : Kernel) (hidden : Hidden) (arg : Option Str) :
    k.cmdCd hidden arg =
      (Command.cd.storageCalls arg).foldl (StorageCall.run hidden) k := by
  cases arg <;> rfl

/-- After a command the driver is where its calls have left it. -/
theorem Func.fs {c : Command} (h : k.Func editorMain hidden arg k' c) :
    k'.fs = ((c.storageCalls arg).foldl (StorageCall.run hidden) k).fs := by
  cases c with
  | ls =>
      obtain rfl := h
      rfl
  | cd =>
      obtain rfl := h
      rw [cmdCd_eq]
  | mkdir =>
      obtain rfl := h
      exact fs_withArg k _ .mkdir fun _ => rfl
  | cat =>
      obtain rfl := h
      exact fs_withArg k _ .cat fun _ => rfl
  | pwd =>
      obtain rfl := h
      exact fs_say k _
  | clear =>
      obtain rfl := h
      rw [cmdClear]
      rfl
  | help =>
      obtain rfl := h
      exact fs_cmdHelp k
  | touch =>
      obtain rfl := h
      exact fs_withArg k _ .touch fun _ => rfl
  | history =>
      obtain ⟨fuel, hlines⟩ := h
      exact fs_historyLines hlines
  | rm =>
      obtain rfl := h
      exact fs_withArg k _ .rm fun _ => rfl
  | edit => exact CmdEdit.fs h

/-- So is it after the rest of a round, which records the text first. -/
theorem Execute.fs (h : k.Execute editorMain hidden text k') :
    ∃ hist, k'.fs = ((storageCalls text).foldl (StorageCall.run hidden)
      { k with history := hist }).fs := by
  obtain ⟨fuel, hist, -, hrun⟩ := h
  refine ⟨hist, ?_⟩
  rw [storageCalls]
  cases hfind : cmdTable.find? fun c => c.1 == cmdName text with
  | some c =>
      rw [hfind] at hrun
      exact Func.fs hrun
  | none =>
      rw [hfind] at hrun
      obtain rfl := hrun
      show (ite _ _ _ : Kernel).fs = _
      split <;> rfl

end Kernel

/-! ## The pointers -/

variable {text : Str}

theorem pointer_guarded {f : Option Str → StorageCall}
    (hf : ∀ p, (f p).pointer = some p) {arg p : Option Str}
    (h : p ∈ (guarded f arg).filterMap StorageCall.pointer) :
    p = arg ∧ p ≠ none := by
  cases arg with
  | none => cases h
  | some s =>
      rw [guarded, if_neg (by simp), List.filterMap_cons_some (hf _)] at h
      obtain rfl := List.mem_singleton.1 h
      exact ⟨rfl, by simp⟩

/-- What a handler passes is the argument. A null pointer and a string of its
own it passes only if it is `cmd_cd` and has no argument. -/
theorem Command.pointer_cases {c : Command} {arg p : Option Str}
    (h : p ∈ (c.storageCalls arg).filterMap StorageCall.pointer) :
    p = arg ∧ p ≠ none ∨ c = .cd ∧ arg = none := by
  cases c with
  | ls => cases h
  | cd =>
      cases arg with
      | none => exact .inr ⟨rfl, rfl⟩
      | some s =>
          obtain rfl := List.mem_singleton.1 h
          exact .inl ⟨rfl, by simp⟩
  | mkdir => exact .inl (pointer_guarded (fun _ => rfl) h)
  | cat => exact .inl (pointer_guarded (fun _ => rfl) h)
  | pwd => cases h
  | clear => cases h
  | help => cases h
  | touch => exact .inl (pointer_guarded (fun _ => rfl) h)
  | history => cases h
  | rm => exact .inl (pointer_guarded (fun _ => rfl) h)
  | edit => cases h

/-- The row of `cmd_cd`. -/
theorem name_of_cd {c : Str × Command × Str} (hmem : c ∈ cmdTable)
    (hcd : c.2.1 = .cd) : c.1 = lit "cd" := by
  have hall : cmdTable.all (fun c => c.2.1 != .cd || c.1 == lit "cd") = true :=
    by decide
  have hrow := List.all_eq_true.1 hall c hmem
  rw [hcd] at hrow
  exact beq_iff_eq.1 hrow

/-- A text without a space is its own name. -/
theorem cmdName_of_cmdArg (h : cmdArg text = none) : cmdName text = text := by
  rw [cmdArg] at h
  split at h
  · cases h
  · next hspace =>
      refine List.takeWhile_eq_self_iff.2 fun c hc => decide_eq_true ?_
      rintro rfl
      exact hspace hc

theorem pointers_cases {p : Option Str} (h : p ∈ pointers text) :
    p = cmdArg text ∧ p ≠ none ∨ text = lit "cd" := by
  rw [pointers, storageCalls] at h
  split at h
  · next c hfind =>
      rcases Command.pointer_cases h with hgiven | ⟨hcd, hbare⟩
      · exact .inl hgiven
      · have hname := List.find?_some hfind
        rw [beq_iff_eq, cmdName_of_cmdArg hbare] at hname
        exact .inr (hname.symm.trans
          (name_of_cd (List.mem_of_find?_eq_some hfind) hcd))
  · cases h

theorem pointers_cd : pointers (lit "cd") = [some [slash], none] := by
  decide

/-- The text behind the first space, or nothing, or a default: no function of
the driver is given a null pointer, and a bare `cd` is `cd /`. -/
structure Kernel.GuardsStrings (k : Kernel) (hidden : Hidden) (text : Str) :
    Prop where
  notNull : none ∉ pointers text
  given : ∀ arg, cmdArg text = some arg → ∀ p ∈ pointers text, p = some arg
  bare : cmdArg text = none → ∀ p ∈ pointers text,
    text = lit "cd" ∧ p = some [slash]
  root : text = lit "cd" →
    k.cmdCd hidden (cmdArg text) = k.cmdCd hidden (cmdArg (lit "cd /"))

/-- For every text that a round executes, as it was typed or from the history,
and every state. -/
theorem guardsStrings_iff (k : Kernel) (hidden : Hidden) (text : Str) :
    k.GuardsStrings hidden text ↔ text ≠ lit "cd" := by
  refine ⟨?_, ?_⟩
  · rintro h rfl
    refine h.notNull ?_
    rw [pointers_cd]
    exact List.mem_cons_of_mem _ List.mem_cons_self
  · intro htext
    have hgiven : ∀ p ∈ pointers text, p = cmdArg text ∧ p ≠ none :=
      fun p hp => (pointers_cases hp).resolve_right htext
    refine ⟨fun hnull => ?_, fun arg harg p hp => ?_, fun hbare p hp => ?_,
      fun hcd => absurd hcd htext⟩
    · exact (hgiven none hnull).2 rfl
    · rw [(hgiven p hp).1, harg]
    · obtain ⟨heq, hne⟩ := hgiven p hp
      exact absurd (heq.trans hbare) hne

/-- If address 0 holds a name that the root has not, then a bare `cd` is not
`cd /`: it reports the name as missing. -/
theorem Kernel.cmdCd_none_ne {k : Kernel} {hidden : Hidden}
    (hname : Storage.Proper hidden.atNull)
    (hfind : (k.fs.cd [slash]).findFile hidden.atNull = none) :
    k.cmdCd hidden none ≠ k.cmdCd hidden (some [slash]) := by
  intro heq
  have hfs : (k.fs.cd [slash]).cd hidden.atNull = k.fs.cd [slash] :=
    congrArg Kernel.fs heq
  rw [Storage.Fs.cd_plain hname.1, Storage.Fs.cdComponent, if_neg hname.2.2,
    if_neg hname.2.1, hfind] at hfs
  have hcerr := congrArg (fun fs => fs.cerr.length) hfs
  simp [Storage.Fs.errln] at hcerr

/-- The bytes of the interrupt vector F000:FF53. -/
def vectorZero : Hidden := ⟨Storage.zeroSector, fun _ => 0, [0x53, 0xFF]⟩

theorem proper_vectorZero : Storage.Proper vectorZero.atNull := by
  have hplain : vectorZero.atNull.all Storage.isPlain = true := by decide
  exact ⟨⟨by simp [vectorZero], List.all_eq_true.1 hplain⟩, by decide,
    by decide⟩

/-- A bare `cd` looks for a directory of that name. -/
theorem not_guardsStrings_cd :
    ¬ (Kernel.kmain noDisks).GuardsStrings vectorZero (lit "cd") ∧
      (Kernel.kmain noDisks).cmdCd vectorZero (cmdArg (lit "cd")) ≠
        (Kernel.kmain noDisks).cmdCd vectorZero (cmdArg (lit "cd /")) := by
  have hdiffer := Kernel.cmdCd_none_ne (k := Kernel.kmain noDisks)
    proper_vectorZero rfl
  refine ⟨fun h => ?_, hdiffer⟩
  have hnull := h.notNull
  rw [pointers_cd] at hnull
  exact hnull (List.mem_cons_of_mem _ List.mem_cons_self)

end TermOS.Shell
