import TermOS.Lib.Trace
import TermOS.Ref.Fat32Text
import TermOS.Ref.LineInput
import TermOS.Ref.Pmm
import TermOS.Ref.Task

/-!
# The shell (`tsh.cpp`)

`Shell::run` and its commands, over the state of the kernel they run in. The
output goes to the terminal call by call, so what stays of `std::cout` is its
number format. The array `history` is memory, with whatever the linker put
behind it, and a `strcpy` that has to find the end of a string there takes
fuel, one unit for each byte. The buffer `input` is as long as it needs to be;
it is that of the code, with its 128 bytes, for lines that are shorter as they
are typed.
-/

namespace TermOS.Shell

open TermOS.Lib
open TermOS.Console (Fmt Ostream Terminal LineInput)
open TermOS.Memory (Pmm)
open TermOS.Storage (Fs Sector Str lit slash)
open TermOS.Tasking (Sched TaskPtr)

/-! ## The history -/

/-- The C string at an address. -/
def stringAt (m : Nat → UInt8) : Nat → Nat → Option Str
  | 0, _ => none
  | fuel + 1, a =>
      if m a = 0 then some []
      else (stringAt m fuel (a + 1)).map (m a :: ·)

/-- `strcpy` of a string to an address. -/
def copyString (m : Nat → UInt8) (dest : Nat) (s : Str) : Nat → UInt8 :=
  fun a => if dest ≤ a ∧ a ≤ dest + s.length then s.getD (a - dest) 0 else m a

/-- `HISTORY_SIZE`, and the length of an entry. -/
abbrev historySize : Nat := 10
abbrev entrySize : Nat := 64

/-- `history`, with address 0 for its first byte, and `history_count`. -/
structure History where
  bytes : Nat → UInt8
  count : Nat

namespace History

/-- The string at `history[i]`. -/
def entry (h : History) (fuel i : Nat) : Option Str :=
  stringAt h.bytes fuel (entrySize * i)

/-- `strcpy(history[i], history[i + 1])` for each `i`. The target begins in
front of the source, so no byte is read that has been written. -/
def shift (fuel : Nat) : List Nat → (Nat → UInt8) → Option (Nat → UInt8)
  | [], m => some m
  | i :: is, m =>
      match stringAt m fuel (entrySize * (i + 1)) with
      | none => none
      | some s => shift fuel is (copyString m (entrySize * i) s)

/-- `add_to_history`. -/
def add (fuel : Nat) (h : History) (cmd : Str) : Option History :=
  if cmd = [] then some h
  else if h.count = historySize then
    match shift fuel (List.range (historySize - 1)) h.bytes with
    | none => none
    | some m =>
        some { h with
          bytes := copyString m (entrySize * (historySize - 1)) cmd }
  else
    some
      { bytes := copyString h.bytes (entrySize * h.count) cmd
        count := h.count + 1 }

end History

/-! ## The kernel around the shell -/

structure Kernel where
  sched : Sched
  pmm : Pmm
  fs : Fs
  coutFmt : Fmt
  term : Terminal
  history : History

/-- What the code reads without having written it: a local buffer for a
sector, the memory behind it, and the string at address 0. -/
structure Hidden where
  uninit : Sector
  beyond : Nat → UInt8
  atNull : Str

namespace Kernel

/-- `std::cout`, with nothing written yet. -/
def out (k : Kernel) : Ostream := ⟨k.coutFmt, []⟩

/-- After a call that has written to `std::cout`, and to `std::cerr` what the
driver's state has more of. -/
def after (k : Kernel) (r : Fs × Ostream) : Kernel :=
  let errors := r.1.cerr.drop k.fs.cerr.length
  let term := k.term.vgaWrite r.2.written
  { k with
    fs := r.1, coutFmt := r.2.currentFmt
    term := if errors = [] then term else term.vgaWriteErr errors }

/-- A chain of `<<`. -/
def say (k : Kernel) (f : Ostream → Ostream) : Kernel := k.after (k.fs, f k.out)

/-- A call of the driver that writes to `std::cerr` at most. -/
def call (k : Kernel) (fs : Fs) : Kernel := k.after (fs, k.out)

def sayLine (k : Kernel) (text : Str) : Kernel :=
  k.say fun o => (o.str text).endl

end Kernel

/-! ## The commands -/

inductive Command where
  | ls
  | cd
  | mkdir
  | cat
  | pwd
  | clear
  | help
  | touch
  | history
  | rm
  | edit
  deriving DecidableEq, Repr

/-- `cmd_table`. -/
def cmdTable : List (Str × Command × Str) :=
  [(lit "ls", .ls, lit "List directory content"),
    (lit "cd", .cd, lit "Change directory"),
    (lit "mkdir", .mkdir, lit "Create directory"),
    (lit "cat", .cat, lit "Show content in file"),
    (lit "pwd", .pwd, lit "Print working directory"),
    (lit "clear", .clear, lit "Clear screen"),
    (lit "help", .help, lit "Show this help"),
    (lit "touch", .touch, lit "Create file"),
    (lit "history", .history, lit "History"),
    (lit "rm", .rm, lit "Remove file/directory"),
    (lit "edit", .edit, lit "System Text Editor")]

namespace Kernel

/-- `if (!arg) { std::cout << usage << std::endl; return; }`. -/
def withArg (k : Kernel) (usage : String) (run : Str → Kernel) :
    Option Str → Kernel
  | none => k.sayLine (lit usage)
  | some arg => run arg

def cmdLs (k : Kernel) (hidden : Hidden) : Kernel :=
  k.say fun o => k.fs.ls o hidden.uninit

def cmdPwd (k : Kernel) : Kernel := k.sayLine k.fs.currentPath

def cmdClear (k : Kernel) : Kernel := { k with term := k.term.clear }

def cmdRm (k : Kernel) (hidden : Hidden) : Option Str → Kernel :=
  k.withArg "Usage: rm <FILE/DIRECTORY>" fun arg =>
    k.call (k.fs.rm arg hidden.uninit)

/-- Without an argument the code goes on behind `fat32_cd("/")`. -/
def cmdCd (k : Kernel) (hidden : Hidden) : Option Str → Kernel
  | none =>
      let k := k.call (k.fs.cd [slash])
      k.call (k.fs.cd hidden.atNull)
  | some arg => k.call (k.fs.cd arg)

def cmdCat (k : Kernel) (hidden : Hidden) : Option Str → Kernel :=
  k.withArg "Usage: cat <filename>" fun arg =>
    k.after (k.fs.cat k.out arg hidden.uninit hidden.beyond)

def cmdMkdir (k : Kernel) (hidden : Hidden) : Option Str → Kernel :=
  k.withArg "Usage: mkdir <name>" fun arg =>
    k.call (k.fs.mkdir arg hidden.uninit)

def cmdTouch (k : Kernel) (hidden : Hidden) : Option Str → Kernel :=
  k.withArg "Usage: touch <filename>" fun arg =>
    k.call (k.fs.touch arg hidden.uninit)

def cmdHelp (k : Kernel) : Kernel :=
  cmdTable.foldl (fun k c => k.say fun o =>
    ((((o.str (lit "  ")).str c.1).str (lit " - ")).str c.2.2).endl)
    (k.sayLine (lit "TermOS Shell Commands:"))

/-- The loop of `cmd_history`, over the indices. -/
def historyLines (k : Kernel) (fuel : Nat) : List Nat → Option Kernel
  | [] => some k
  | i :: is =>
      match k.history.entry fuel i with
      | none => none
      | some text =>
          historyLines (k.say fun o => (((o.int (Int32.ofNat (i + 1))).str
            (lit ": ")).str text).endl) fuel is

def cmdHistory (k : Kernel) (fuel : Nat) : Option Kernel :=
  k.historyLines fuel (List.range k.history.count)

/-- `cmd_edit`. While it waits for the new task other tasks run, and what they
write on the screen is not followed. -/
def CmdEdit (k : Kernel) (editorMain : UInt64) (k' : Kernel) : Prop :=
  ∃ t s, k.sched.createTask editorMain = some (t, s) ∧
    match t with
    | none =>
        k' = { k with sched := s }.say
          (·.str (lit "Error: could not create task!\n"))
    | some t => ∃ ops s' term, Trace Sched.Step s ops s' ∧
        (s'.taskPool t).state = .zombie ∧
        k' = { k with sched := s', term := term }

/-- `cmd_table[i].func(arg)`. -/
def Func (k : Kernel) (editorMain : UInt64) (hidden : Hidden)
    (arg : Option Str) (k' : Kernel) : Command → Prop
  | .ls => k' = k.cmdLs hidden
  | .cd => k' = k.cmdCd hidden arg
  | .mkdir => k' = k.cmdMkdir hidden arg
  | .cat => k' = k.cmdCat hidden arg
  | .pwd => k' = k.cmdPwd
  | .clear => k' = k.cmdClear
  | .help => k' = k.cmdHelp
  | .touch => k' = k.cmdTouch hidden arg
  | .history => ∃ fuel, k.cmdHistory fuel = some k'
  | .rm => k' = k.cmdRm hidden arg
  | .edit => k.CmdEdit editorMain k'

end Kernel

/-! ## The loop -/

/-- `input[0] == '!' && strlen(input) > 1`. -/
def isRecall (line : Str) : Bool :=
  line.headD 0 == 0x21 && decide (1 < line.length)

/-- `int idx = input[1] - '1'`, if it is that of an entry. -/
def recalled (h : History) (line : Str) : Option Nat :=
  let idx := (line.getD 1 0).toInt8.toInt - 0x31
  if 0 ≤ idx ∧ idx < h.count then some idx.toNat else none

/-- The text up to its first space, and the text behind it. -/
def cmdName (text : Str) : Str := text.takeWhile (· ≠ Storage.space)

def cmdArg (text : Str) : Option Str :=
  if Storage.space ∈ text then
    some (text.dropWhile (· ≠ Storage.space)).tail
  else none

/-- What a round of the loop finds: what `stdin->read()` returns, what the
buffer held before, and what the commands read unwritten. -/
structure Input where
  reads : List UInt8
  buffer : Nat → UInt8
  hidden : Hidden

namespace Kernel

def prompt (k : Kernel) : Kernel :=
  k.say fun o => (o.str k.fs.currentPath).str (lit "> ")

/-- `std::cin >> input`, once the line has ended. -/
def readLine (k : Kernel) (input : Input) : Option (Str × Kernel) :=
  match LineInput.readLine ⟨input.buffer, 0, k.term⟩ input.reads with
  | (s, true) => some ((List.range s.i).map s.buffer, { k with term := s.term })
  | (_, false) => none

/-- A round of the loop up to `add_to_history`: the command, taken from the
history or as it was typed. -/
def Fetch (k : Kernel) (input : Input) (text : Str) (k' : Kernel) : Prop :=
  ∃ line read, k.prompt.readLine input = some (line, read) ∧
    ((isRecall line = false ∧ text = line ∧ k' = read) ∨
      (isRecall line = true ∧ ∃ i fuel, recalled read.history line = some i ∧
        read.history.entry fuel i = some text ∧ k' = read.sayLine text))

/-- A round of the loop that ends in its `continue`. -/
def Miss (k : Kernel) (input : Input) (k' : Kernel) : Prop :=
  ∃ line read, k.prompt.readLine input = some (line, read) ∧
    isRecall line = true ∧ recalled read.history line = none ∧
    k' = read.sayLine (lit "No such command in history.")

/-- The rest of a round. -/
def Execute (k : Kernel) (editorMain : UInt64) (hidden : Hidden) (text : Str)
    (k' : Kernel) : Prop :=
  ∃ fuel h, k.history.add fuel text = some h ∧
    match cmdTable.find? fun c => c.1 == cmdName text with
    | some c =>
        { k with history := h }.Func editorMain hidden (cmdArg text) k' c.2.1
    | none =>
        k' = if cmdName text = [] then { k with history := h }
          else { k with history := h }.say fun o =>
            ((o.str (lit "Unknown command: ")).str (cmdName text)).endl

/-- One round of the loop of `Shell::run`. -/
def Round (k : Kernel) (editorMain : UInt64) (input : Input) (k' : Kernel) :
    Prop :=
  (∃ text fetched, k.Fetch input text fetched ∧
    fetched.Execute editorMain input.hidden text k') ∨ k.Miss input k'

end Kernel

/-- What happens to the shell: a round of its loop, or an interrupt while it
waits for one, the timer's or that of a Ctrl+C. -/
inductive Event where
  | round (input : Input)
  | timer (rsp : UInt64)
  | ctrlC

def Kernel.Step (editorMain : UInt64) (k : Kernel) : Event → Kernel → Prop
  | .round input, k' => k.Round editorMain input k'
  | .timer rsp, k' => ∃ fuel s, k.sched.schedule fuel rsp = some s ∧
      k' = { k with sched := s }
  | .ctrlC, k' =>
      k' = { k with sched := k.sched.killTask k.sched.getForegroundTask }

end TermOS.Shell
