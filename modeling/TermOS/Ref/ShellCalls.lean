import TermOS.Ref.Shell

/-!
# What the handlers pass to the driver (`tsh.cpp`)

The calls of functions of `Storage` that a handler makes, in their order, each
with the pointer it is given: `none` is the null pointer. A function of the
driver reads its string at once, so under a null pointer it reads what is at
address 0. The default of `cmd_cd` is the literal `"/"`.
-/

namespace TermOS.Shell

open TermOS.Storage (Str slash)

/-- The string that a function finds under the pointer it is given. -/
def Hidden.deref (hidden : Hidden) (p : Option Str) : Str :=
  p.getD hidden.atNull

inductive StorageCall where
  | ls
  | cd (path : Option Str)
  | mkdir (name : Option Str)
  | cat (filename : Option Str)
  | touch (filename : Option Str)
  | rm (filename : Option Str)

namespace StorageCall

/-- The argument, of a function that has one. -/
def pointer : StorageCall → Option (Option Str)
  | ls => none
  | cd p | mkdir p | cat p | touch p | rm p => some p

def run (hidden : Hidden) (k : Kernel) : StorageCall → Kernel
  | ls => k.say fun o => k.fs.ls o hidden.uninit
  | cd p => k.call (k.fs.cd (hidden.deref p))
  | mkdir p => k.call (k.fs.mkdir (hidden.deref p) hidden.uninit)
  | cat p =>
      k.after (k.fs.cat k.out (hidden.deref p) hidden.uninit hidden.beyond)
  | touch p => k.call (k.fs.touch (hidden.deref p) hidden.uninit)
  | rm p => k.call (k.fs.rm (hidden.deref p) hidden.uninit)

end StorageCall

/-- `if (!arg) { ...; return; } Storage::f(arg);`. -/
def guarded (f : Option Str → StorageCall) (arg : Option Str) :
    List StorageCall :=
  if arg = none then [] else [f arg]

/-- The calls of `func(arg)`. In `cmd_cd` the `return` is commented out. -/
def Command.storageCalls (arg : Option Str) : Command → List StorageCall
  | .ls => [.ls]
  | .cd => (if arg = none then [.cd (some [slash])] else []) ++ [.cd arg]
  | .mkdir => guarded .mkdir arg
  | .cat => guarded .cat arg
  | .touch => guarded .touch arg
  | .rm => guarded .rm arg
  | .pwd | .clear | .help | .history | .edit => []

/-- The calls of a round that executes this text. -/
def storageCalls (text : Str) : List StorageCall :=
  match cmdTable.find? fun c => c.1 == cmdName text with
  | some c => c.2.1.storageCalls (cmdArg text)
  | none => []

/-- The pointers it passes. -/
def pointers (text : Str) : List (Option Str) :=
  (storageCalls text).filterMap StorageCall.pointer

end TermOS.Shell
