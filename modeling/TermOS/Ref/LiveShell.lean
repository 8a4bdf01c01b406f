import TermOS.Lib.CString
import TermOS.Ref.KeyInput
import TermOS.Ref.Shell

/-!
# The shell behind the keyboard (`tsh.cpp`, `iostream.cpp`, `idt.cpp`)

`Shell::run` with the interrupts that feed it: the loop asks for a line, the
reader takes it from the ring, one character after the other, and the rest of
the round acts on it. Interrupts come between any two steps of the reader. What
acts on a line, `edit` apart, neither reads the ring nor the modifiers, so an
interrupt that comes meanwhile is one that comes in front of it or behind it.
The screen is that of the reader; what else the kernel holds is as it was when
the line was asked for, but for the scheduler, which two of the interrupts call.

There is no step where the code would leave what it has: the reader stops when
`input` is full, and a text longer than a row of the history is not executed.
Nor is `edit`, which hands the ring to another reader.
-/

namespace TermOS.Shell

open TermOS.Lib
open TermOS.Console (KeyInput Kbd View)
open TermOS.Storage (Str lit)

namespace Kernel

/-- The text that a line has the shell execute. -/
def StandsFor (k : Kernel) (line text : Str) : Prop :=
  (isRecall line = false ∧ text = line) ∨
    (isRecall line = true ∧ ∃ i fuel,
      recalled k.history line = some i ∧ k.history.entry fuel i = some text)

/-- What `Shell::run` does with a line. -/
def Answer (k : Kernel) (editorMain : UInt64) (hidden : Hidden) (line : Str)
    (k' : Kernel) : Prop :=
  (isRecall line = false ∧ k.Execute editorMain hidden line k') ∨
    (isRecall line = true ∧ ∃ i fuel text,
      recalled k.history line = some i ∧ k.history.entry fuel i = some text ∧
        (k.sayLine text).Execute editorMain hidden text k') ∨
    (isRecall line = true ∧ recalled k.history line = none ∧
      k' = k.sayLine (lit "No such command in history."))

end Kernel

/-- The length of `input`. -/
abbrev inputSize : Nat := 128

/-- A text that fits its row of the history and does not run `edit`. -/
def Followed (text : Str) : Prop :=
  text.length < entrySize ∧ cmdName text ≠ lit "edit"

/-- The kernel in front of the prompt, and the reader behind it. -/
structure LiveShell where
  kernel : Kernel
  reader : KeyInput

namespace LiveShell

inductive Event where
  /-- IRQ1; `dropped` if its character finds the ring full. -/
  | key (scancode : UInt8) (beyond : Int → UInt16) (dropped : Bool)
  /-- IRQ0. -/
  | timer (rsp : UInt64)
  /-- The reader goes on. -/
  | read
  /-- The line is complete and is acted on; `buffer` is `input` behind it. -/
  | answer (hidden : Hidden) (buffer : Nat → UInt8)

/-- What the reader has of an event. -/
def Event.input : Event → Option KeyInput.Event
  | key scancode beyond dropped => some (.key scancode beyond dropped)
  | timer _ => some .timer
  | read => some .read
  | answer _ _ => none

/-- The prompt is printed and a line asked for. -/
def ask (k : Kernel) (view : View) (kbd : Kbd) (buffer : Nat → UInt8) :
    LiveShell :=
  ⟨k, .start { view with term := k.prompt.term } kbd buffer⟩

/-- The kernel with what is on the screen. -/
def shown (s : LiveShell) : Kernel :=
  { s.kernel with term := s.reader.view.term }

/-- The line in the buffer. -/
def line (s : LiveShell) : Str := CString.firstBytes s.reader.buffer s.reader.i

/-- What `irq1_handler` does to the tasks. -/
def afterKey (s : LiveShell) (scancode : UInt8) : Kernel :=
  let k := s.kernel
  match (s.reader.view.keys.irq1Handler scancode).2 with
  | .killForeground =>
      { k with sched := k.sched.killTask k.sched.getForegroundTask }
  | _ => k

def Step (editorMain : UInt64) (s : LiveShell) : Event → LiveShell → Prop
  | .key scancode beyond dropped, s' =>
      s.reader.Step (.key scancode beyond dropped) s'.reader ∧
        s'.kernel = s.afterKey scancode
  | .timer rsp, s' =>
      s.reader.Step .timer s'.reader ∧ ∃ fuel sched,
        s.kernel.sched.schedule fuel rsp = some sched ∧
        s'.kernel = { s.kernel with sched := sched }
  | .read, s' =>
      s.reader.i < inputSize ∧ s.reader.Step .read s'.reader ∧
        s'.kernel = s.kernel
  | .answer hidden buffer, s' =>
      s.reader.point = .ended ∧
        (∀ text, s.shown.StandsFor s.line text → Followed text) ∧
        ∃ k', s.shown.Answer editorMain hidden s.line k' ∧
          s' = ask k' s.reader.view s.reader.kbd buffer

end LiveShell

end TermOS.Shell
