import TermOS.Lib.CString
import TermOS.Ref.Fat32Access

/-!
# What `fat32_cd` stores in its buffers (`fat32.cpp`)

`current_path`, `component` and `old_path` have 256 bytes each, and nothing
counts them: `fat32_cd` copies with `strcpy` and `strcat` and with a loop of its
own. Here is the function once more as these stores, in their order. An index
is where the code says it is, inside the buffer or not.
-/

namespace TermOS.Storage

open TermOS.Lib

/-- The buffers for paths. -/
inductive PathBuffer where
  | currentPath
  | component
  | oldPath
  deriving DecidableEq, Repr

/-- `buffer[index] = value`. -/
structure PathStore where
  buffer : PathBuffer
  index : Int
  value : UInt8
  deriving DecidableEq, Repr

/-- `strcpy(&buffer[start], s)`. -/
def copyStores (buffer : PathBuffer) (start : Nat) (s : Str) : List PathStore :=
  (CString.storesAt start (s ++ [0])).map fun x => ⟨buffer, x.1, x.2⟩

/-- The cut at the last slash. -/
def parentStores (path : Str) : List PathStore :=
  if path.length > 1 then
    match lastSlash path with
    | some 0 => [⟨.currentPath, 1, 0⟩]
    | some k => [⟨.currentPath, k, 0⟩]
    | none => [⟨.currentPath, -1, 0⟩]
  else []

/-- `strcat(current_path, s)`. -/
def catStores (path s : Str) : List PathStore :=
  copyStores .currentPath path.length s

/-- `if (…) strcat(current_path, "/"); strcat(current_path, component);`. -/
def childStores (path component : Str) : List PathStore :=
  if path.getLastD 0 ≠ slash then
    catStores path [slash] ++ catStores (path ++ [slash]) component
  else catStores path component

namespace Fs

/-- One round of the loop. -/
def cdComponentStores (fs : Fs) (oldPath component : Str) : List PathStore :=
  copyStores .component 0 component ++
    if component = lit ".." then
      if fs.getParentCluster ≠ 0 then parentStores fs.currentPath else []
    else if component = lit "." then []
    else
      match fs.findFile component with
      | none => copyStores .currentPath 0 oldPath
      | some entry =>
          if entry.isDirectory then childStores fs.currentPath component
          else copyStores .currentPath 0 oldPath

def cdLoopStores : Fs → Str → List Str → List PathStore
  | _, _, [] => []
  | fs, oldPath, component :: rest =>
      fs.cdComponentStores oldPath component ++
        match fs.cdComponent component with
        | .error _ => []
        | .ok fs => cdLoopStores fs oldPath rest

/-- The stores of `fat32_cd`. -/
def cdStores (fs : Fs) (path : Str) : List PathStore :=
  copyStores .oldPath 0 fs.currentPath ++
    (if path.headD 0 = slash then copyStores .currentPath 0 [slash] else []) ++
    (fs.cdStart path).1.cdLoopStores fs.currentPath
      (components (fs.cdStart path).2)

end Fs

/-- The bytes of the three buffers. -/
abbrev PathBuffers := PathBuffer → Nat → UInt8

/-- A store in a buffer; what misses the buffer does not change it. -/
def PathBuffers.store (m : PathBuffers) (s : PathStore) : PathBuffers :=
  fun buffer =>
    if buffer = s.buffer ∧ 0 ≤ s.index ∧ s.index ≤ 255 then
      Function.update (m buffer) s.index.toNat s.value
    else m buffer

/-- The paths that `Shell::run` can pass on: its input buffer has 128 bytes. -/
abbrev ShellPath := { path : Str // path.length < 128 }

/-- A call of `fat32_cd` from the shell. -/
def Fs.CdStep (fs : Fs) (path : ShellPath) (fs' : Fs) : Prop :=
  fs' = fs.cd path.val

end TermOS.Storage
