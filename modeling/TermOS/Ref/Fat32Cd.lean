import TermOS.Ref.Fat32

/-!
# `fat32_cd`, statement by statement (`fat32.cpp`)

`Fs.cd` cuts the path into its components first and takes an error for
nothing but a message. Here is the function with the loops and the variables
that it has: `path` moves on in three places, `old_cluster` and `old_path` are
put back where it gives up, and each loop takes a unit of fuel for a round.
-/

namespace TermOS.Storage

/-- `while (*path == '/') path++;`. -/
def skipSlashes : Nat → Str → Option Str
  | 0, _ => none
  | fuel + 1, path =>
      if path.headD 0 = slash then skipSlashes fuel path.tail else some path

/-- The loop that copies to `component`, and `path += i` behind it. -/
def copyComponent : Nat → Str → Str → Option (Str × Str)
  | 0, _, _ => none
  | fuel + 1, component, path =>
      if path.headD 0 ≠ 0 ∧ path.headD 0 ≠ slash then
        copyComponent fuel (component ++ [path.headD 0]) path.tail
      else some (component, path)

/-- The state when `fat32_cd` returns: where `path` points to then, and
whether it has given up. -/
structure CdResult where
  fs : Fs
  path : Str
  failed : Bool

namespace Fs

/-- `current_dir_cluster = old_cluster; strcpy(current_path, old_path);`. -/
def restore (fs : Fs) (oldCluster : UInt32) (oldPath : Str) : Fs :=
  { fs with currentDirCluster := oldCluster, currentPath := oldPath }

/-- What the loop does with a component, and whether it returns there. -/
def cdRound (fs : Fs) (oldCluster : UInt32) (oldPath component : Str) :
    Fs × Bool :=
  if component = lit ".." then
    let parent := fs.getParentCluster
    if parent ≠ 0 then
      ({ fs with
          currentDirCluster := parent
          currentPath := parentPath fs.currentPath }, false)
    else (fs, false)
  else if component = lit "." then (fs, false)
  else
    match fs.findFile component with
    | none =>
        ((fs.restore oldCluster oldPath).errln
          (lit "Directory not found: " ++ component), true)
    | some entry =>
        if entry.isDirectory then
          ({ fs with
              currentDirCluster := entry.cluster
              currentPath := childPath fs.currentPath component }, false)
        else
          ((fs.restore oldCluster oldPath).errln
            (component ++ lit " is not a directory!"), true)

/-- `while (*path != '\0')`. -/
def cdWhile (oldCluster : UInt32) (oldPath : Str) :
    Nat → Fs → Str → Option CdResult
  | 0, _, _ => none
  | fuel + 1, fs, path =>
      if path.headD 0 = 0 then some ⟨fs, path, false⟩
      else
        match skipSlashes (fuel + 1) path with
        | none => none
        | some path =>
            if path.headD 0 = 0 then some ⟨fs, path, false⟩
            else
              match copyComponent (fuel + 1) [] path with
              | none => none
              | some (component, path) =>
                  match fs.cdRound oldCluster oldPath component with
                  | (fs, true) => some ⟨fs, path, true⟩
                  | (fs, false) => cdWhile oldCluster oldPath fuel fs path

def cdExec (fuel : Nat) (fs : Fs) (path : Str) : Option CdResult :=
  let oldCluster := fs.currentDirCluster
  let oldPath := fs.currentPath
  if path.headD 0 = slash then
    let fs := { fs with currentDirCluster := 2, currentPath := [slash] }
    if path.tail.headD 0 = 0 then some ⟨fs, path.tail, false⟩
    else cdWhile oldCluster oldPath fuel fs path.tail
  else cdWhile oldCluster oldPath fuel fs path

end Fs

end TermOS.Storage
