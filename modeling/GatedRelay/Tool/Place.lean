import GatedRelay.Text.Utf8

/-!
# Where paths lead

Paths are taken from the current directory, which has no directories in it.  There are two ways to follow one.  By name a
part that goes up takes back the part before it, whatever that is; by step every part has to be in a directory.
-/

set_option autoImplicit false

namespace GatedRelay

/-- The parts of a path are kept the last one first. -/
inductive Place where
  | below (down : List Bytes)
  /-- A directory in which the current one is, or a deeper one. -/
  | above
  | root (down : List Bytes)
  deriving DecidableEq

namespace Place

def slash : UInt8 := 0x2F

def here : Bytes := [0x2E]

def up : Bytes := [0x2E, 0x2E]

def parts (path : Bytes) : List Bytes := path.splitOn slash

def stays (part : Bytes) : Bool := part = [] || part = here

def start (path : Bytes) : Place := if path.head? = some slash then root [] else below []

def longestName : Nat := 255

/-- A link to the current directory, which every program has. -/
def link : List Bytes := ["cwd", "self", "proc"].map Utf8.encode

/-- Follow a part of a path by name, given which names are those of files here.  Nothing is in a file. -/
def follow (isFile : Bytes → Bool) (p : Place) (part : Bytes) : Option Place :=
  if stays part then some p
  else if part = up then
    match p with
    | below [] => some above
    | below (_ :: down) => some (below down)
    | above => some above
    | root down => some (root down.tail)
  else if part.length ≤ longestName then
    match p with
    | below [name] => if isFile name then none else some (below [part, name])
    | below down => some (below (part :: down))
    | above => none
    | root down => some (if part :: down = link then below [] else root (part :: down))
  else none

/-- Follow a part of a path by step.  Whatever is in the current directory cannot be gone through. -/
def enter (p : Place) (part : Bytes) : Option Place :=
  match p with
  | below (_ :: _) => none
  | p => p.follow (fun _ => false) part

/-- Where a path leads by name. -/
def named? (isFile : Bytes → Bool) (path : Bytes) : Option Place := (parts path).foldlM (follow isFile) (start path)

def longestPath : Nat := 4095

/-- Where a path leads by step. -/
def reached? (path : Bytes) : Option Place :=
  if path = [] || longestPath < path.length then none else (parts path).foldlM enter (start path)

/-- Directories that are sure to exist, by their one name. -/
def common : List Bytes :=
  ["bin", "dev", "etc", "home", "lib", "opt", "proc", "root", "run", "sys", "tmp", "usr", "var"].map Utf8.encode

def isDirectory : Place → Bool
  | below down => down = []
  | above => true
  | root down => down.all (· ∈ common) && down.length ≤ 1

def void : Place := root (["null", "dev"].map Utf8.encode)

def name? : Place → Option Bytes
  | below [name] => some name
  | _ => none

end Place

end GatedRelay
