import GatedRelay.Store.Database
import GatedRelay.Store.Image
import GatedRelay.Tool.Place

/-!
# Database files

The databases of one directory, by name.  A database that is said to be there is only opened if its name leads to
something as a path, even where it is a locator.  Opening a file for writing clears away what was left beside it.
-/

set_option autoImplicit false

namespace GatedRelay

structure Files where
  databases : List (Bytes × Entries) := []

structure OpenDatabase where
  name : Option Bytes
  entries : Entries
  writable : Bool

namespace Files

def get? (f : Files) (name : Bytes) : Option Entries := (f.databases.find? (·.1 = name)).map (·.2)

def put (f : Files) (name : Bytes) (entries : Entries) : Files :=
  ⟨(name, entries) :: f.databases.filter (·.1 ≠ name)⟩

def place? (path : String) : Option Place := Place.reached? (Utf8.encode path)

def find? (f : Files) (path : String) : Option Entries := ((place? path).bind Place.name?).bind f.get?

def isDirectory (path : String) : Bool := (place? path).any Place.isDirectory

def text? (f : Files) (path : String) : Option String :=
  if place? path = some Place.void then some "" else (f.find? path).map fun e => Utf8.decodeReplacing e.image

def companions : List Bytes := ["-journal", "-wal", "-shm"].map Utf8.encode

/-- The most bytes that the name of a database can have, so that files can stand beside it. -/
def longestName : Nat := Place.longestName - 8

def clear (f : Files) (name : Bytes) : Files :=
  ⟨f.databases.filter fun d => !(companions.map (name ++ ·)).contains d.1⟩

def openFile (f : Files) (l : Locator) (name : Bytes) (entries : Entries) (isNew : Bool) :
    Except FileFault OpenDatabase × Files :=
  if longestName < name.length || !isNew && l.system = .alone then (.error .crippled, f)
  else if isNew && !l.isWritable then (.error .readOnly, f)
  else (.ok ⟨some name, entries, l.isWritable⟩, if l.isWritable then f.clear name else f)

def openLocator (f : Files) (text : String) (l : Locator) : Except FileFault OpenDatabase × Files :=
  if l.isInMemory then
    if l.isWritable then (.ok ⟨none, .empty, true⟩, f) else (.error .readOnly, f)
  else
    match (Place.named? (fun name => (f.get? name).isSome) l.path).bind Place.name? with
    | none => (.error (.unopened text), f)
    | some name =>
      match f.get? name with
      | some entries => f.openFile l name entries false
      | none =>
        if l.mode = .create then (f.put name .empty).openFile l name .empty true else (.error (.unopened text), f)

def openNamed (f : Files) (name : String) (mode : OpenMode) : Except StoreError OpenDatabase × Files :=
  match Locator.ofText name mode with
  | .error e => (.error (.database (.malformed e)), f)
  | .ok l =>
    let (result, f) := f.openLocator name l
    (result.mapError .database, f)

def load (f : Files) (path : String) : Except StoreError OpenDatabase × Files :=
  if (f.find? path).isNone && !isDirectory path then (.error (.databaseMissing path), f)
  else f.openNamed path .readWrite

/-- Open a database, and make it where there is none. -/
def create (f : Files) (path : String) : Except StoreError OpenDatabase × Files := f.openNamed path .create

/-- Write to an open database.  In memory nothing stays. -/
def write (f : Files) (d : OpenDatabase) (entries : Entries) : Files :=
  match d.name with
  | some name => f.put name entries
  | none => f

end Files

end GatedRelay
