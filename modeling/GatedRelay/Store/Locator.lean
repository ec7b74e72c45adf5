import GatedRelay.Bytes.Hex
import GatedRelay.Text.Utf8

/-!
# Locators of databases

A database is named by a path, or by a locator: `file:`, perhaps `//` and the name of this host, a path, options behind
a question mark, and a number sign that ends it.  A byte may be written as a percent sign and two hexadecimal digits; a
zero byte ends the part that it stands in.  Without a path the database is a temporary one.
-/

set_option autoImplicit false

namespace GatedRelay

inductive OpenMode where
  | readOnly
  | readWrite
  | create
  /-- There is no file, and the database is lost when it is closed. -/
  | memory
  deriving DecidableEq

def OpenMode.rank : OpenMode → Nat
  | readOnly => 0
  | readWrite => 1
  | create => 2
  | memory => 3

/-- Whether an option may ask for a mode where another one was asked for before.  Memory is free to all. -/
def OpenMode.permits (before asked : OpenMode) : Bool := asked = .memory || asked.rank ≤ before.rank

def OpenMode.ofText? : String → Option OpenMode
  | "ro" => some .readOnly
  | "rw" => some .readWrite
  | "rwc" => some .create
  | "memory" => some .memory
  | _ => none

inductive FileSystem where
  | shared
  /-- Nothing is shared with other programs, so that changes cannot be logged beside a file. -/
  | alone
  | memory
  deriving DecidableEq

def FileSystem.ofText? : String → Option FileSystem
  | "unix" => some .shared
  | "unix-excl" => some .shared
  | "unix-none" => some .alone
  | "unix-dotfile" => some .alone
  | "memdb" => some .memory
  | _ => none

inductive LocatorError where
  | foreignHost (name : String)
  | unknownMode (name : String)
  | unknownCache (name : String)
  | forbiddenMode (name : String)
  | unknownSystem (name : String)
  deriving DecidableEq

def LocatorError.message : LocatorError → String
  | foreignHost name => s!"invalid uri authority: {name}"
  | unknownMode name => s!"no such access mode: {name}"
  | unknownCache name => s!"no such cache mode: {name}"
  | forbiddenMode name => s!"access mode not allowed: {name}"
  | unknownSystem name => s!"no such vfs: {name}"

structure Locator where
  path : Bytes
  mode : OpenMode
  system : FileSystem := .shared
  immutable : Bool := false

namespace Locator

def unescape : List Char → Bytes
  | [] => []
  | '%' :: high :: low :: rest =>
    match Hex.value? high, Hex.value? low with
    | some h, some l => UInt8.ofNat (16 * h + l) :: unescape rest
    | _, _ => Utf8.encode "%" ++ unescape (high :: low :: rest)
  | c :: rest => String.utf8EncodeChar c ++ unescape rest

def part (text : List Char) : Bytes := (unescape text).takeWhile (· ≠ 0)

def setting (text : List Char) : String × String :=
  let name := text.takeWhile (· ≠ '=')
  (Utf8.decodeReplacing (part name), Utf8.decodeReplacing (part (text.drop (name.length + 1))))

/-- The options of a locator.  One without a name is none. -/
def settings (text : List Char) : List (String × String) := ((text.splitOn '&').map setting).filter (·.1 ≠ "")

def askMode (mode : OpenMode) (value : String) : Except LocatorError OpenMode :=
  match OpenMode.ofText? value with
  | none => .error (.unknownMode value)
  | some asked => if mode.permits asked then .ok asked else .error (.forbiddenMode value)

def obey (mode : OpenMode) (s : String × String) : Except LocatorError OpenMode :=
  match s with
  | ("mode", value) => askMode mode value
  | ("cache", value) => if value ∈ ["shared", "private"] then .ok mode else .error (.unknownCache value)
  | _ => .ok mode

/-- The value of an option that may be given once. -/
def value? (settings : List (String × String)) (name : String) : Option String :=
  (settings.find? (·.1 = name)).map (·.2)

/-- Whether a value says yes, in words or as a number other than 0. -/
def affirms (value : String) : Bool :=
  value.toLower ∈ ["on", "yes", "true"] || (value.toList.takeWhile Char.isDigit).any (· ≠ '0')

def flag (settings : List (String × String)) (name : String) : Bool := (value? settings name).any affirms

/-- The system that options ask for, the last one that names it. -/
def askSystem (settings : List (String × String)) : Except LocatorError FileSystem :=
  match value? settings.reverse "vfs" with
  | none => .ok .shared
  | some name =>
    match FileSystem.ofText? name with
    | none => .error (.unknownSystem name)
    | some system => .ok system

def ofPath (text : List Char) (mode : OpenMode) : Except LocatorError Locator := do
  let text := text.takeWhile (· ≠ '#')
  let path := text.takeWhile (· ≠ '?')
  let settings := settings (text.drop (path.length + 1))
  let mode ← settings.foldlM obey mode
  let system ← askSystem settings
  return {
    path := part path
    mode := mode
    system := if system = .shared && flag settings "nolock" then .alone else system
    immutable := flag settings "immutable" }

def ofHost : List Char → OpenMode → Except LocatorError Locator
  | '/' :: '/' :: rest, mode =>
    let host := String.ofList (rest.takeWhile (· ≠ '/'))
    if host = "" || host = "localhost" then ofPath (rest.dropWhile (· ≠ '/')) mode else .error (.foreignHost host)
  | text, mode => ofPath text mode

def scheme : List Char := "file:".toList

/-- Read the name of a database, which is to be opened in a mode if the name does not say otherwise. -/
def ofText (text : String) (mode : OpenMode) : Except LocatorError Locator :=
  if scheme.isPrefixOf text.toList then ofHost (text.toList.drop scheme.length) mode
  else .ok { path := Utf8.encode text, mode := mode }

def isInMemory (l : Locator) : Bool :=
  l.mode = .memory || l.system = .memory || l.path = [] || l.path = Utf8.encode ":memory:"

def isWritable (l : Locator) : Bool := l.mode ≠ .readOnly && !l.immutable

end Locator

end GatedRelay
