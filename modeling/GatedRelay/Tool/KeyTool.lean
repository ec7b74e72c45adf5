import GatedRelay.Tool.Files
import GatedRelay.Tool.KeyCommand

/-!
# The key tool

Every action but the making of a database runs in one transaction.  It reports on standard output, or fails with one
line on standard error and leaves the database as it was.
-/

set_option autoImplicit false

namespace GatedRelay

structure Report where
  code : Nat
  output : String := ""
  errors : String := ""
  deriving DecidableEq

namespace Report

def success (lines : List String) : Report := { code := 0, output := String.join (lines.map (· ++ "\n")) }

def failure (text : String) : Report := { code := 1, errors := text ++ "\n" }

/-- A command line that cannot be understood.  What is said about it is left to the outer layer. -/
def misuse : Report := { code := 2 }

end Report

namespace KeyTool

open KeyCommand

def programVersion : String := "0.1.0"

def code : FileFault → Nat × String
  | .malformed (.forbiddenMode _) => (3, "Access permission denied")
  | .malformed _ => (1, "SQL error or missing database")
  | .unopened _ => (14, "Unable to open the database file")
  | .crippled => (14, "Unable to open the database file")
  | .readOnly => (8, "Attempt to write a readonly database")

def explain (e : StoreError) : String :=
  match e with
  | .database fault => s!"{e.message}: {fault.message}: Error code {(code fault).1}: {(code fault).2}"
  | _ => e.message

def request? : Action → Option Request
  | .initialise => none
  | .list => some .list
  | .convert => some .convertLegacy
  | .add port1 port2 name passphrase => some (.add port1 port2 name passphrase)
  | .remove port2 => some (.remove port2)
  | .setName port2 name => some (.setName port2 name)
  | .setPassphrase port2 passphrase => some (.setPassphrase port2 passphrase)
  | .setPort1 port2 port1 => some (.setPort1 port2 port1)
  | .resetTimestamp port2 => some (.resetTimestamp port2)

def phrase : Action → String
  | .add .. => "Added"
  | .remove _ => "Removed"
  | .setName .. => "Set name for"
  | .setPassphrase .. => "Set passphrase for"
  | .setPort1 .. => "Set port1 for"
  | .resetTimestamp _ => "Reset timestamp for"
  | _ => ""

def lines (action : Action) : Reply → List String
  | .found r => r.toList.map Credential.summary
  | .record r => [s!"{phrase action} {r.summary}"]
  | .records rs =>
    match action with
    | .convert =>
      rs.map (fun r => s!"Converted ID {r.port2.toInt}") ++ [s!"Converted {rs.length} records"]
    | _ => rs.map Credential.summary

/-- Whether an action has written to a database, though it may have left it as it was. -/
def wrote (action : Action) (before : Entries) (result : Except StoreError Reply × Entries) : Bool :=
  match action with
  | .initialise => false
  | .list => false
  | .convert => result.2 ≠ before
  | _ => result.1.toBool

def act (d : OpenDatabase) (action : Action) (request : Request) : Report × Entries :=
  if !d.writable && wrote action d.entries (request.perform d.entries) then
    (.failure (explain (.database .readOnly)), d.entries)
  else
    match ({ entries := d.entries } : Database).attempt request with
    | (.error e, after) => (.failure (explain e), after.entries)
    | (.ok reply, after) => (.success (lines action reply), after.entries)

def run (files : Files) (i : Invocation) : Report × Files :=
  match request? i.action with
  | none =>
    match files.create i.database with
    | (.ok _, files) => (.success [s!"Initialised {i.database}"], files)
    | (.error e, files) => (.failure s!"failed to create {i.database}: {explain e}", files)
  | some request =>
    match files.load i.database with
    | (.ok d, files) =>
      let (report, after) := act d i.action request
      (report, files.write d after)
    | (.error e, files) => (.failure (explain e), files)

def respond (files : Files) (arguments : List String) : Report × Files :=
  match parse arguments with
  | .accepted i => run files i
  | .help => (.success ["Manage relay signing keys"], files)
  | .version => (.success [s!"keydb {programVersion}"], files)
  | .misuse => (.misuse, files)

end KeyTool

end GatedRelay
