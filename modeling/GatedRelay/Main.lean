import GatedRelay.Relay.Start
import GatedRelay.Tool.Dump
import GatedRelay.Tool.RelayCommand

/-!
# The command line

The key tool, on databases in the current directory.  Behind the word `relay` the options of a relay can be tried out:
the program has no sockets, and shows which pairs a relay would open on its database.
-/

set_option autoImplicit false

namespace GatedRelay.CommandLine

def readText? (path : String) : IO (Option String) := do
  try
    return some (← IO.FS.readFile path)
  catch _ =>
    return none

def fileName (name : Bytes) : String := Utf8.decodeReplacing name

def openFiles (path : String) : IO Files := do
  let .ok l := Locator.ofText path .create | return {}
  let some name := (Place.named? (fun _ => false) l.path).bind Place.name? | return {}
  let some text ← readText? (fileName name) | return {}
  let some entries := Entries.ofDump? text | throw (IO.userError s!"{path} is not a database")
  return ({} : Files).put name entries

def saveFiles (files : Files) : IO Unit :=
  files.databases.forM fun (name, entries) => IO.FS.writeFile (fileName name) entries.dump

def say (report : Report) (usage : String) : IO UInt32 := do
  IO.print report.output
  IO.eprint report.errors
  if report = Report.misuse then
    IO.eprintln usage
  return UInt32.ofNat report.code

def runKeyTool (arguments : List String) : IO UInt32 := do
  let before ← match KeyCommand.parse arguments with
    | .accepted i => openFiles i.database
    | _ => pure {}
  let (report, after) := KeyTool.respond before arguments
  saveFiles after
  say report "usage: [--keydb FILE] initialise|list|convert|add|remove|setname|setpass|setport1|resettimestamp VALUES"

def readFile? (path : Option String) : IO (Option TextFile) :=
  path.mapM fun p => return ⟨p, ← readText? p⟩

def tryRelay (arguments : List String) : IO UInt32 := do
  match RelayCommand.parse arguments with
  | .accepted o =>
    let (.ok d, _) := (← openFiles o.database).load o.database
      | say (.failure s!"Error: failed to open key database {o.database}") ""
    let identity := Identity.configured (← readFile? o.certificate) (← readFile? o.privateKey)
    let (relay, failure) := Relay.start o.config identity { database := { entries := d.entries } } []
    relay.journal.reverse.forM fun entry => IO.eprintln entry.line
    match failure with
    | some e => say (.failure s!"Error: {e.message}") ""
    | none => return 0
  | _ => say ((RelayCommand.respond {} arguments).1.getD .misuse) "usage: relay [OPTIONS]"

end GatedRelay.CommandLine

def main (arguments : List String) : IO UInt32 :=
  match arguments with
  | "relay" :: rest => GatedRelay.CommandLine.tryRelay rest
  | _ => GatedRelay.CommandLine.runKeyTool arguments
