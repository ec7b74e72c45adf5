import GatedRelay.Store.Request
import GatedRelay.Tool.Word

/-!
# The command line of the key tool

One action, with its values in order, and the database file as an option that may stand anywhere, at most once before
the action and once behind it; the one behind wins.  Port numbers may be negative where an action takes them.
-/

set_option autoImplicit false

namespace GatedRelay.KeyCommand

inductive Action where
  | initialise
  | list
  | convert
  | add (port1 port2 : Int32) (name passphrase : String)
  | remove (port2 : Int32)
  | setName (port2 : Int32) (name : String)
  | setPassphrase (port2 : Int32) (passphrase : String)
  | setPort1 (port2 port1 : Int32)
  | resetTimestamp (port2 : Int32)
  deriving DecidableEq

structure Invocation where
  database : String
  action : Action
  deriving DecidableEq

inductive Field where
  | port
  | text

inductive Value where
  | port (p : Int32)
  | text (s : String)

def Field.read? (argument : String) : Field → Option Value
  | port => (Decimal.int32? argument).map .port
  | text => some (.text argument)

/-- What an action takes: its fields, whether they may be negative numbers, and what they make. -/
structure Shape where
  fields : List Field
  negatives : Bool
  build : List Value → Option Action

def shape? : String → Option Shape
  | "initialise" => some ⟨[], false, fun _ => some .initialise⟩
  | "list" => some ⟨[], false, fun _ => some .list⟩
  | "convert" => some ⟨[], false, fun _ => some .convert⟩
  | "add" => some ⟨[.port, .port, .text, .text], true, fun
    | [.port p1, .port p2, .text name, .text passphrase] => some (.add p1 p2 name passphrase)
    | _ => none⟩
  | "remove" => some ⟨[.port], true, fun
    | [.port p2] => some (.remove p2)
    | _ => none⟩
  | "setname" => some ⟨[.port, .text], true, fun
    | [.port p2, .text name] => some (.setName p2 name)
    | _ => none⟩
  | "setpass" => some ⟨[.port, .text], true, fun
    | [.port p2, .text passphrase] => some (.setPassphrase p2 passphrase)
    | _ => none⟩
  | "setport1" => some ⟨[.port, .port], true, fun
    | [.port p2, .port p1] => some (.setPort1 p2 p1)
    | _ => none⟩
  | "resettimestamp" => some ⟨[.port], true, fun
    | [.port p2] => some (.resetTimestamp p2)
    | _ => none⟩
  | _ => none

structure Progress where
  database : Option String := none
  values : List Value := []
  missing : List Field
  escaped : Bool := false

def Progress.fill? (p : Progress) (argument : String) : Option Progress :=
  match p.missing with
  | [] => none
  | field :: missing =>
    (field.read? argument).map fun v => { p with values := p.values ++ [v], missing := missing }

/-- A database file has a name and is given once. -/
def setDatabase? (given : Option String) (name : String) : Option (Option String) :=
  if given.isSome || name.isEmpty then none else some (some name)

def readValues (negatives : Bool) (p : Progress) : List String → Parsed Progress
  | [] => if p.missing.isEmpty then .accepted p else .misuse
  | argument :: rest =>
    let fill (_ : Unit) : Parsed Progress :=
      match p.fill? argument with
      | none => .misuse
      | some p => readValues negatives p rest
    if p.escaped then fill ()
    else
      match Word.ofArgument argument with
      | .plain _ => fill ()
      | .endOfOptions => readValues negatives { p with escaped := true } rest
      | .short letters =>
        if negatives && Word.looksNumeric letters then fill ()
        else if letters.head? = some 'h' then .help
        else .misuse
      | .long "help" none => .help
      | .long "keydb" (some name) =>
        match setDatabase? p.database name with
        | none => .misuse
        | some database => readValues negatives { p with database := database } rest
      | .long "keydb" none =>
        match rest with
        | name :: rest =>
          if Word.isValue negatives name then
            match setDatabase? p.database name with
            | none => .misuse
            | some database => readValues negatives { p with database := database } rest
          else .misuse
        | [] => .misuse
      | .long .. => .misuse

def defaultDatabase : String := "keys.db"

def readAction (database : Option String) (name : String) (rest : List String) : Parsed Invocation :=
  match shape? name with
  | none => .misuse
  | some shape =>
    match readValues shape.negatives { missing := shape.fields } rest with
    | .help => .help
    | .version => .version
    | .misuse => .misuse
    | .accepted p =>
      match shape.build p.values with
      | none => .misuse
      | some action => .accepted ⟨(p.database <|> database).getD defaultDatabase, action⟩

def readHelp (topics : List String) : Parsed Invocation :=
  match topics with
  | [] => .help
  | [topic] => if (shape? topic).isSome || topic = "help" then .help else .misuse
  | _ => .misuse

def read (database : Option String) : List String → Parsed Invocation
  | [] => .misuse
  | argument :: rest =>
    match Word.ofArgument argument with
    | .plain "help" => readHelp rest
    | .plain name => readAction database name rest
    | .endOfOptions => .misuse
    | .short ('h' :: _) => .help
    | .short ('V' :: _) => .version
    | .short _ => .misuse
    | .long "help" none => .help
    | .long "version" none => .version
    | .long "keydb" (some name) =>
      match setDatabase? database name with
      | none => .misuse
      | some database => read database rest
    | .long "keydb" none =>
      match rest with
      | name :: rest =>
        if Word.isValue false name then
          match setDatabase? database name with
          | none => .misuse
          | some database => read database rest
        else .misuse
      | [] => .misuse
    | .long .. => .misuse

def parse (arguments : List String) : Parsed Invocation := read none arguments

end GatedRelay.KeyCommand
