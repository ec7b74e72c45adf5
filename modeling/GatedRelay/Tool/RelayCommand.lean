import GatedRelay.Relay.Basic
import GatedRelay.Identity
import GatedRelay.Address.Basic
import GatedRelay.Tool.KeyTool

/-!
# The command line of the relay

Options only, each at most once, and a certificate only together with its private key.
-/

set_option autoImplicit false

namespace GatedRelay

/-- How a relay is to run.  Intervals are in seconds. -/
structure RelayOptions where
  database : String := "keys.db"
  bind : String := "0.0.0.0"
  maxEngineers : Nat := 8
  idleTimeout : UInt64 := 10
  userPolicy : UserPolicy := .replaceExisting
  reloadInterval : UInt64 := 5
  certificate : Option String := none
  privateKey : Option String := none

/-- The configuration for pairs, in milliseconds. -/
def RelayOptions.config (o : RelayOptions) : RelayConfig :=
  { maxEngineers := o.maxEngineers, idleTimeout := 1000 * o.idleTimeout.toNat, policy := o.userPolicy }

namespace RelayCommand

inductive Setting where
  | database
  | bind
  | maxEngineers
  | idleTimeout
  | userPolicy
  | reloadInterval
  | certificate
  | privateKey
  deriving DecidableEq

def settingOf? : String → Option Setting
  | "keydb" => some .database
  | "bind" => some .bind
  | "max-engineers" => some .maxEngineers
  | "idle-timeout" => some .idleTimeout
  | "user-policy" => some .userPolicy
  | "reload-interval" => some .reloadInterval
  | "tls-cert" => some .certificate
  | "tls-key" => some .privateKey
  | _ => none

def path? (text : String) : Option String := if text.isEmpty then none else some text

def policy? : String → Option UserPolicy
  | "replace" => some .replaceExisting
  | "reject" => some .rejectNew
  | _ => none

def set? (o : RelayOptions) (value : String) : Setting → Option RelayOptions
  | .database => (path? value).map fun v => { o with database := v }
  | .bind => (Address.parse? value).map fun _ => { o with bind := value }
  | .maxEngineers => (Decimal.uint64? value).map fun v => { o with maxEngineers := v.toNat }
  | .idleTimeout => (Decimal.uint64? value).map fun v => { o with idleTimeout := v }
  | .userPolicy => (policy? value).map fun v => { o with userPolicy := v }
  | .reloadInterval => (Decimal.uint64? value).map fun v => { o with reloadInterval := v }
  | .certificate => (path? value).map fun v => { o with certificate := some v }
  | .privateKey => (path? value).map fun v => { o with privateKey := some v }

structure Progress where
  options : RelayOptions := {}
  given : List Setting := []

def Progress.enter? (p : Progress) (setting : Setting) (value : String) : Option Progress :=
  if setting ∈ p.given then none
  else (set? p.options value setting).map fun o => ⟨o, setting :: p.given⟩

def finish (p : Progress) : Parsed RelayOptions :=
  if p.options.certificate.isSome = p.options.privateKey.isSome then .accepted p.options else .misuse

/-- The value of a one-letter option that is written behind the letter. -/
def attached (letters : List Char) : String :=
  match letters with
  | '=' :: value => String.ofList value
  | value => String.ofList value

def read (p : Progress) : List String → Parsed RelayOptions
  | [] => finish p
  | argument :: rest =>
    let enter (setting : Setting) (value : String) (rest : Progress → Parsed RelayOptions) : Parsed RelayOptions :=
      match p.enter? setting value with
      | none => .misuse
      | some p => rest p
    match Word.ofArgument argument with
    | .plain _ => .misuse
    | .endOfOptions => if rest.isEmpty then finish p else .misuse
    | .short ('h' :: _) => .help
    | .short ('V' :: _) => .version
    | .short ['b'] =>
      match rest with
      | value :: rest => if Word.isValue false value then enter .bind value fun p => read p rest else .misuse
      | [] => .misuse
    | .short ('b' :: letters) => enter .bind (attached letters) fun p => read p rest
    | .short _ => .misuse
    | .long "help" none => .help
    | .long "version" none => .version
    | .long name value =>
      match settingOf? name, value with
      | none, _ => .misuse
      | some setting, some value => enter setting value fun p => read p rest
      | some setting, none =>
        match rest with
        | value :: rest => if Word.isValue false value then enter setting value fun p => read p rest else .misuse
        | [] => .misuse

def parse (arguments : List String) : Parsed RelayOptions := read {} arguments

def file (files : Files) (path : String) : TextFile := ⟨path, files.text? path⟩

/-- Load the identity that options ask for.  A directory can be opened, but nothing is read from it. -/
def identity (files : Files) (o : RelayOptions) : Except IdentityError (Option Identity) :=
  match o.certificate with
  | some certificate =>
    if Files.isDirectory certificate then .error (.certificateMalformed certificate)
    else Identity.configured (some (file files certificate)) (o.privateKey.map (file files))
  | none => Identity.configured none (o.privateKey.map (file files))

/-- Start a relay up to the point where it serves: what it reports if it does not get there, and the files after it. -/
def start (files : Files) (o : RelayOptions) : Option Report × Files :=
  match files.load o.database with
  | (.error _, files) => (some (.failure s!"Error: failed to open key database {o.database}"), files)
  | (.ok _, files) =>
    match identity files o with
    | .error e => (some (.failure s!"Error: {e.message}"), files)
    | .ok _ => (none, files)

def respond (files : Files) (arguments : List String) : Option Report × Files :=
  match parse arguments with
  | .misuse => (some .misuse, files)
  | .help => (some (.success ["Credential-gated telemetry relay with signed engineer access"]), files)
  | .version => (some (.success [s!"keyrelay {KeyTool.programVersion}"]), files)
  | .accepted o => start files o

end RelayCommand

end GatedRelay
