import GatedRelay.Pair.Run
import GatedRelay.Relay.Socket

/-!
# Relays

A relay opens a pair for every usable record of its store.  A pair that is open stays open, whatever becomes of its
record; a record that is new is found by scanning the store again.  All pairs write to the one store.
-/

set_option autoImplicit false

namespace GatedRelay

structure RelayConfig where
  maxEngineers : Nat := 8
  /-- Milliseconds after which an idle connection is closed. -/
  idleTimeout : Nat := 10_000
  policy : UserPolicy := .replaceExisting
  secure : Bool := false

inductive RelayEntry where
  | opening
  | pairAdded (port1 port2 : UInt16)
  | pairsAdded (count : Nat)
  | pairNotAdded
  | scanFailed
  deriving DecidableEq

namespace RelayEntry

def level : RelayEntry → LogLevel
  | pairNotAdded => .warn
  | scanFailed => .warn
  | _ => .info

def text : RelayEntry → String
  | opening => "Opening sockets"
  | pairAdded port1 port2 => s!"Added port {port1.toNat}/{port2.toNat}"
  | pairsAdded count => s!"Added {count} ports"
  | pairNotAdded => "failed to add port pair"
  | scanFailed => "port reload failed"

def line (e : RelayEntry) : String := s!"{e.level.name} {e.text}"

end RelayEntry

structure BindError where
  port2 : UInt16
  socket : Socket
  deriving DecidableEq

def BindError.message (e : BindError) : String := s!"[{e.port2.toNat}] Failed to open {e.socket.describe}"

inductive Opening where
  | opened
  | skipped
  | failed (e : BindError)
  deriving DecidableEq

structure Relay where
  config : RelayConfig
  store : Service
  pairs : List Pair := []
  bound : List Socket := []
  /-- What the relay itself has logged, the latest first. -/
  journal : List RelayEntry := []

namespace Relay

def log (r : Relay) (entry : RelayEntry) : Relay := { r with journal := entry :: r.journal }

def pair? (r : Relay) (port2 : UInt16) : Option Pair := r.pairs.find? (·.port2 = port2)

/-- Open pairs by their ports, in the order of the engineer ports. -/
def ports (r : Relay) : List (UInt16 × UInt16) :=
  (r.pairs.map fun p => (p.port1, p.port2)).mergeSort fun a b => decide (a.2 ≤ b.2)

def newPair (r : Relay) (c : Credential) (port1 port2 : UInt16) : Pair :=
  { port1 := port1
    port2 := port2
    idleTimeout := r.config.idleTimeout
    slots := { maxEngineers := r.config.maxEngineers, policy := r.config.policy }
    key := SigningKey.ofCredential? c
    store := r.store }

def openPair (r : Relay) (taken : List Socket) (c : Credential) : Relay × Opening :=
  match c.ports? with
  | none => (r, .skipped)
  | some (port1, port2) =>
    if (r.pair? port2).isSome then (r, .skipped)
    else
      match Socket.bindEach (r.bound ++ taken) (Socket.ofPair port1 port2) with
      | .error s => (r, .failed ⟨port2, s⟩)
      | .ok sockets =>
        ({ r with
            pairs := r.pairs ++ [r.newPair c port1 port2]
            bound := r.bound ++ sockets }.log (.pairAdded port1 port2), .opened)

/-- Open the pairs of all records, up to the first that fails. -/
def openAll (r : Relay) (taken : List Socket) : List Credential → Relay × Option BindError
  | [] => (r, none)
  | c :: rest =>
    match r.openPair taken c with
    | (r, .failed e) => (r, some e)
    | (r, _) => r.openAll taken rest

/-- Open the pairs of all records that can be opened, and count them. -/
def openEach (r : Relay) (taken : List Socket) : List Credential → Relay × Nat
  | [] => (r, 0)
  | c :: rest =>
    match r.openPair taken c with
    | (r, .failed _) => (r.log .pairNotAdded).openEach taken rest
    | (r, .skipped) => r.openEach taken rest
    | (r, .opened) =>
      let (r, added) := r.openEach taken rest
      (r, added + 1)

/-- Scan the store for new records.  What cannot be opened now is tried again at the next scan. -/
def reload (r : Relay) (taken : List Socket) : Relay × Except StoreError Nat :=
  match r.store.loadAll with
  | .error e => (r, .error e)
  | .ok records =>
    let (r, added) := r.openEach taken records
    (if 0 < added then r.log (.pairsAdded added) else r, .ok added)

def rescan (r : Relay) (taken : List Socket) : Relay :=
  match r.reload taken with
  | (r, .error _) => r.log .scanFailed
  | (r, .ok _) => r

def step (r : Relay) (m : Moment) (port2 : UInt16) (e : Event) : Relay :=
  match r.pair? port2 with
  | none => r
  | some p =>
    let after := { p with store := r.store }.step m e
    { r with store := after.store, pairs := r.pairs.map fun q => if q.port2 = port2 then after else q }

def effectsSince (r earlier : Relay) : List (UInt16 × Effect) :=
  r.pairs.flatMap fun p =>
    let before := (earlier.pair? p.port2).getD { p with history := [] }
    (p.effectsSince before).map fun e => (p.port2, e)

/-- What the relay and its pairs have logged since an earlier state, the relay's own lines first. -/
def linesSince (r earlier : Relay) : List String :=
  (r.journal.take (r.journal.length - earlier.journal.length)).reverse.map (·.line)
    ++ (Effect.entries ((r.effectsSince earlier).map (·.2))).map (·.line)

def peer? (r : Relay) (port2 : UInt16) (id : SlotId) : Option Peer :=
  ((r.pair? port2).bind (·.slots.find? id)).map (·.peer)

def stepEach (r : Relay) (m : Moment) (e : Event) : Relay := r.pairs.foldl (fun r p => r.step m p.port2 e) r

/-- Quit every pair and then the store, so that nothing that a pair writes at its end is lost. -/
def shutdown (r : Relay) (m : Moment) : Relay :=
  let r := r.stepEach m .quit
  { r with store := r.store.quit, bound := [] }

end Relay

end GatedRelay
