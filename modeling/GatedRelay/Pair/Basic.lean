import GatedRelay.Frame.SetupSigning
import GatedRelay.Frame.StatusText
import GatedRelay.Slot.Table
import GatedRelay.Store.Service

/-!
# Port pairs

A port pair joins one user with its engineers.  Its state holds the slots of its peers, the signing key, and what is
needed to log refusals once and to write the clock only when it has moved.  Everything that a pair does besides
changing its state is an effect: a message put into a slot's outbox, a line for the log, a slot that opens or closes.
-/

set_option autoImplicit false

namespace GatedRelay

inductive LogLevel where
  | info
  | warn
  deriving DecidableEq

def LogLevel.name : LogLevel → String
  | info => "INFO"
  | warn => "WARN"

inductive LogEntry where
  | connected (role : Role) (transport : Transport) (peer : Peer)
  | closed (role : Role) (transport : Transport)
  | refused (refusal : Refusal) (transport : Transport)
  | goodSignature
  | problem (verdict : Verdict)
  | keyReplaced
  | keyNotLoaded
  | keyNotStored
  | writeDropped
  deriving DecidableEq

namespace LogEntry

def level : LogEntry → LogLevel
  | connected .. => .info
  | closed .. => .info
  | refused .. => .warn
  | goodSignature => .info
  | problem verdict => if verdict.isRejection then .warn else .info
  | keyReplaced => .info
  | keyNotLoaded => .warn
  | keyNotStored => .warn
  | writeDropped => .warn

def text : LogEntry → String
  | connected role transport peer => s!"have {transport.label}{role.connection} from {peer}"
  | closed role transport => s!"Closed connection {transport.label}{role.connection}"
  | refused .engineerLimit transport => s!"Engineer connection refused: {transport.label}limit reached"
  | refused .userTaken transport => s!"User connection refused: {transport.label}user already connected"
  | goodSignature => "Got good signature"
  | problem verdict => verdict.notice?.getD ""
  | keyReplaced => "Set new signing key"
  | keyNotLoaded => "failed to load signing key"
  | keyNotStored => "failed to store new signing key"
  | writeDropped => "store queue full, dropping write"

def line (e : LogEntry) : String := s!"{e.level.name} {e.text}"

end LogEntry

inductive Effect where
  | opened (slot : SlotId)
  | queued (slot : SlotId) (message : Bytes)
  | released (slot : SlotId)
  | logged (entry : LogEntry)
  deriving DecidableEq

/-- When something happens: milliseconds since the start, and the time of day in ticks of a signing clock. -/
structure Moment where
  now : Nat
  clock : UInt64

structure Pair where
  port1 : UInt16
  port2 : UInt16
  /-- Milliseconds after which an idle slot is closed. -/
  idleTimeout : Nat
  slots : SlotTable
  key : Option SigningKey
  store : Service
  /-- Datagram peers whose refusal has been logged. -/
  refused : Recent Peer Unit 256 := .empty
  /-- System and component of the latest user heartbeat.  Notices claim to come from there. -/
  userSource : Option (UInt8 × UInt8) := none
  savedClock : UInt64 := 0
  live : Bool := true
  /-- Effects so far, the latest first. -/
  history : List Effect := []

namespace Pair

def defaultSource : UInt8 × UInt8 := (1, 1)

/-- Milliseconds between two notices to one engineer. -/
def noticeInterval : Nat := 2000

def recordPort (p : Pair) : Int32 := Int32.ofNat p.port2.toNat

def emit (p : Pair) (e : Effect) : Pair := { p with history := e :: p.history }

def log (p : Pair) (entry : LogEntry) : Pair := p.emit (.logged entry)

/-- Write to the store without waiting. -/
def post (p : Pair) (request : Request) : Pair :=
  if p.store.running then { p with store := p.store.post request } else p.log .writeDropped

end Pair

end GatedRelay
