import GatedRelay.Signing.Gate

/-!
# Connection slots

A slot is one peer's place in a port pair.  Its state only moves forward, from a transport handshake over the first
frame to the end; peers without a handshake are established when they are admitted.
-/

set_option autoImplicit false

namespace GatedRelay

abbrev SlotId := Nat

abbrev Peer := String

inductive Role where
  | user
  | engineer
  deriving DecidableEq

def Role.connection : Role → String
  | user => "conn1"
  | engineer => "conn2"

inductive Transport where
  | udp
  | tcp
  | webSocket
  | secureWebSocket
  deriving DecidableEq

namespace Transport

def label : Transport → String
  | udp => ""
  | tcp => "TCP "
  | webSocket => "WS "
  | secureWebSocket => "WSS "

def hasHandshake : Transport → Bool
  | webSocket => true
  | secureWebSocket => true
  | _ => false

end Transport

inductive SlotState where
  | new
  | established
  | active
  | closed
  deriving DecidableEq

namespace SlotState

def canEnter : SlotState → SlotState → Bool
  | new, established => true
  | established, active => true
  | closed, _ => false
  | _, closed => true
  | _, _ => false

def rank : SlotState → Nat
  | new => 0
  | established => 1
  | active => 2
  | closed => 3

theorem rank_lt_of_canEnter {s t : SlotState} (h : s.canEnter t = true) : s.rank < t.rank := by
  cases s <;> cases t <;> simp_all [canEnter, rank]

end SlotState

structure Slot where
  id : SlotId
  role : Role
  transport : Transport
  peer : Peer
  state : SlotState
  gate : Gate := .new
  lastActivity : Nat
  messages : UInt32 := 0
  lastNotice : Option Nat := none

namespace Slot

def trust (s : Slot) : Trust := s.gate.trust

def isOpen (s : Slot) : Bool := s.state = .established || s.state = .active

/-- Move on to a state if the present one allows it. -/
def advance (s : Slot) (next : SlotState) : Slot := if s.state.canEnter next then { s with state := next } else s

def touch (s : Slot) (now : Nat) : Slot := { s with lastActivity := now }

def idleFor (s : Slot) (now : Nat) : Nat := now - s.lastActivity

/-- Count a batch of received frames, up to the last value that the tally can hold.  The number of frames in the batch is
taken as a word of the tally's width. -/
def count (s : Slot) (n : Nat) : Slot :=
  { s with messages := UInt32.ofNat (min (s.messages.toNat + n % UInt32.size) (UInt32.size - 1)) }

def noticeDue (s : Slot) (now interval : Nat) : Bool :=
  match s.lastNotice with
  | none => true
  | some last => interval ≤ now - last

def markNotice (s : Slot) (now : Nat) : Slot := { s with lastNotice := some now }

end Slot

end GatedRelay
