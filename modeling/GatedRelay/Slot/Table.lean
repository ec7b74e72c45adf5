import GatedRelay.Slot.Basic

/-!
# The slots of a port pair

There is at most one user and a limited number of engineers.  What happens to a second user is a matter of policy; an
engineer beyond the limit is refused.  Slots stand in the order of their admission, and no id is given out twice.
-/

set_option autoImplicit false

namespace GatedRelay

/-- What becomes of a second user: it takes the first one's place, or it is refused. -/
inductive UserPolicy where
  | replaceExisting
  | rejectNew
  deriving DecidableEq

inductive Refusal where
  | engineerLimit
  | userTaken
  deriving DecidableEq

structure SlotTable where
  maxEngineers : Nat
  policy : UserPolicy
  slots : List Slot := []
  nextId : SlotId := 1

structure Admission where
  table : SlotTable
  id : SlotId
  replaced : Option Slot

namespace SlotTable

def find? (t : SlotTable) (id : SlotId) : Option Slot := t.slots.find? (·.id = id)

def user? (t : SlotTable) : Option Slot := t.slots.find? (·.role = .user)

def engineers (t : SlotTable) : List Slot := t.slots.filter (·.role = .engineer)

def engineerCount (t : SlotTable) : Nat := t.engineers.length

def isEmpty (t : SlotTable) : Bool := t.slots.isEmpty

def findUdp? (t : SlotTable) (role : Role) (peer : Peer) : Option Slot :=
  t.slots.find? fun s => s.role = role && s.transport = .udp && s.peer = peer

/-- Whether a peer could be admitted without anyone giving way. -/
def hasRoom (t : SlotTable) : Role → Bool
  | .engineer => t.engineerCount < t.maxEngineers
  | .user => t.user?.isNone

def modify (t : SlotTable) (id : SlotId) (f : Slot → Slot) : SlotTable :=
  { t with slots := t.slots.map fun s => if s.id = id then f s else s }

def resetGates (t : SlotTable) : SlotTable :=
  { t with slots := t.slots.map fun s => if s.role = .engineer then { s with gate := s.gate.reset } else s }

/-- Take a slot out of the table, in its closed state. -/
def close (t : SlotTable) (id : SlotId) : SlotTable × Option Slot :=
  match t.find? id with
  | none => (t, none)
  | some s => ({ t with slots := t.slots.filter (·.id ≠ id) }, some (s.advance .closed))

def closeEach (t : SlotTable) : List SlotId → SlotTable × List Slot
  | [] => (t, [])
  | id :: rest =>
    let (t, s) := t.close id
    let (t, closed) := t.closeEach rest
    (t, s.toList ++ closed)

def ids (t : SlotTable) : List SlotId := t.slots.map (·.id)

def drain (t : SlotTable) : SlotTable × List Slot := t.closeEach t.ids

def expired (t : SlotTable) (now timeout : Nat) : List SlotId :=
  (t.slots.filter fun s => timeout ≤ s.idleFor now).map (·.id)

def enter (t : SlotTable) (role : Role) (transport : Transport) (peer : Peer) (now : Nat) : SlotTable :=
  let s : Slot := {
    id := t.nextId
    role := role
    transport := transport
    peer := peer
    state := if transport.hasHandshake then .new else .established
    lastActivity := now }
  { t with slots := t.slots ++ [s], nextId := t.nextId + 1 }

def makeRoom (t : SlotTable) : Role → Except Refusal (SlotTable × Option Slot)
  | .engineer => if t.maxEngineers ≤ t.engineerCount then .error .engineerLimit else .ok (t, none)
  | .user =>
    match t.user?, t.policy with
    | none, _ => .ok (t, none)
    | some _, .rejectNew => .error .userTaken
    | some s, .replaceExisting => .ok (t.close s.id)

def accept (t : SlotTable) (role : Role) (transport : Transport) (peer : Peer) (now : Nat) :
    Except Refusal Admission :=
  match t.makeRoom role with
  | .error refusal => .error refusal
  | .ok (room, replaced) => .ok ⟨room.enter role transport peer now, t.nextId, replaced⟩

end SlotTable

end GatedRelay
