import GatedRelay.Pair.Forwarding
import GatedRelay.Slot.Outbox

/-!
# Runs of a pair

What can happen to a pair, one event at a time, and what its peers get to see of it: every queued message is offered to
the outbox of its slot.
-/

set_option autoImplicit false

namespace GatedRelay

inductive Event where
  | connect (role : Role) (transport : Transport) (peer : Peer)
  | established (slot : SlotId)
  | frames (slot : SlotId) (frames : List Frame)
  | datagram (role : Role) (peer : Peer) (frames : List Frame)
  | disconnected (slot : SlotId)
  | sweep
  | quit
  | storeWrite (request : Request)
  /-- Somebody changes what is stored without asking the store. -/
  | storeChange (change : Entries → Entries)
  | storeQuit

namespace Pair

def handle (p : Pair) (m : Moment) : Event → Pair
  | .connect role transport peer => (p.connect m role transport peer).1
  | .established id => p.established m id
  | .frames id frames => p.handleFrames m id frames
  | .datagram role peer frames => p.datagram m role peer frames
  | .disconnected id => p.closeSlot id
  | .sweep => p.sweep m
  | .quit => p.shutdown
  | .storeWrite request => { p with store := p.store.post request }
  | .storeChange change => { p with store := p.store.outside change }
  | .storeQuit => { p with store := p.store.quit }

/-- One event.  A pair that has quit does nothing any more, though its store may change. -/
def step (p : Pair) (m : Moment) (e : Event) : Pair :=
  if p.live then p.handle m e
  else
    match e with
    | .storeWrite request => { p with store := p.store.post request }
    | .storeChange change => { p with store := p.store.outside change }
    | .storeQuit => { p with store := p.store.quit }
    | _ => p

def run (p : Pair) (events : List (Moment × Event)) : Pair := events.foldl (fun p e => p.step e.1 e.2) p

/-- Effects that came after an earlier state of the same run, oldest first. -/
def effectsSince (p earlier : Pair) : List Effect :=
  (p.history.take (p.history.length - earlier.history.length)).reverse

end Pair

def Effect.openedSlot? (effects : List Effect) : Option SlotId :=
  effects.findSome? fun
    | .opened id => some id
    | _ => none

def Effect.entries (effects : List Effect) : List LogEntry :=
  effects.filterMap fun
    | .logged entry => some entry
    | _ => none

namespace Outboxes

def defaultCapacity : Nat := 256

def apply (capacity : Nat) (o : Outboxes) : Effect → Outboxes
  | .opened id => o.add id capacity
  | .queued id message => o.offer id message
  | .released id => o.modify id (·.finish)
  | .logged _ => o

def applyEach (capacity : Nat) (o : Outboxes) (effects : List Effect) : Outboxes :=
  effects.foldl (apply capacity) o

end Outboxes

end GatedRelay
