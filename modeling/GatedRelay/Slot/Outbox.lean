import GatedRelay.Slot.Basic

/-!
# Outboxes

The messages that wait for one peer.  An outbox holds a limited number; what does not fit, or comes when the peer takes
nothing any more, is lost, and nobody waits.  It outlives its slot until the peer has taken what is left.
-/

set_option autoImplicit false

namespace GatedRelay

structure Outbox where
  capacity : Nat
  /-- Oldest first. -/
  queue : List Bytes := []
  /-- The peer's end is there. -/
  attended : Bool := true
  /-- The slot's end is there. -/
  fed : Bool := true

namespace Outbox

def hasRoom (b : Outbox) : Bool := b.attended && b.queue.length < b.capacity

def offer (b : Outbox) (message : Bytes) : Outbox :=
  if b.hasRoom then { b with queue := b.queue ++ [message] } else b

def take (b : Outbox) : List Bytes × Outbox := (b.queue, { b with queue := [] })

def abandon (b : Outbox) : Outbox := { b with queue := [], attended := false }

def finish (b : Outbox) : Outbox := { b with fed := false }

end Outbox

structure Outboxes where
  boxes : List (SlotId × Outbox) := []

namespace Outboxes

def find? (o : Outboxes) (id : SlotId) : Option Outbox := (o.boxes.find? (·.1 = id)).map (·.2)

def add (o : Outboxes) (id : SlotId) (capacity : Nat) : Outboxes := ⟨o.boxes ++ [(id, { capacity := capacity })]⟩

def modify (o : Outboxes) (id : SlotId) (f : Outbox → Outbox) : Outboxes :=
  ⟨o.boxes.map fun entry => if entry.1 = id then (entry.1, f entry.2) else entry⟩

def hasRoom (o : Outboxes) (id : SlotId) : Bool := (o.find? id).any (·.hasRoom)

def offer (o : Outboxes) (id : SlotId) (message : Bytes) : Outboxes := o.modify id (·.offer message)

def take (o : Outboxes) (id : SlotId) : List Bytes × Outboxes :=
  match o.find? id with
  | none => ([], o)
  | some b => (b.take.1, o.modify id fun _ => b.take.2)

end Outboxes

end GatedRelay
