import GatedRelay.Pair.Run

/-!
# A pair and its peers

A session is a pair together with the outboxes of its slots.  Besides the events of the pair, the peers act: one takes
what waits for it, or goes away and takes nothing any more.  Nothing of this reaches back into the pair.
-/

set_option autoImplicit false

namespace GatedRelay

structure Session where
  pair : Pair
  outboxes : Outboxes := {}

inductive Session.Action where
  /-- An event, with the capacity of the outboxes that it adds. -/
  | event (m : Moment) (e : Event) (capacity : Nat)
  | take (slot : SlotId)
  | abandon (slot : SlotId)

namespace Session

def effects (s : Session) (m : Moment) (e : Event) : List Effect := (s.pair.step m e).effectsSince s.pair

def happen (s : Session) (m : Moment) (e : Event) (capacity : Nat) : Session :=
  ⟨s.pair.step m e, s.outboxes.applyEach capacity (s.effects m e)⟩

def step (s : Session) : Action → Session × List Bytes
  | .event m e capacity => (s.happen m e capacity, [])
  | .take id => ({ s with outboxes := (s.outboxes.take id).2 }, (s.outboxes.take id).1)
  | .abandon id => ({ s with outboxes := s.outboxes.modify id (·.abandon) }, [])

def run (s : Session) : List Action → Session × List (List Bytes)
  | [] => (s, [])
  | a :: rest =>
    let (s, messages) := s.step a
    let (s, later) := s.run rest
    (s, messages :: later)

/-- Whether a slot's outbox is still read, but nothing more will come. -/
def isEnded (s : Session) (id : SlotId) : Bool := (s.outboxes.find? id).any fun b => b.attended && !b.fed

end Session

end GatedRelay
