import GatedRelay.Pair.Basic

/-!
# Accounting for closed slots

A slot that leaves the table is logged and its messages are added to the stored record.  The clock of the key is
written when it has moved since the last time, which happens after a good frame and after the last engineer has left.
-/

set_option autoImplicit false

namespace GatedRelay.Pair

/-- Write the clock if it is ahead of what was written last. -/
def saveClock (p : Pair) : Pair :=
  match p.key with
  | none => p
  | some k =>
    if k.clock ≤ p.savedClock then p
    else { p.post (.advanceTimestamp p.recordPort k.clock) with savedClock := k.clock }

def finishSlot (p : Pair) (s : Slot) : Pair :=
  let p := (p.emit (.released s.id)).log (.closed s.role s.transport)
  match s.role with
  | .user => p.post (.recordSession p.recordPort s.messages 0 true)
  | .engineer =>
    let p := p.post (.recordSession p.recordPort 0 s.messages false)
    if p.slots.engineerCount = 0 then p.saveClock else p

/-- Close a slot.  An id without a slot is ignored. -/
def closeSlot (p : Pair) (id : SlotId) : Pair :=
  match p.slots.close id with
  | (_, none) => p
  | (slots, some s) => { p with slots := slots }.finishSlot s

def closeSlots (p : Pair) (ids : List SlotId) : Pair := ids.foldl closeSlot p

/-- Close what has been idle for too long.  While engineers stay, the clock follows the time of day. -/
def sweep (p : Pair) (m : Moment) : Pair :=
  let p := p.closeSlots (p.slots.expired m.now p.idleTimeout)
  if 0 < p.slots.engineerCount then { p with key := p.key.map (·.observe m.clock) } else p

/-- Take the slots out of the table, account for them in this order, and stop. -/
def shutdownIn (p : Pair) (ids : List SlotId) : Pair :=
  let (slots, closed) := p.slots.closeEach ids
  { (closed.foldl finishSlot { p with slots := slots }).saveClock with live := false }

def shutdown (p : Pair) : Pair := p.shutdownIn p.slots.ids

end GatedRelay.Pair
