import GatedRelay.Pair.Account
import GatedRelay.Pair.Rekey

/-!
# Admitting peers

The first engineer of a pair makes it read its key again.  A peer with a handshake is logged when that is done and any
other one at once.  The refusal of a datagram peer is logged for the first of its datagrams.
-/

set_option autoImplicit false

namespace GatedRelay.Pair

def logRefusal (p : Pair) (refusal : Refusal) (transport : Transport) (peer : Peer) : Pair :=
  if transport = .udp ∧ p.refused.contains peer then p else p.log (.refused refusal transport)

/-- Admit a peer: the id of its slot, unless it is refused. -/
def connect (p : Pair) (m : Moment) (role : Role) (transport : Transport) (peer : Peer) : Pair × Option SlotId :=
  match p.slots.accept role transport peer m.now with
  | .error refusal => (p.logRefusal refusal transport peer, none)
  | .ok admission =>
    let first := role = .engineer ∧ p.slots.engineerCount = 0
    let p := { p with slots := admission.table }.emit (.opened admission.id)
    let p := match admission.replaced with
      | none => p
      | some s => p.finishSlot s
    let p := if first then p.reloadKey m else p
    let p := if transport.hasHandshake then p else p.log (.connected role transport peer)
    (p, some admission.id)

def established (p : Pair) (m : Moment) (id : SlotId) : Pair :=
  match p.slots.find? id with
  | none => p
  | some s =>
    if s.state.canEnter .established then
      { p with slots := p.slots.modify id fun s => (s.advance .established).touch m.now }.log
        (.connected s.role s.transport s.peer)
    else p

end GatedRelay.Pair
