import GatedRelay.Frame.Stream
import GatedRelay.Relay.Basic

/-!
# Links

What arrives on the sockets of a relay becomes events of its pairs.  A new stream shows by its first bytes how it
speaks.  Each admitted stream keeps a parser of its own, since its frames may be cut anywhere; a datagram holds whole
frames only.
-/

set_option autoImplicit false

namespace GatedRelay

namespace Transport

/-- How a stream that begins with these bytes speaks: encrypted if they open a handshake and there is an identity,
in messages if they begin a request, and plainly otherwise. -/
def ofFirstBytes (secure : Bool) : Bytes → Transport
  | 0x16 :: _ => if secure then .secureWebSocket else .tcp
  | 0x47 :: rest => if (rest.zip [0x45, 0x54]).all fun (a, b) => a = b then .webSocket else .tcp
  | _ => .tcp

end Transport

structure Link where
  port2 : UInt16
  slot : SlotId
  transport : Transport
  parser : Parser := {}

/-- Take bytes, however they were cut.  Those that complete no frame are only kept. -/
def Link.receive (l : Link) (data : Bytes) : Link × Option Event :=
  let (parser, frames) := l.parser.push data
  ({ l with parser := parser }, if frames.isEmpty then none else some (.frames l.slot frames))

namespace Relay

def listener? (r : Relay) (port : UInt16) : Option (UInt16 × Role) :=
  r.pairs.findSome? fun p =>
    if p.port1 = port then some (p.port2, .user) else if p.port2 = port then some (p.port2, .engineer) else none

/-- A stream arrives at a port and shows its first bytes: its link, unless nobody listens there or it is refused. -/
def connect (r : Relay) (m : Moment) (port : UInt16) (peer : Peer) (head : Bytes) : Relay × Option Link :=
  match r.listener? port with
  | none => (r, none)
  | some (port2, role) =>
    let transport := Transport.ofFirstBytes r.config.secure head
    let next := r.step m port2 (.connect role transport peer)
    let slot := Effect.openedSlot? ((next.effectsSince r).map (·.2))
    (next, slot.map fun slot => { port2 := port2, slot := slot, transport := transport })

def receive (r : Relay) (m : Moment) (l : Link) (data : Bytes) : Relay × Link :=
  let (l, event) := l.receive data
  (match event with
    | none => r
    | some e => r.step m l.port2 e, l)

def datagram (r : Relay) (m : Moment) (port : UInt16) (peer : Peer) (data : Bytes) : Relay :=
  match r.listener? port with
  | none => r
  | some (port2, role) => r.step m port2 (.datagram role peer (parseDatagram data))

end Relay

end GatedRelay
