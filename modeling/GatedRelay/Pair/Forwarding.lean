import GatedRelay.Pair.Admission

/-!
# Forwarding frames

| From | Frames | To |
|------|--------|----|
| user | heartbeats | every open engineer |
| user | all others | the authenticated engineers |
| engineer | all but an accepted rotation request | the user |

Frames to engineers are signed with the pair's key where their version allows it; frames to the user lose their
signature.  Whether a message finds room in an outbox has no influence on anything here.
-/

set_option autoImplicit false

namespace GatedRelay.Pair

def recipients (p : Pair) (f : Frame) : List Slot :=
  p.slots.engineers.filter fun s => s.isOpen && (f.msgId = MessageId.heartbeat || s.trust = .authenticated)

def queueEach (p : Pair) (slots : List Slot) (message : Bytes) : Pair :=
  slots.foldl (fun p s => p.emit (.queued s.id message)) p

/-- The key after a frame was signed with it, and the bytes to deliver. -/
def outgoing (key : Option SigningKey) (f : Frame) : Option SigningKey × Bytes :=
  match key with
  | none => (none, f.bytes)
  | some k => (some (k.sign f).1, ((k.sign f).2.getD f).bytes)

/-- A heartbeat of the user names the source of later notices. -/
def noteSource (p : Pair) (f : Frame) : Pair :=
  if f.msgId = MessageId.heartbeat then { p with userSource := some (f.header.sysid, f.header.compid) } else p

/-- Deliver a frame of the user.  It is signed once for all, and not at all if it is meant for nobody. -/
def fromUser (p : Pair) (f : Frame) : Pair :=
  let p := p.noteSource f
  match p.recipients f with
  | [] => p
  | slots =>
    let (key, message) := outgoing p.key f
    { p with key := key }.queueEach slots message

def forward (p : Pair) (f : Frame) : Pair :=
  match p.slots.user? with
  | none => p
  | some user => if user.isOpen then p.emit (.queued user.id f.withoutSignature.bytes) else p

/-- Tell an engineer what is wrong with its frames, unsigned so that it can be read without the key. -/
def sendNotice (p : Pair) (m : Moment) (id : SlotId) (verdict : Verdict) : Pair :=
  let (sysid, compid) := p.userSource.getD defaultSource
  let notice := StatusText.frame sysid compid StatusText.critical (verdict.notice?.getD "")
  { p with slots := p.slots.modify id (·.markNotice m.now) }.emit (.queued id notice.bytes)

def report (p : Pair) (m : Moment) (s : Slot) (o : Outcome) : Pair :=
  let p := if o.trustChanged ∧ o.trust = .authenticated then p.log .goodSignature else p
  let p := if o.announce then p.log (.problem o.verdict) else p
  if o.notify ∧ s.noticeDue m.now noticeInterval then p.sendNotice m s.id o.verdict else p

/-- Act on a checked frame.  A good rotation request is carried out and goes no further. -/
def dispatch (p : Pair) (m : Moment) (f : Frame) (verdict : Verdict) : Pair :=
  if verdict.isGood then
    let p := p.saveClock
    if f.msgId = MessageId.setupSigning then p.rotateKey m (SetupSigning.ofPayload f.payload) else p.forward f
  else p.forward f

/-- Check a frame of an engineer, report on it and act on it. -/
def fromEngineer (p : Pair) (m : Moment) (id : SlotId) (f : Frame) : Pair :=
  match p.slots.find? id with
  | none => p
  | some s =>
    let (gate, key, o) := s.gate.check f p.key
    let p := { p with key := key, slots := p.slots.modify id fun s => { s with gate := gate } }
    (p.report m s o).dispatch m f o.verdict

/-- A slot that has received a batch of frames.  Frames stand for the end of a handshake. -/
def received (s : Slot) (now count : Nat) : Slot :=
  let s := if s.state = .new then s.advance .established else s
  let s := if count = 0 then s else s.advance .active
  (s.touch now).count count

def handleFrames (p : Pair) (m : Moment) (id : SlotId) (frames : List Frame) : Pair :=
  match p.slots.find? id with
  | none => p
  | some s =>
    let p := { p with slots := p.slots.modify id fun s => received s m.now frames.length }
    match s.role with
    | .user => frames.foldl fromUser p
    | .engineer => frames.foldl (fun p f => p.fromEngineer m id f) p

/-- Handle a datagram.  Its peer is admitted if it is new, and dropped without a try if it was refused before and there
is still no room. -/
def datagram (p : Pair) (m : Moment) (role : Role) (peer : Peer) (frames : List Frame) : Pair :=
  match p.slots.findUdp? role peer with
  | some s => p.handleFrames m s.id frames
  | none =>
    if p.refused.contains peer && !p.slots.hasRoom role then p
    else
      match p.connect m role .udp peer with
      | (p, none) => { p with refused := p.refused.use peer () }
      | (p, some id) => { p with refused := p.refused.erase peer }.handleFrames m id frames

end GatedRelay.Pair
