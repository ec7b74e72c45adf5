import GatedRelay.Recent
import GatedRelay.Signing.Key
import GatedRelay.Signing.Verdict

/-!
# The gate of a peer

A gate checks the frames of one peer against the key of its pair.  It remembers the last accepted timestamp of at most
16 streams, where a stream is what one system and component sends over one link.  A remembered stream must move
forward; a new one may lag behind the clock by a minute.  Besides trust, a check decides what is worth a line in the
log and what the peer is told.
-/

set_option autoImplicit false

namespace GatedRelay

structure Stream where
  linkId : UInt8
  sysid : UInt8
  compid : UInt8
  deriving DecidableEq

structure Outcome where
  verdict : Verdict
  trust : Trust
  trustChanged : Bool
  /-- The first problem of this kind since the last good frame. -/
  announce : Bool
  notify : Bool
  deriving DecidableEq

structure Gate where
  trust : Trust := .unauthenticated
  streams : Recent Stream Stamp 16 := .empty
  lastProblem : Option Verdict := none
  faults : Nat := 0

namespace Gate

/-- Ticks by which the first frame of a stream may lag behind the clock: 60 seconds. -/
def newStreamWindow : Nat := 6_000_000

/-- Rejections after which a peer is told of a bad signature or a replay. -/
def faultGrace : Nat := 3

def new : Gate := {}

instance : Inhabited Gate := ⟨new⟩

def reset (_ : Gate) : Gate := new

def streamOf (f : Frame) (t : Trailer) : Stream := ⟨t.linkId, f.header.sysid, f.header.compid⟩

/-- Judge a frame under a key.  The memory of streams and the clock change only where the signature is right. -/
def verify (streams : Recent Stream Stamp 16) (f : Frame) (k : SigningKey) :
    Verdict × Recent Stream Stamp 16 × SigningKey :=
  match f.trailer with
  | none => (.unsigned, streams, k)
  | some t =>
    if k.secret.verifies (f.signedPart t) t.signature.bytes then
      let stream := streamOf f t
      match streams.find? stream with
      | some last =>
        if t.timestamp ≤ last then (.rejected .replay, streams.use stream last, k)
        else (.good t.timestamp, streams.use stream t.timestamp, k.observe t.timestamp.toClock)
      | none =>
        if t.timestamp.val + newStreamWindow < k.clock.toNat then (.rejected .oldTimestamp, streams, k)
        else (.good t.timestamp, streams.use stream t.timestamp, k.observe t.timestamp.toClock)
    else (.rejected .badSignature, streams, k)

def judge (g : Gate) (f : Frame) (key : Option SigningKey) : Verdict × Recent Stream Stamp 16 × Option SigningKey :=
  match key with
  | none => (.noKey, g.streams, none)
  | some k =>
    let r := verify g.streams f k
    (r.1, r.2.1, some r.2.2)

/-- How often, with this verdict, frames have been rejected since the last good one. -/
def faultsAfter (g : Gate) : Verdict → Nat
  | .good _ => 0
  | .rejected _ => g.faults + 1
  | _ => g.faults

def tells (faults : Nat) : Verdict → Bool
  | .good _ => false
  | .noKey => true
  | .unsigned => true
  | .rejected .oldTimestamp => true
  | .rejected _ => faultGrace ≤ faults

/-- Enter a verdict.  An authenticated peer's problems are neither counted nor reported. -/
def enter (g : Gate) (v : Verdict) (streams : Recent Stream Stamp 16) : Gate × Outcome :=
  let trust := g.trust.after v
  let changed := decide (g.trust ≠ trust)
  if v.isGood then (⟨trust, streams, none, 0⟩, ⟨v, trust, changed, false, false⟩)
  else if g.trust = .authenticated then
    ({ g with trust := trust, streams := streams }, ⟨v, trust, changed, false, false⟩)
  else
    let faults := g.faultsAfter v
    (⟨trust, streams, some v, faults⟩, ⟨v, trust, changed, decide (g.lastProblem ≠ some v), tells faults v⟩)

def check (g : Gate) (f : Frame) (key : Option SigningKey) : Gate × Option SigningKey × Outcome :=
  let j := g.judge f key
  let e := g.enter j.1 j.2.1
  (e.1, j.2.2, e.2)

def trustName : Trust → String
  | .unauthenticated => "Unauthenticated"
  | .badSignature => "BadSignature"
  | .authenticated => "Authenticated"

def describe (g : Gate) : String :=
  s!"SigningGate \x7b trust: {trustName g.trust}, streams: {g.streams.size} \x7d"

end Gate

end GatedRelay
