import GatedRelay.Frame.Checksum
import GatedRelay.Secret

/-!
# Frames

A frame of the first version carries a one-byte message id and is never signed.  A frame of the second carries flags
and a three-byte id, and may end with a signature trailer; bit 0 of its first flag byte says so.

A `Frame` holds what the bytes mean.  The length byte, the signature flag and the checksum are computed when it is
written, so they are right by construction, and a frame is determined by its bytes and the other way round.
-/

set_option autoImplicit false

namespace GatedRelay

inductive Version where
  | v1
  | v2
  deriving DecidableEq

namespace Version

def start : Version → UInt8
  | v1 => 0xFE
  | v2 => 0xFD

def ofStart? (b : UInt8) : Option Version :=
  if b = v1.start then some v1 else if b = v2.start then some v2 else none

end Version

abbrev Stamp := Fin 0x1000000000000

namespace Stamp

def ofNat (n : Nat) : Stamp := Fin.ofNat _ n

def ofClock (clock : UInt64) : Stamp := ofNat clock.toNat

def toClock (stamp : Stamp) : UInt64 := UInt64.ofNat stamp.val

def bytes (stamp : Stamp) : Bytes := Bytes.ofNat 6 stamp.val

end Stamp

/-- What follows the checksum of a signed frame. -/
structure Trailer where
  linkId : UInt8
  timestamp : Stamp
  signature : Signature
  deriving DecidableEq

def Trailer.covered (t : Trailer) : Bytes := t.linkId :: t.timestamp.bytes

/-- What the two versions say differently.  The flags are those besides the signature flag. -/
inductive Format where
  | v1 (msgId : UInt8)
  | v2 (flags : Fin 128) (compat : UInt8) (msgId : Fin 0x1000000)
  deriving DecidableEq

namespace Format

def ofNumbers (flags : Nat) (compat : UInt8) (msgId : Nat) : Format :=
  .v2 (Fin.ofNat _ flags) compat (Fin.ofNat _ msgId)

def plain (msgId : Fin 0x1000000) : Format := .v2 0 0 msgId

end Format

structure Header where
  format : Format
  seq : UInt8
  sysid : UInt8
  compid : UInt8
  deriving DecidableEq

namespace Header

def version (h : Header) : Version :=
  match h.format with
  | .v1 _ => .v1
  | .v2 .. => .v2

def msgId (h : Header) : Nat :=
  match h.format with
  | .v1 id => id.toNat
  | .v2 _ _ id => id.val

/-- The header without its start byte, for a payload of `length` bytes. -/
def bytes (h : Header) (length : Nat) (signed : Bool) : Bytes :=
  match h.format with
  | .v1 id => [UInt8.ofNat length, h.seq, h.sysid, h.compid, id]
  | .v2 flags compat id =>
    [UInt8.ofNat length, UInt8.ofNat (2 * flags.val + signed.toNat), compat, h.seq, h.sysid, h.compid]
      ++ Bytes.ofNat 3 id.val

end Header

structure Frame where
  header : Header
  payload : Bytes
  seed : UInt8
  trailer : Option Trailer
  length_payload_le : payload.length ≤ 255
  seed_mem : seed ∈ Checksum.seedsFor header.msgId
  v1_unsigned : header.version = .v1 → trailer = none
  deriving DecidableEq

/-- With what an outgoing frame is signed. -/
structure SigningParams where
  secret : Secret
  linkId : UInt8
  timestamp : UInt64

namespace Frame

def version (f : Frame) : Version := f.header.version

def msgId (f : Frame) : Nat := f.header.msgId

def isSigned (f : Frame) : Bool := f.trailer.isSome

def content (f : Frame) (signed : Bool) : Bytes := f.header.bytes f.payload.length signed ++ f.payload

def checksum (f : Frame) (signed : Bool) : UInt16 := Checksum.seeded (f.content signed) f.seed

/-- The frame up to its checksum, written with or without the signature flag. -/
def front (f : Frame) (signed : Bool) : Bytes :=
  f.version.start :: f.content signed ++ Bytes.ofNat 2 (f.checksum signed).toNat

def bytes (f : Frame) : Bytes :=
  match f.trailer with
  | none => f.front false
  | some t => f.front true ++ t.covered ++ t.signature.bytes

def signedPart (f : Frame) (t : Trailer) : Bytes := f.front true ++ t.covered

def trailerFor (f : Frame) (p : SigningParams) : Trailer :=
  let stamp := Stamp.ofClock p.timestamp
  ⟨p.linkId, stamp, Secret.sign p.secret (f.front true ++ p.linkId :: stamp.bytes)⟩

def sign (f : Frame) (h : f.version = .v2) (p : SigningParams) : Frame :=
  { f with
    trailer := some (f.trailerFor p)
    v1_unsigned := fun h1 => absurd (h1.symm.trans h) (by decide) }

def signedWith (f : Frame) (p : SigningParams) : Option Frame :=
  if h : f.version = .v2 then some (f.sign h p) else none

def withoutSignature (f : Frame) : Frame := { f with trailer := none, v1_unsigned := fun _ => rfl }

end Frame

end GatedRelay
