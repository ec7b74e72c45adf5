import GatedRelay.Bytes.Basic

/-!
# Frame checksums

The 16-bit X.25 checksum, and the seed byte that every message id adds to it at the end.  Four ids have a known seed.
The seed of any other id is whatever makes a frame's checksum right.
-/

set_option autoImplicit false

namespace GatedRelay

namespace MessageId

def heartbeat : Nat := 0

def systemTime : Nat := 2

def statusText : Nat := 253

def setupSigning : Nat := 256

end MessageId

namespace Checksum

def spread (x : UInt8) : UInt16 :=
  let y := (x ^^^ (x <<< 4)).toUInt16
  (y <<< 8) ^^^ (y <<< 3) ^^^ (y >>> 4)

def step (register : UInt16) (b : UInt8) : UInt16 := (register >>> 8) ^^^ spread (b ^^^ register.toUInt8)

def x25 (text : Bytes) : UInt16 := text.foldl step 0xFFFF

/-- The checksum of a text under a seed: the seed counts as one more byte. -/
def seeded (text : Bytes) (seed : UInt8) : UInt16 := step (x25 text) seed

def knownSeed (msgId : Nat) : Option UInt8 :=
  if msgId = MessageId.heartbeat then some 50
  else if msgId = MessageId.systemTime then some 137
  else if msgId = MessageId.statusText then some 83
  else if msgId = MessageId.setupSigning then some 71
  else none

def everyByte : List UInt8 := (List.range 256).map UInt8.ofNat

theorem mem_everyByte (b : UInt8) : b ∈ everyByte := by
  refine List.mem_map.mpr ⟨b.toNat, List.mem_range.mpr b.toNat_lt, ?_⟩
  exact UInt8.ofNat_toNat

/-- The seeds that a frame of this id may be built with. -/
def seedsFor (msgId : Nat) : List UInt8 :=
  match knownSeed msgId with
  | some seed => [seed]
  | none => everyByte

def recoverSeed (msgId : Nat) (text : Bytes) (checksum : UInt16) : Option UInt8 :=
  let register := x25 text
  (seedsFor msgId).find? fun seed => step register seed = checksum

theorem mem_of_recoverSeed {msgId : Nat} {text : Bytes} {checksum : UInt16} {seed : UInt8}
    (h : recoverSeed msgId text checksum = some seed) : seed ∈ seedsFor msgId :=
  List.mem_of_find?_eq_some h

theorem seeded_of_recoverSeed {msgId : Nat} {text : Bytes} {checksum : UInt16} {seed : UInt8}
    (h : recoverSeed msgId text checksum = some seed) : seeded text seed = checksum := by
  simpa [seeded] using List.find?_some h

end Checksum

end GatedRelay
