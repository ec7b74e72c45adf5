import GatedRelay.Secret
import GatedRelay.Bytes.Hex
import GatedRelay.Text.Quoted

/-!
# Credential records

A credential joins a user port to an engineer port, which is its key in the store.  It holds the secret that engineers
sign with, the last accepted signing timestamp, and the tallies of past sessions.
-/

set_option autoImplicit false

namespace GatedRelay

def recordMagic : UInt64 := 0x6b73e867a72cdd1f

/-- `port1` is the user port and `port2` the engineer port.  `count1` and `count2` count the messages of both. -/
structure Credential where
  port2 : Int32
  magic : UInt64 := recordMagic
  timestamp : UInt64 := 0
  secret : Secret := Block.zero 32
  port1 : Int32 := 0
  connections : UInt32 := 0
  count1 : UInt32 := 0
  count2 : UInt32 := 0
  name : String := ""
  deriving DecidableEq

namespace Credential

def withPassphrase (r : Credential) (passphrase : String) : Credential :=
  { r with secret := Secret.ofPassphrase passphrase }

def summary (r : Credential) : String :=
  s!"{r.port1.toInt}/{r.port2.toInt} '{r.name}' counts={r.count1.toNat}/{r.count2.toNat} "
    ++ s!"connections={r.connections.toNat}"

def fingerprint (r : Credential) : String := Hex.encode ((Sha256.digest r.secret.bytes).bytes.take 4)

/-- A description for logs, with a fingerprint in the place of the secret. -/
def describe (r : Credential) : String :=
  s!"KeyRecord \x7b port1: {r.port1.toInt}, port2: {r.port2.toInt}, name: {Quoted.quote r.name}, "
    ++ s!"timestamp: {r.timestamp.toNat}, secret: {Quoted.quote r.fingerprint}, "
    ++ s!"connections: {r.connections.toNat}, count1: {r.count1.toNat}, count2: {r.count2.toNat} \x7d"

end Credential

/-- The store key of an engineer port: four bytes, least significant first. -/
def portKey (port : Int32) : Bytes := Bytes.ofNat 4 port.toUInt32.toNat

/-- The engineer port of a store key.  Keys of another width belong to none. -/
def portOfKey? (key : Bytes) : Option Int32 :=
  if key.length = 4 then some (UInt32.ofNat (Bytes.toNat key)).toInt32 else none

theorem portOfKey?_portKey (port : Int32) : portOfKey? (portKey port) = some port := by
  have h : port.toUInt32.toNat < 2 ^ 32 := port.toUInt32.toNat_lt
  simp [portOfKey?, portKey, Bytes.toNat_ofNat]

theorem portOfKey?_eq_some_iff {key : Bytes} {port : Int32} : portOfKey? key = some port ↔ key = portKey port := by
  constructor
  · intro h
    unfold portOfKey? at h
    split at h
    · rename_i hlength
      cases h
      have hlt : Bytes.toNat key < 2 ^ 32 := by
        have := Bytes.toNat_lt key
        rw [hlength] at this
        exact this
      rw [portKey, UInt32.toUInt32_toInt32, UInt32.toNat_ofNat_of_lt' hlt, ← hlength, Bytes.ofNat_toNat]
    · cases h
  · rintro rfl
    exact portOfKey?_portKey port

end GatedRelay
