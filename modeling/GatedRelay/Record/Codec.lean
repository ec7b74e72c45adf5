import GatedRelay.Record.Basic

/-!
# Stored form of a record

A record is stored on 96 bytes: its magic number, timestamp, secret, user port, three tallies and a name field of 32
bytes.  The engineer port is the key and is not repeated.  The older form has the first 48 bytes only, and its user
port lies a thousand below the engineer port.
-/

set_option autoImplicit false

namespace GatedRelay

inductive RecordError where
  | wrongLength (expected actual : Nat)
  | badMagic (magic : UInt64)
  | legacyPortOutOfRange (port2 : Int32)
  deriving DecidableEq

def RecordError.message : RecordError → String
  | wrongLength expected actual => s!"record has length {actual}, expected {expected}"
  | badMagic magic => s!"record magic 0x{Hex.encode (Bytes.ofNat 8 magic.toNat).reverse} does not match"
  | legacyPortOutOfRange port2 => s!"legacy port2 {port2.toInt} has no paired port1"

namespace Credential

def storedWidth : Nat := 96

def legacyWidth : Nat := 48

def nameWidth : Nat := 32

/-- The name field: cut to its width, where a character may be split, and filled with zeros. -/
def nameField (name : String) : Bytes := Bytes.fit nameWidth (Utf8.encode name)

/-- The name in a field: up to the first zero byte, without ill-formed pieces. -/
def nameOfField (field : Bytes) : String := Utf8.decodeSkipping (field.takeWhile (· ≠ 0))

def pack (r : Credential) : Bytes :=
  Bytes.ofNat 8 r.magic.toNat ++ Bytes.ofNat 8 r.timestamp.toNat ++ r.secret.bytes
    ++ Bytes.ofNat 4 r.port1.toUInt32.toNat ++ Bytes.ofNat 4 r.connections.toNat
    ++ Bytes.ofNat 4 r.count1.toNat ++ Bytes.ofNat 4 r.count2.toNat ++ nameField r.name

theorem length_pack (r : Credential) : r.pack.length = storedWidth := by
  simp [pack, nameField, storedWidth, nameWidth, r.secret.length_eq]

def magicOf (data : Bytes) : UInt64 := UInt64.ofNat (Bytes.toNat (data.field 0 8))

/-- The width is checked before the magic number. -/
def unpack (port2 : Int32) (data : Bytes) : Except RecordError Credential :=
  if data.length ≠ storedWidth then .error (.wrongLength storedWidth data.length)
  else if magicOf data ≠ recordMagic then .error (.badMagic (magicOf data))
  else .ok {
    port2 := port2
    magic := magicOf data
    timestamp := UInt64.ofNat (Bytes.toNat (data.field 8 8))
    secret := Block.ofBytes 32 (data.field 16 32)
    port1 := (UInt32.ofNat (Bytes.toNat (data.field 48 4))).toInt32
    connections := UInt32.ofNat (Bytes.toNat (data.field 52 4))
    count1 := UInt32.ofNat (Bytes.toNat (data.field 56 4))
    count2 := UInt32.ofNat (Bytes.toNat (data.field 60 4))
    name := nameOfField (data.field 64 32) }

/-- The user port of a record of the older form; none for port 0, and an error below the least port number. -/
def legacyPort1 (port2 : Int32) : Except RecordError Int32 :=
  if port2 = 0 then .ok 0
  else if port2.toInt - 1000 < Int32.minValue.toInt then .error (.legacyPortOutOfRange port2)
  else .ok (port2 - 1000)

/-- Lift a value of the older form, whose magic number is left unread. -/
def ofLegacy (port2 : Int32) (data : Bytes) : Except RecordError Credential := do
  if data.length ≠ legacyWidth then
    throw (.wrongLength legacyWidth data.length)
  let port1 ← legacyPort1 port2
  return {
    port2 := port2
    timestamp := UInt64.ofNat (Bytes.toNat (data.field 8 8))
    secret := Block.ofBytes 32 (data.field 16 32)
    port1 := port1 }

end Credential

end GatedRelay
