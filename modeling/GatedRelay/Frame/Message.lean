import GatedRelay.Frame.Basic

/-!
# Frames made from messages

A message is written as a frame of the second version when its payload, its id and its checksum seed allow it, and the
first of the three that does not is the error.  Zeros at the end of a payload are not sent, except for its first byte.
-/

set_option autoImplicit false

namespace GatedRelay

inductive FrameError where
  | payloadTooLong (length : Nat)
  | unknownMessage (msgId : Nat)
  | messageIdOutOfRange (msgId : Nat)
  | wrongMessage (expected actual : Nat)
  deriving DecidableEq

def FrameError.message : FrameError → String
  | payloadTooLong length => s!"payload of {length} bytes exceeds the 255 byte limit"
  | unknownMessage msgId => s!"no CRC seed known for message id {msgId}"
  | messageIdOutOfRange msgId => s!"message id {msgId} does not fit in a v2 frame"
  | wrongMessage expected actual => s!"frame is message {actual}, expected {expected}"

/-- Without the zeros at its end, but with its first byte. -/
def trimZeros : Bytes → Bytes
  | [] => []
  | b :: rest => b :: (rest.reverse.dropWhile (· = 0)).reverse

theorem length_trimZeros_le (p : Bytes) : (trimZeros p).length ≤ p.length := by
  cases p with
  | nil => exact Nat.le_refl _
  | cons b rest =>
    have := (List.dropWhile_sublist (· = 0) (l := rest.reverse)).length_le
    simp only [trimZeros, List.length_cons, List.length_reverse] at this ⊢
    omega

structure Message where
  msgId : Nat
  seq : UInt8
  sysid : UInt8
  compid : UInt8
  payload : Bytes

namespace Message

def frame (m : Message) (seed : UInt8) (hlength : m.payload.length ≤ 255) (hid : m.msgId < 0x1000000)
    (hseed : Checksum.knownSeed m.msgId = some seed) : Frame where
  header := ⟨.plain ⟨m.msgId, hid⟩, m.seq, m.sysid, m.compid⟩
  payload := trimZeros m.payload
  seed := seed
  trailer := none
  length_payload_le := Nat.le_trans (length_trimZeros_le _) hlength
  seed_mem := by simp [Header.msgId, Format.plain, Checksum.seedsFor, hseed]
  v1_unsigned := fun _ => rfl

def encode (m : Message) (signing : Option SigningParams) : Except FrameError Frame :=
  if hlength : 255 < m.payload.length then .error (.payloadTooLong m.payload.length)
  else if hid : 0x1000000 ≤ m.msgId then .error (.messageIdOutOfRange m.msgId)
  else
    match hseed : Checksum.knownSeed m.msgId with
    | none => .error (.unknownMessage m.msgId)
    | some seed =>
      let f := m.frame seed (Nat.le_of_not_lt hlength) (Nat.lt_of_not_le hid) hseed
      match signing with
      | none => .ok f
      | some p => .ok (f.sign rfl p)

end Message

def heartbeatPayload : Bytes := [0, 0, 0, 0, 0, 0, 0, 0, 3]

end GatedRelay
