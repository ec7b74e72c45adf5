import GatedRelay.Frame.Message

/-!
# Rotation requests

A request to replace the secret of a pair and to start its clock anew.  Its payload has 42 bytes; zeros at the end that
were not sent are filled in when it is read, and bytes beyond are ignored.
-/

set_option autoImplicit false

namespace GatedRelay

structure SetupSigning where
  initialTimestamp : UInt64
  targetSystem : UInt8
  targetComponent : UInt8
  secret : Secret
  deriving DecidableEq

namespace SetupSigning

def payloadWidth : Nat := 42

def payload (s : SetupSigning) : Bytes :=
  Bytes.ofNat 8 s.initialTimestamp.toNat ++ [s.targetSystem, s.targetComponent] ++ s.secret.bytes

theorem length_payload (s : SetupSigning) : s.payload.length = payloadWidth := by
  simp [payload, payloadWidth, s.secret.length_eq]

/-- The request that a payload of any width stands for. -/
def ofPayload (b : Bytes) : SetupSigning :=
  let p := Bytes.fit payloadWidth b
  ⟨UInt64.ofNat (Bytes.toNat (p.field 0 8)), p.getD 8 0, p.getD 9 0, Block.ofBytes 32 (p.field 10 32)⟩

def decode (f : Frame) : Except FrameError SetupSigning :=
  if f.msgId = MessageId.setupSigning then .ok (ofPayload f.payload)
  else .error (.wrongMessage MessageId.setupSigning f.msgId)

/-- A description that keeps the secret back. -/
def describe (s : SetupSigning) : String :=
  s!"SetupSigning \x7b initial_timestamp: {s.initialTimestamp.toNat}, target_system: {s.targetSystem.toNat}, "
    ++ s!"target_component: {s.targetComponent.toNat}, .. \x7d"

end SetupSigning

end GatedRelay
