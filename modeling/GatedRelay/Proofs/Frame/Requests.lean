import GatedRelay.Frame.SetupSigning
import GatedRelay.Proofs.Frame.Encoding
import GatedRelay.Proofs.Frame.Resigning
import GatedRelay.Proofs.Record.RoundTrip

/-!
# Rotation requests on their way

A request loses no more on its way than zeros at its end, and these are filled in when it is read.  Reading a frame,
signing it and stripping it keep the message, so a request arrives as it was sent (`arrives_as_sent`), a blank one too.
-/

set_option autoImplicit false

namespace GatedRelay

/-! ## Payloads and requests -/

theorem Bytes.field_two {b : Bytes} {offset : Nat} (h : offset + 1 < b.length) :
    b.field offset 2 = [b.getD offset 0, b.getD (offset + 1) 0] := by
  have hbefore : offset < b.length := Nat.lt_of_succ_lt h
  rw [field, List.drop_eq_getElem_cons hbefore, List.drop_eq_getElem_cons h, List.getD_eq_getElem?_getD,
    List.getD_eq_getElem?_getD, List.getElem?_eq_getElem hbefore, List.getElem?_eq_getElem h]
  rfl

theorem Trims.fit_eq {sent given : Bytes} (h : Trims sent given) : sent.fit given.length = given := by
  have hle : sent.length ≤ given.length := by
    have hlength := congrArg List.length h.restored
    rw [List.length_append] at hlength
    omega
  rw [Bytes.fit, List.take_of_length_le hle, h.restored]

namespace SetupSigning

theorem ofPayload_fit (b : Bytes) : ofPayload (b.fit payloadWidth) = ofPayload b := by
  have hfit : (b.fit payloadWidth).fit payloadWidth = b.fit payloadWidth := Bytes.fit_eq_self (Bytes.length_fit _ _)
  rw [ofPayload, hfit]
  rfl

theorem field_payload (s : SetupSigning) :
    s.payload.field 0 8 = Bytes.ofNat 8 s.initialTimestamp.toNat ∧
      s.payload.field 8 2 = [s.targetSystem, s.targetComponent] ∧ s.payload.field 10 32 = s.secret.bytes := by
  have htargets : s.payload = Bytes.ofNat 8 s.initialTimestamp.toNat ++
      ([s.targetSystem, s.targetComponent] ++ s.secret.bytes) := List.append_assoc _ _ _
  rw [htargets]
  refine ⟨Bytes.field_append_left (Bytes.length_ofNat 8 _), ?_, ?_⟩
  · rw [Bytes.field_append_right (Nat.le_of_eq (Bytes.length_ofNat 8 _)), Bytes.length_ofNat]
    rfl
  · rw [Bytes.field_append_right (by simp), Bytes.length_ofNat]
    exact List.take_of_length_le (Nat.le_of_eq s.secret.length_eq)

theorem ofPayload_payload (s : SetupSigning) : ofPayload s.payload = s := by
  obtain ⟨htimestamp, htargets, hsecret⟩ := s.field_payload
  have hlength : 8 + 1 < s.payload.length := by
    rw [length_payload]
    decide
  rw [Bytes.field_two hlength, List.cons.injEq, List.cons.injEq] at htargets
  obtain ⟨hsystem, hcomponent, _⟩ := htargets
  rw [ofPayload, Bytes.fit_eq_self s.length_payload, htimestamp, hsecret, hsystem, hcomponent, Bytes.word_ofNat,
    Block.ofBytes_bytes]

theorem payload_ofPayload (b : Bytes) : (ofPayload b).payload = b.fit payloadWidth := by
  rw [← ofPayload_fit]
  have hlength : (b.fit payloadWidth).length = payloadWidth := Bytes.length_fit _ _
  generalize b.fit payloadWidth = p at hlength
  have hfield (offset n : Nat) (hend : offset + n ≤ payloadWidth) : (p.field offset n).length = n := by
    rw [Bytes.field, List.length_take, List.length_drop, hlength]
    omega
  have htargets : p.field 8 2 = [p.getD 8 0, p.getD 9 0] := Bytes.field_two (by rw [hlength]; decide)
  rw [payload, ofPayload, Bytes.fit_eq_self hlength]
  calc Bytes.ofNat 8 (UInt64.ofNat (Bytes.toNat (p.field 0 8))).toNat ++ [p.getD 8 0, p.getD 9 0]
        ++ (p.field 10 32).fit 32
    _ = p.take 8 ++ p.field 8 2 ++ p.field 10 32 := by
      rw [Credential.ofNat_word (hfield 0 8 (by decide)), htargets, Bytes.fit_eq_self (hfield 10 32 (by decide))]
      rfl
    _ = p.take payloadWidth := by
      rw [Credential.take_append_field, Credential.take_append_field]
      rfl
    _ = p := List.take_of_length_le (Nat.le_of_eq hlength)

/-- The payload, cut or filled up with zeros to 42 bytes, is that of the request: the timestamp is in front and the
secret at the end. -/
structure HeldIn (s : SetupSigning) (b : Bytes) : Prop where
  payload : s.payload = b.fit 42
  timestamp : Bytes.ofNat 8 s.initialTimestamp.toNat = (b.fit 42).field 0 8
  secret : s.secret.bytes = (b.fit 42).field 10 32

theorem heldIn_ofPayload (b : Bytes) : (ofPayload b).HeldIn b := by
  obtain ⟨htimestamp, _, hsecret⟩ := (ofPayload b).field_payload
  rw [payload_ofPayload] at htimestamp hsecret
  exact ⟨payload_ofPayload b, htimestamp.symm, hsecret.symm⟩

theorem HeldIn.eq_ofPayload {s : SetupSigning} {b : Bytes} (h : s.HeldIn b) : s = ofPayload b := by
  calc s
    _ = ofPayload s.payload := s.ofPayload_payload.symm
    _ = ofPayload (b.fit payloadWidth) := congrArg ofPayload h.payload
    _ = ofPayload b := ofPayload_fit b

end SetupSigning

/-! ## Frames that are passed on -/

inductive Hop where
  | read
  | sign (p : SigningParams)
  | strip

namespace Hop

/-- The frame behind a hop, if there is exactly one. -/
def pass (f : Frame) : Hop → Option Frame
  | read =>
    match parseDatagram f.bytes with
    | [g] => some g
    | _ => none
  | sign p => f.signedWith p
  | strip => some f.withoutSignature

theorem pass_keeps {f : Frame} (h : f.version = .v2) (hop : Hop) :
    ∃ g, hop.pass f = some g ∧ g.withoutSignature = f.withoutSignature := by
  cases hop with
  | read => exact ⟨f, by rw [pass, parseDatagram_bytes], rfl⟩
  | sign p => exact ⟨f.sign h p, Frame.signedWith_of_v2 h p, rfl⟩
  | strip => exact ⟨f.withoutSignature, rfl, rfl⟩

theorem passEach_keeps {f : Frame} (h : f.version = .v2) (hops : List Hop) :
    ∃ g, hops.foldlM pass f = some g ∧ g.withoutSignature = f.withoutSignature := by
  induction hops generalizing f with
  | nil => exact ⟨f, rfl, rfl⟩
  | cons hop rest ih =>
    obtain ⟨g, hpass, hsame⟩ := pass_keeps h hop
    have hversion : g.version = .v2 := (congrArg Frame.version hsame).trans h
    obtain ⟨last, hrest, hlast⟩ := ih hversion
    refine ⟨last, ?_, hlast.trans hsame⟩
    rw [List.foldlM_cons, hpass]
    exact hrest

end Hop

namespace SetupSigning

def message (s : SetupSigning) (seq sysid compid : UInt8) : Message :=
  ⟨MessageId.setupSigning, seq, sysid, compid, s.payload⟩

theorem decode_withoutSignature (f : Frame) : decode f.withoutSignature = decode f := rfl

theorem decode_of_trims {f : Frame} {s : SetupSigning} (hid : f.msgId = MessageId.setupSigning)
    (h : Trims f.payload s.payload) : decode f = .ok s := by
  have hpayload : f.payload.fit payloadWidth = s.payload := by
    rw [← s.length_payload]
    exact h.fit_eq
  rw [decode, if_pos hid, ← ofPayload_fit, hpayload, ofPayload_payload]

/-- A request arrives as it was sent, over any hops and whether or not it is signed.  A frame with the id of requests
is read as the request whose payload is that of the frame, cut or filled up with zeros. -/
theorem arrives_as_sent (s : SetupSigning) (seq sysid compid : UInt8) (signing : Option SigningParams)
    (hops : List Hop) :
    (∃ f g, (s.message seq sysid compid).encode signing = .ok f ∧ (s.message seq sysid compid).Sends signing f ∧
      hops.foldlM Hop.pass f = some g ∧ decode g = .ok s) ∧
    ∀ f : Frame, f.msgId = MessageId.setupSigning →
      ∃ r, decode f = .ok r ∧ r.payload = f.payload.fit 42 := by
  constructor
  · have hlength : (s.message seq sysid compid).payload.length ≤ 255 := by
      rw [message, length_payload]
      decide
    obtain ⟨f, hf, hsends⟩ := Message.encode_sends hlength (by simp [message, MessageId.setupSigning]) rfl signing
    obtain ⟨g, hg, hsame⟩ := Hop.passEach_keeps hsends.version hops
    refine ⟨f, g, hf, hsends, hg, ?_⟩
    calc decode g
      _ = decode g.withoutSignature := (decode_withoutSignature g).symm
      _ = decode f := by rw [hsame, decode_withoutSignature]
      _ = .ok s := decode_of_trims hsends.msgId hsends.payload
  · intro f hid
    exact ⟨ofPayload f.payload, if_pos hid, payload_ofPayload f.payload⟩

def blank : SetupSigning := ⟨0, 0, 0, Block.zero 32⟩

def overlong : Frame where
  header := ⟨.plain ⟨256, by decide⟩, 0, 1, 1⟩
  payload := List.replicate 50 0xFF
  seed := 71
  trailer := none
  length_payload_le := by decide
  seed_mem := by decide
  v1_unsigned := fun _ => rfl

theorem arrives_as_sent_blank :
    (∃ f g, (blank.message 7 1 1).encode none = .ok f ∧ f.payload = [0] ∧
      [Hop.read, .sign ⟨Block.zero 32, 5, 77⟩, .read, .strip].foldlM Hop.pass f = some g ∧ decode g = .ok blank) ∧
    overlong.msgId = MessageId.setupSigning ∧
      ∃ r, decode overlong = .ok r ∧ r.payload = List.replicate 42 0xFF := by
  obtain ⟨⟨f, g, hf, hsends, hg, hdecode⟩, hpayload⟩ :=
    arrives_as_sent blank 7 1 1 none [.read, .sign ⟨Block.zero 32, 5, 77⟩, .read, .strip]
  exact ⟨⟨f, g, hf, trims_iff.mp hsends.payload, hg, hdecode⟩, rfl, hpayload overlong rfl⟩

end SetupSigning

end GatedRelay
