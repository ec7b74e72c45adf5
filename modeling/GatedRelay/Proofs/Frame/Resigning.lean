import GatedRelay.Proofs.Frame.Grammar
import GatedRelay.Proofs.Signing.Check

/-!
# Frames that are signed again or lose their signature

Signing a frame replaces its signature, and stripping it removes it; the message stays, whether its seed is known or
was found with the frame.  The checksum covers the flag that says whether there is a signature, so it is computed anew
in both directions, and the result is still read as the one frame that it is (`signed_or_unsigned`).
-/

set_option autoImplicit false

namespace GatedRelay.Frame

/-! ## Header and payload in the bytes -/

def text (f : Frame) : Bytes := f.bytes.take (Grammar.textLength f.version f.bytes)

theorem textLength_bytes (f : Frame) : Grammar.textLength f.version f.bytes = (f.content f.isSigned).length + 1 := by
  obtain ⟨tail, hbytes⟩ := f.bytes_eq
  have hread : Announced.read f.version (f.header.bytes f.payload.length f.isSigned ++ tail) =
      some (f.announced, tail) := Announced.read_bytes f.header f.payload.length f.unsigned_of_v1 tail
  obtain ⟨htext, _, _, hhead⟩ := Grammar.of_announced hread
  rw [← hbytes, length_announced] at htext
  rw [length_announced] at hhead
  rw [htext, ← hhead, content, List.length_append]
  exact Nat.add_right_comm _ _ _

theorem bytes_eq_content_append (f : Frame) : f.bytes = (f.version.start :: f.content f.isSigned) ++
    (Bytes.ofNat 2 (f.checksum f.isSigned).toNat ++ f.trailer.elim [] Trailer.bytes) := by
  rw [bytes_eq_front, front, List.append_assoc]

theorem text_eq (f : Frame) : f.text = f.version.start :: f.content f.isSigned := by
  rw [text, textLength_bytes, bytes_eq_content_append]
  exact List.take_left' rfl

/-- The third byte holds the flags, and nothing else depends on whether there is a signature. -/
theorem content_eq_modify {f : Frame} (h : f.version = .v2) {signed signed' : Bool} {set : UInt8 → UInt8}
    (hset : ∀ flags : Fin 128,
      set (UInt8.ofNat (2 * flags.val + signed.toNat)) = UInt8.ofNat (2 * flags.val + signed'.toNat)) :
    f.version.start :: f.content signed' = (f.version.start :: f.content signed).modify 2 set := by
  obtain ⟨⟨format, seq, sysid, compid⟩, payload, seed, trailer, _, _, _⟩ := f
  cases format with
  | v1 id => cases h
  | v2 flags compat id =>
    simp only [content, Header.bytes, List.cons_append, List.modify_succ_cons, List.modify_zero_cons, hset flags]

theorem or_signature_flag : ∀ (signed : Bool) (flags : Fin 128),
    UInt8.ofNat (2 * flags.val + signed.toNat) ||| 1 = UInt8.ofNat (2 * flags.val + true.toNat) := by
  decide +kernel

theorem and_other_flags : ∀ (signed : Bool) (flags : Fin 128),
    UInt8.ofNat (2 * flags.val + signed.toNat) &&& 0xFE = UInt8.ofNat (2 * flags.val + false.toNat) := by
  decide +kernel

/-! ## Signing -/

structure Resigns (g f : Frame) (p : SigningParams) : Prop where
  alone : parseDatagram g.bytes = [g]
  text : g.text = f.text.modify 2 (· ||| 1)
  trailer : ∃ t, g.trailer = some t ∧ t.linkId = p.linkId ∧ t.timestamp.val = p.timestamp.toNat % 0x1000000000000 ∧
    p.secret.verifies (g.signedPart t) t.signature.bytes = true
  stripped : g.withoutSignature = f.withoutSignature

theorem resigns_sign (f : Frame) (h : f.version = .v2) (p : SigningParams) : (f.sign h p).Resigns f p where
  alone := parseDatagram_bytes _
  text := by
    rw [text_eq, text_eq]
    exact content_eq_modify h (or_signature_flag f.isSigned)
  trailer := ⟨f.trailerFor p, rfl, rfl, rfl, f.verifies_sign h p⟩
  stripped := rfl

theorem signedWith_of_v1 {f : Frame} (h : f.version = .v1) (p : SigningParams) : f.signedWith p = none :=
  dif_neg fun hv2 => by rw [h] at hv2; cases hv2

theorem signedWith_of_v2 {f : Frame} (h : f.version = .v2) (p : SigningParams) : f.signedWith p = some (f.sign h p) :=
  dif_pos h

/-! ## Stripping -/

theorem withoutSignature_of_unsigned {f : Frame} (h : f.isSigned = false) : f.withoutSignature = f := by
  obtain ⟨header, payload, seed, trailer, _, _, _⟩ := f
  cases trailer with
  | none => rfl
  | some t => cases h

structure Strips (g f : Frame) : Prop where
  alone : parseDatagram g.bytes = [g]
  unsigned : g.isSigned = false
  text : g.text = f.text.modify 2 (· &&& 0xFE)
  again : g.withoutSignature = g
  same : f.isSigned = false → g = f

theorem strips_withoutSignature {f : Frame} (h : f.version = .v2) : f.withoutSignature.Strips f where
  alone := parseDatagram_bytes _
  unsigned := rfl
  text := by
    rw [text_eq, text_eq]
    exact content_eq_modify h (and_other_flags f.isSigned)
  again := rfl
  same := withoutSignature_of_unsigned

/-- A frame of the second version can be signed and stripped in any order, and its message stays; one of the first
version cannot be signed and has no signature to lose.  Every frame is one that a parser gives out. -/
theorem signed_or_unsigned (f : Frame) (p : SigningParams) :
    parseDatagram f.bytes = [f] ∧
      match f.version with
      | .v1 => f.signedWith p = none ∧ f.withoutSignature = f
      | .v2 => (∃ g, f.signedWith p = some g ∧ g.Resigns f p) ∧ f.withoutSignature.Strips f ∧
          f.withoutSignature.signedWith p = f.signedWith p := by
  refine ⟨parseDatagram_bytes f, ?_⟩
  cases hversion : f.version with
  | v1 => exact ⟨signedWith_of_v1 hversion p, withoutSignature_of_unsigned (f.unsigned_of_v1 hversion)⟩
  | v2 =>
    refine ⟨⟨_, signedWith_of_v2 hversion p, f.resigns_sign hversion p⟩, strips_withoutSignature hversion, ?_⟩
    rw [signedWith_of_v2 hversion, signedWith_of_v2 (f := f.withoutSignature) hversion]
    rfl

end GatedRelay.Frame
