import GatedRelay.Frame.Message
import GatedRelay.Proofs.Frame.Grammar
import GatedRelay.Proofs.Signing.Check
import Mathlib.Data.List.DropRight

/-!
# Messages and the frames they are sent as

The zeros at the end of a payload are not sent, but its first byte always is, and that leaves one way to send it
(`trims_iff`).  A message is refused for its length, then for the range of its id, then for an id without a known seed.
Any other message is one frame to a parser, signed or not, and all of the message is read in it (`refused_or_sent`).
-/

set_option autoImplicit false

namespace GatedRelay

/-! ## Zeros that are not sent -/

/-- What is sent of a payload: all but the zeros at its end, and at least its first byte. -/
structure Trims (sent given : Bytes) : Prop where
  restored : sent ++ List.replicate (given.length - sent.length) 0 = given
  first : given ≠ [] → sent ≠ []
  last : 1 < sent.length → sent.getLast? ≠ some 0

theorem trimZeros_cons (b : UInt8) (rest : Bytes) : trimZeros (b :: rest) = b :: rest.rdropWhile (· = 0) := rfl

theorem rdropWhile_append_zeros (b : Bytes) :
    b.rdropWhile (· = 0) ++ List.replicate (b.length - (b.rdropWhile (· = 0)).length) 0 = b := by
  have hsplit : b.rdropWhile (· = 0) ++ b.rtakeWhile (· = 0) = b := List.rdropWhile_append_rtakeWhile
  have hzeros : b.rtakeWhile (· = 0) = List.replicate (b.rtakeWhile (· = 0)).length 0 := by
    apply List.eq_replicate_of_mem
    intro x hx
    simpa using List.mem_rtakeWhile_imp hx
  have hlength := congrArg List.length hsplit
  rw [List.length_append] at hlength
  rw [← hlength, Nat.add_sub_cancel_left, ← hzeros, hsplit]

theorem rdropWhile_zeros (b : Bytes) (n : Nat) :
    (b ++ List.replicate n 0).rdropWhile (· = 0) = b.rdropWhile (· = 0) := by
  induction n with
  | zero => rw [List.replicate_zero, List.append_nil]
  | succ n ih =>
    rw [List.replicate_succ', ← List.append_assoc, List.rdropWhile_concat_pos _ _ _ (by simp), ih]

theorem rdropWhile_eq_self {b : Bytes} (h : b.getLast? ≠ some 0) : b.rdropWhile (· = 0) = b := by
  rw [List.rdropWhile_eq_self_iff]
  intro hne hzero
  rw [List.getLast?_eq_getLast_of_ne_nil hne, of_decide_eq_true hzero] at h
  exact h rfl

theorem getLast?_rdropWhile_ne (b : Bytes) : (b.rdropWhile (· = 0)).getLast? ≠ some 0 := by
  intro h
  have hne : b.rdropWhile (· = 0) ≠ [] := by
    intro hnil
    rw [hnil] at h
    cases h
  rw [List.getLast?_eq_getLast_of_ne_nil hne] at h
  exact List.rdropWhile_last_not _ b hne (decide_eq_true (Option.some.inj h))

theorem trims_iff {sent given : Bytes} : Trims sent given ↔ sent = trimZeros given := by
  constructor
  · rintro ⟨hrestored, hfirst, hlast⟩
    cases sent with
    | nil =>
      cases given with
      | nil => rfl
      | cons b rest => exact absurd rfl (hfirst (List.cons_ne_nil b rest))
    | cons b rest =>
      have hrest : rest.getLast? ≠ some 0 := by
        cases rest with
        | nil => simp
        | cons c rest => exact hlast (by simp)
      rw [← hrestored, List.cons_append, trimZeros_cons, rdropWhile_zeros, rdropWhile_eq_self hrest]
  · rintro rfl
    cases given with
    | nil => exact ⟨rfl, fun h => absurd rfl h, fun h => absurd h (by decide)⟩
    | cons b rest =>
      rw [trimZeros_cons]
      refine ⟨?_, fun _ => List.cons_ne_nil _ _, fun hlong => ?_⟩
      · rw [List.length_cons, List.length_cons, Nat.add_sub_add_right, List.cons_append, rdropWhile_append_zeros]
      · have hne : rest.rdropWhile (· = 0) ≠ [] := List.length_pos_iff.mp (Nat.lt_of_succ_lt_succ hlong)
        rw [List.getLast?_cons_of_ne_nil hne]
        exact getLast?_rdropWhile_ne rest

/-! ## Signatures -/

structure Frame.SignedAs (f : Frame) (p : SigningParams) (t : Trailer) : Prop where
  trailer : f.trailer = some t
  linkId : t.linkId = p.linkId
  timestamp : t.timestamp.val = p.timestamp.toNat % 0x1000000000000
  verifies : p.secret.verifies (f.bytes.rdrop 6) t.signature.bytes = true

theorem Frame.rdrop_bytes {f : Frame} {t : Trailer} (h : f.trailer = some t) : f.bytes.rdrop 6 = f.signedPart t := by
  have hbytes : f.bytes = f.signedPart t ++ t.signature.bytes := by rw [bytes, h, signedPart]
  rw [List.rdrop, hbytes, List.length_append, t.signature.length_eq, Nat.add_sub_cancel]
  exact List.take_left

theorem Frame.signedAs_sign (f : Frame) (h : f.version = .v2) (p : SigningParams) :
    (f.sign h p).SignedAs p (f.trailerFor p) where
  trailer := rfl
  linkId := rfl
  timestamp := rfl
  verifies := by
    rw [rdrop_bytes (t := f.trailerFor p) rfl]
    exact f.verifies_sign h p

/-! ## Refused messages and sent ones -/

namespace Message

inductive Refused (m : Message) : FrameError → Prop
  | tooLong (hlength : 255 < m.payload.length) : Refused m (.payloadTooLong m.payload.length)
  | outOfRange (hlength : m.payload.length ≤ 255) (hid : 0xFFFFFF < m.msgId) : Refused m (.messageIdOutOfRange m.msgId)
  | unknown (hlength : m.payload.length ≤ 255) (hid : m.msgId ≤ 0xFFFFFF)
      (hseed : Checksum.knownSeed m.msgId = none) : Refused m (.unknownMessage m.msgId)

structure Sends (m : Message) (signing : Option SigningParams) (f : Frame) : Prop where
  alone : parseDatagram f.bytes = [f]
  version : f.version = .v2
  msgId : f.msgId = m.msgId
  seq : f.header.seq = m.seq
  sysid : f.header.sysid = m.sysid
  compid : f.header.compid = m.compid
  payload : Trims f.payload m.payload
  signature : match signing with
    | none => f.trailer = none
    | some p => ∃ t, f.SignedAs p t

variable {m : Message}

theorem encode_of_refused {e : FrameError} (h : m.Refused e) (signing : Option SigningParams) :
    m.encode signing = .error e := by
  cases h with
  | tooLong hlength => rw [encode, dif_pos hlength]
  | outOfRange hlength hid => rw [encode, dif_neg (Nat.not_lt_of_le hlength), dif_pos (Nat.succ_le_of_lt hid)]
  | unknown hlength hid hseed =>
    rw [encode, dif_neg (Nat.not_lt_of_le hlength), dif_neg (Nat.not_le_of_lt (Nat.lt_succ_of_le hid))]
    split
    · rfl
    · rename_i seed hsome
      rw [hseed] at hsome
      cases hsome

theorem refused_or_known (m : Message) :
    (∃ e, m.Refused e) ∨
      m.payload.length ≤ 255 ∧ m.msgId < 0x1000000 ∧ ∃ seed, Checksum.knownSeed m.msgId = some seed := by
  rcases Nat.lt_or_ge 255 m.payload.length with hlength | hlength
  · exact .inl ⟨_, .tooLong hlength⟩
  rcases Nat.lt_or_ge (0xFFFFFF) m.msgId with hid | hid
  · exact .inl ⟨_, .outOfRange hlength hid⟩
  cases hseed : Checksum.knownSeed m.msgId with
  | none => exact .inl ⟨_, .unknown hlength hid hseed⟩
  | some seed => exact .inr ⟨hlength, Nat.lt_succ_of_le hid, seed, rfl⟩

theorem encode_sends {seed : UInt8} (hlength : m.payload.length ≤ 255) (hid : m.msgId < 0x1000000)
    (hseed : Checksum.knownSeed m.msgId = some seed) (signing : Option SigningParams) :
    ∃ f, m.encode signing = .ok f ∧ m.Sends signing f := by
  have hencode : m.encode signing = .ok (signing.elim (m.frame seed hlength hid hseed)
      ((m.frame seed hlength hid hseed).sign rfl)) := by
    rw [encode, dif_neg (Nat.not_lt_of_le hlength), dif_neg (Nat.not_le_of_lt hid)]
    split
    · rename_i hnone
      rw [hseed] at hnone
      cases hnone
    · rename_i seed' hsome
      obtain rfl : seed = seed' := Option.some.inj (hseed.symm.trans hsome)
      cases signing <;> rfl
  refine ⟨_, hencode, ?_⟩
  cases signing with
  | none => exact ⟨parseDatagram_bytes _, rfl, rfl, rfl, rfl, rfl, trims_iff.mpr rfl, rfl⟩
  | some p =>
    exact ⟨parseDatagram_bytes _, rfl, rfl, rfl, rfl, rfl, trims_iff.mpr rfl, _, Frame.signedAs_sign _ rfl p⟩

/-- A message is refused for the first reason there is, and otherwise sent. -/
theorem refused_or_sent (m : Message) (signing : Option SigningParams) :
    (∀ e, m.encode signing = .error e ↔ m.Refused e) ∧
      ((∃ e, m.Refused e) ∨ ∃ f, m.encode signing = .ok f ∧ m.Sends signing f) := by
  rcases m.refused_or_known with ⟨e, hrefused⟩ | ⟨hlength, hid, seed, hseed⟩
  · refine ⟨fun e' => ⟨fun herror => ?_, fun h => encode_of_refused h signing⟩, .inl ⟨e, hrefused⟩⟩
    rw [encode_of_refused hrefused] at herror
    cases herror
    exact hrefused
  · obtain ⟨f, hf, hsends⟩ := encode_sends hlength hid hseed signing
    refine ⟨fun e => ⟨fun herror => ?_, fun h => encode_of_refused h signing⟩, .inr ⟨f, hf, hsends⟩⟩
    rw [hf] at herror
    cases herror

end Message

end GatedRelay
