import GatedRelay.Proofs.Frame.Resigning
import GatedRelay.Proofs.Frame.Encoding

/-!
# Where a frame has its fields

What a frame means can be looked up in its bytes, at places that depend on its version and its length byte only.  Each
look-up here fails if one of its places lies outside the bytes; in the bytes of a frame none does, and each finds what
the frame has.  A message that is sealed under any seed byte is a frame, and the seed is found again in its bytes, be it
signed or not (`seed_recovered`).
-/

set_option autoImplicit false

namespace GatedRelay

namespace Layout

open Grammar (headLength routingPlace)

/-! ## Looking up -/

def slice? (d : Bytes) (start stop : Nat) : Option Bytes :=
  if start ≤ stop ∧ stop ≤ d.length then some (d.field start (stop - start)) else none

def splitEnd? (d : Bytes) (n : Nat) : Option (Bytes × Bytes) :=
  if n ≤ d.length then some (d.rdrop n, d.rtake n) else none

def seq? (v : Version) (d : Bytes) : Option UInt8 := d[routingPlace v]?

def sysid? (v : Version) (d : Bytes) : Option UInt8 := d[routingPlace v + 1]?

def compid? (v : Version) (d : Bytes) : Option UInt8 := d[routingPlace v + 2]?

def msgId? : Version → Bytes → Option Nat
  | .v1, d => d[5]?.map UInt8.toNat
  | .v2, d => do return Bytes.toNat [← d[7]?, ← d[8]?, ← d[9]?]

def isSigned? : Version → Bytes → Option Bool
  | .v1, _ => some false
  | .v2, d => d[2]?.map fun flags => flags &&& 1 ≠ 0

def textEnd? (v : Version) (d : Bytes) : Option Nat := d[1]?.map fun length => headLength v + length.toNat

def payload? (v : Version) (d : Bytes) : Option Bytes := do slice? d (headLength v) (← textEnd? v d)

def checksum? (v : Version) (d : Bytes) : Option UInt16 := do
  let place ← textEnd? v d
  return UInt16.ofNat (Bytes.toNat [← d[place]?, ← d[place + 1]?])

/-- The first of the permitted seeds that explains the checksum, if one does. -/
def seed? (v : Version) (d : Bytes) : Option (Option UInt8) := do
  let covered ← slice? d 1 (← textEnd? v d)
  return Checksum.recoverSeed (← msgId? v d) covered (← checksum? v d)

def trailer? (v : Version) (d : Bytes) : Option (Option Trailer) := do
  if ← isSigned? v d then
    let (_, block) ← splitEnd? d 13
    let stamp ← slice? block 1 7
    return some ⟨← block[0]?, Stamp.ofNat (Bytes.toNat stamp), Block.ofBytes 6 (← slice? block 7 13)⟩
  else return none

def signedPart? (v : Version) (d : Bytes) : Option (Option Bytes) := do
  if ← isSigned? v d then return some (← splitEnd? d 6).1
  else return none

/-! ## Sealing -/

/-- A header and a payload with their checksum and, where there is something to sign with, a signature. -/
def sealed (text : Bytes) (seed : UInt8) (signing : Option SigningParams) : Bytes :=
  let front := text ++ Bytes.ofNat 2 (Checksum.seeded text.tail seed).toNat
  match signing with
  | none => front
  | some p =>
    let covered := front ++ p.linkId :: (Stamp.ofClock p.timestamp).bytes
    covered ++ (Secret.sign p.secret covered).bytes

def mark? (text : Bytes) (signed : Bool) : Option Bytes :=
  text[2]?.map fun flags => text.set 2 (if signed then flags ||| 1 else flags &&& 0xFE)

/-- The message with another signature or with none, if its version and its checksum allow it. -/
def reseal? (v : Version) (d : Bytes) (signing : Option SigningParams) : Option (Option Bytes) :=
  match v with
  | .v1 => some none
  | .v2 => do
    match ← seed? v d with
    | none => return none
    | some seed =>
      let text ← slice? d 0 (← textEnd? v d)
      return some (sealed (← mark? text signing.isSome) seed signing)

def unsigned? (v : Version) (d : Bytes) : Option Bytes := do
  if ← isSigned? v d then return (← reseal? v d none).getD d
  else return d

/-! ## Looking up in the bytes of a frame -/

theorem slice?_append (before : Bytes) {part : Bytes} {start stop : Nat} (hstart : before.length = start)
    (hstop : start + part.length = stop) (rest : Bytes) : slice? (before ++ (part ++ rest)) start stop = some part := by
  have hin : start ≤ stop ∧ stop ≤ (before ++ (part ++ rest)).length := by
    simp only [List.length_append]
    omega
  rw [slice?, if_pos hin, Bytes.field, List.drop_left' hstart, List.take_left' (by omega)]

theorem flags_and_one : ∀ (signed : Bool) (flags : Fin 128),
    decide (UInt8.ofNat (2 * flags.val + signed.toNat) &&& 1 ≠ 0) = signed := by
  decide +kernel

theorem of_header (h : Header) (length : Nat) {signed : Bool} (hsigned : h.version = .v1 → signed = false)
    (tail : Bytes) :
    let d := h.version.start :: (h.bytes length signed ++ tail)
    seq? h.version d = some h.seq ∧ sysid? h.version d = some h.sysid ∧ compid? h.version d = some h.compid ∧
      msgId? h.version d = some h.msgId ∧ isSigned? h.version d = some signed ∧
      textEnd? h.version d = some (headLength h.version + (UInt8.ofNat length).toNat) := by
  obtain ⟨format, seq, sysid, compid⟩ := h
  cases format with
  | v1 id =>
    rw [hsigned rfl]
    exact ⟨rfl, rfl, rfl, rfl, rfl, rfl⟩
  | v2 flags compat id =>
    refine ⟨rfl, rfl, rfl, ?_, ?_, rfl⟩
    · have hid : Bytes.toNat (Bytes.ofNat 3 id.val) = id.val := by
        rw [Bytes.toNat_ofNat]
        exact Nat.mod_eq_of_lt id.isLt
      exact congrArg some hid
    · exact congrArg some (flags_and_one signed flags)

section Frame

variable (f : Frame)

theorem of_bytes :
    seq? f.version f.bytes = some f.header.seq ∧ sysid? f.version f.bytes = some f.header.sysid ∧
      compid? f.version f.bytes = some f.header.compid ∧ msgId? f.version f.bytes = some f.msgId ∧
      isSigned? f.version f.bytes = some f.isSigned ∧
      textEnd? f.version f.bytes = some (headLength f.version + f.payload.length) := by
  obtain ⟨tail, hbytes⟩ := f.bytes_eq
  have hlength : (UInt8.ofNat f.payload.length).toNat = f.payload.length := f.length_announced
  have hheader := of_header f.header f.payload.length f.unsigned_of_v1 tail
  rw [hlength] at hheader
  rw [hbytes]
  exact hheader

theorem length_header : (f.version.start :: f.header.bytes f.payload.length f.isSigned).length = headLength f.version := by
  obtain ⟨⟨format, _, _, _⟩, _, _, _, _, _, _⟩ := f
  cases format <;> rfl

theorem length_text :
    (f.version.start :: f.content f.isSigned).length = headLength f.version + f.payload.length := by
  rw [Frame.content, ← List.cons_append, List.length_append, length_header]

theorem payload?_bytes : payload? f.version f.bytes = some f.payload := by
  obtain ⟨_, _, _, _, _, hend⟩ := of_bytes f
  rw [payload?, hend, Frame.bytes_eq_content_append, Frame.content, ← List.cons_append, List.append_assoc]
  exact slice?_append _ (length_header f) rfl _

theorem text?_bytes :
    slice? f.bytes 0 (headLength f.version + f.payload.length) = some (f.version.start :: f.content f.isSigned) := by
  rw [Frame.bytes_eq_content_append, ← length_text]
  exact slice?_append [] rfl (Nat.zero_add _) _

theorem covered?_bytes :
    slice? f.bytes 1 (headLength f.version + f.payload.length) = some (f.content f.isSigned) := by
  rw [Frame.bytes_eq_content_append, ← length_text, ← List.singleton_append, List.append_assoc]
  exact slice?_append _ rfl (Nat.add_comm _ _) _

theorem checksum?_bytes : checksum? f.version f.bytes = some (f.checksum f.isSigned) := by
  obtain ⟨_, _, _, _, _, hend⟩ := of_bytes f
  have hbehind (text tail : Bytes) (i : Nat) : (text ++ tail)[text.length + i]? = tail[i]? := by
    rw [List.getElem?_append_right (Nat.le_add_right _ _), Nat.add_sub_cancel_left]
  rw [checksum?, hend, Frame.bytes_eq_content_append, ← length_text]
  simp only [Option.bind_eq_bind, Option.bind_some, hbehind _ _ 1]
  rw [← Nat.add_zero (List.length _), hbehind _ _ 0]
  exact congrArg some (UInt16.ofNat_toNat_bytes _)

theorem seed?_bytes : seed? f.version f.bytes = some (some f.seed) := by
  obtain ⟨_, _, _, hid, _, hend⟩ := of_bytes f
  rw [seed?, hend, hid, checksum?_bytes]
  simp only [Option.bind_eq_bind, Option.bind_some, covered?_bytes]
  exact congrArg some (Checksum.recoverSeed_seeded f.seed_mem _)

theorem splitEnd?_append {front back : Bytes} {n : Nat} (h : back.length = n) :
    splitEnd? (front ++ back) n = some (front, back) := by
  have hlength : (front ++ back).length - n = front.length := by
    rw [List.length_append, h, Nat.add_sub_cancel]
  have hin : n ≤ (front ++ back).length := by
    rw [List.length_append]
    omega
  rw [splitEnd?, if_pos hin, List.rdrop, List.rtake, hlength, List.take_left, List.drop_left]

theorem trailer?_bytes : trailer? f.version f.bytes = some f.trailer := by
  obtain ⟨_, _, _, _, hsigned, _⟩ := of_bytes f
  rw [trailer?, hsigned, Frame.isSigned]
  cases ht : f.trailer with
  | none => rfl
  | some t =>
    have hwidth : t.timestamp.bytes.length = 6 := Bytes.length_ofNat 6 _
    have hstamp : slice? t.bytes 1 7 = some t.timestamp.bytes :=
      slice?_append [t.linkId] rfl (by rw [hwidth]) t.signature.bytes
    have hsignature : slice? t.bytes 7 13 = some t.signature.bytes := by
      have hcovered : t.covered.length = 7 := congrArg (· + 1) hwidth
      have hend : 7 + t.signature.bytes.length = 13 := by rw [t.signature.length_eq]
      have hslice := slice?_append t.covered hcovered hend []
      rwa [List.append_nil] at hslice
    have hend : splitEnd? f.bytes 13 = some (f.front f.isSigned, t.bytes) := by
      rw [Frame.bytes_eq_front, ht]
      exact splitEnd?_append t.length_bytes
    have hfirst : t.bytes[0]? = some t.linkId := rfl
    simp only [Option.isSome_some, if_true, Option.bind_eq_bind, Option.bind_some, hend, hstamp, hsignature, hfirst,
      Stamp.ofNat_toNat_bytes, Block.ofBytes_bytes]
    rfl

theorem signedPart?_bytes : signedPart? f.version f.bytes = some (f.trailer.map f.signedPart) := by
  obtain ⟨_, _, _, _, hsigned, _⟩ := of_bytes f
  rw [signedPart?, hsigned, Frame.isSigned]
  cases ht : f.trailer with
  | none => rfl
  | some t =>
    have hend : splitEnd? f.bytes 6 = some (f.signedPart t, t.signature.bytes) := by
      rw [Frame.bytes, ht]
      exact splitEnd?_append t.signature.length_eq
    simp only [Option.isSome_some, if_true, Option.bind_eq_bind, Option.bind_some, hend]
    rfl

end Frame

/-! ## Sealing again -/

def resigned (f : Frame) (h : f.version = .v2) : Option SigningParams → Frame
  | none => f.withoutSignature
  | some p => f.sign h p

theorem sealed_content {f : Frame} (h : f.version = .v2) (signing : Option SigningParams) :
    sealed (f.version.start :: f.content signing.isSome) f.seed signing = (resigned f h signing).bytes := by
  cases signing <;> rfl

theorem mark?_content {f : Frame} (h : f.version = .v2) (signed signed' : Bool) :
    mark? (f.version.start :: f.content signed) signed' = some (f.version.start :: f.content signed') := by
  obtain ⟨⟨format, _, _, _⟩, payload, _, _, _, _, _⟩ := f
  cases format with
  | v1 id => cases h
  | v2 flags compat id =>
    cases signed' with
    | false => exact congrArg (fun b => some (_ :: _ :: b :: _)) (Frame.and_other_flags signed flags)
    | true => exact congrArg (fun b => some (_ :: _ :: b :: _)) (Frame.or_signature_flag signed flags)

theorem reseal?_of_v2 {f : Frame} (h : f.version = .v2) (signing : Option SigningParams) :
    reseal? f.version f.bytes signing = some (some (resigned f h signing).bytes) := by
  obtain ⟨_, _, _, _, _, hend⟩ := of_bytes f
  have hseed := seed?_bytes f
  have htext := text?_bytes f
  have hmark := mark?_content h f.isSigned signing.isSome
  rw [← sealed_content]
  rw [h] at hend hseed htext hmark ⊢
  simp only [reseal?, hseed, hend, htext, hmark, Option.bind_eq_bind, Option.bind_some]
  rfl

theorem reseal?_some (f : Frame) (p : SigningParams) :
    reseal? f.version f.bytes (some p) = some ((f.signedWith p).map Frame.bytes) := by
  cases h : f.version with
  | v1 =>
    rw [Frame.signedWith_of_v1 h]
    rfl
  | v2 =>
    rw [← h, reseal?_of_v2 h, Frame.signedWith_of_v2 h]
    rfl

theorem unsigned?_bytes (f : Frame) : unsigned? f.version f.bytes = some f.withoutSignature.bytes := by
  obtain ⟨_, _, _, _, hsigned, _⟩ := of_bytes f
  rw [unsigned?, hsigned]
  cases hs : f.isSigned with
  | false =>
    rw [Frame.withoutSignature_of_unsigned hs]
    rfl
  | true =>
    cases h : f.version with
    | v1 =>
      rw [f.unsigned_of_v1 h] at hs
      cases hs
    | v2 =>
      rw [← h, reseal?_of_v2 h]
      rfl

/-- A message under an id without a known seed, sealed under any seed, is read with this seed.  No text has one checksum
under two seeds. -/
theorem seed_recovered :
    (∀ (h : Header) (payload : Bytes) (seed : UInt8) (signing : Option SigningParams), h.version = .v2 →
      payload.length ≤ 255 → Checksum.knownSeed h.msgId = none →
        let d := sealed (Version.v2.start :: (h.bytes payload.length signing.isSome ++ payload)) seed signing
        seed? .v2 d = some (some seed) ∧
          ∃ f : Frame, Frame.read d = .frame f [] ∧ f.header = h ∧ f.payload = payload ∧ f.seed = seed) ∧
      ∀ (text : Bytes) (checksum : UInt16) (seed seed' : UInt8), Checksum.seeded text seed = checksum →
        Checksum.seeded text seed' = checksum → seed = seed' := by
  constructor
  · intro h payload seed signing hversion hlength hunknown
    have hmem : seed ∈ Checksum.seedsFor h.msgId := by
      rw [Checksum.seedsFor, hunknown]
      exact Checksum.mem_everyByte seed
    let f : Frame := ⟨h, payload, seed, none, hlength, hmem, fun _ => rfl⟩
    have hsealed : sealed (Version.v2.start :: (h.bytes payload.length signing.isSome ++ payload)) seed signing =
        (resigned f hversion signing).bytes := by
      rw [← hversion]
      exact sealed_content (f := f) hversion signing
    have hfields : (resigned f hversion signing).version = .v2 ∧ (resigned f hversion signing).header = h ∧
        (resigned f hversion signing).payload = payload ∧ (resigned f hversion signing).seed = seed := by
      cases signing <;> exact ⟨hversion, rfl, rfl, rfl⟩
    obtain ⟨hv2, hheader, hpayload, hseed⟩ := hfields
    have hfound := seed?_bytes (resigned f hversion signing)
    rw [hv2, hseed] at hfound
    simp only [hsealed]
    exact ⟨hfound, _, Frame.read_bytes_alone _, hheader, hpayload, hseed⟩
  · rintro text _ seed seed' rfl hsame
    exact (Checksum.seeded_injective text hsame).symm

def flaggedHeader : Header := ⟨.ofNumbers 2 7 30, 4, 1, 1⟩

theorem seed_recovered_flagged :
    (flaggedHeader.version = .v2 ∧ Checksum.knownSeed flaggedHeader.msgId = none ∧
      let text := Version.v2.start :: (flaggedHeader.bytes 3 true ++ [0x10, 0x20, 0x30])
      let d := sealed text 39 (some ⟨Block.zero 32, 5, 77⟩)
      seed? .v2 d = some (some 39) ∧
        ∃ f : Frame, Frame.read d = .frame f [] ∧ f.header = flaggedHeader ∧ f.payload = [0x10, 0x20, 0x30] ∧
          f.seed = 39) ∧
      Checksum.seeded [1, 2] 39 = 0x05E2 ∧ Checksum.seeded [1, 2] 40 ≠ 0x05E2 := by
  obtain ⟨hsealed, hunique⟩ := seed_recovered
  have hsum : Checksum.seeded [1, 2] 39 = 0x05E2 := by decide
  have hother : Checksum.seeded [1, 2] 40 ≠ 0x05E2 := fun h => absurd (hunique [1, 2] _ 40 39 h hsum) (by decide)
  exact ⟨⟨rfl, rfl, hsealed flaggedHeader [0x10, 0x20, 0x30] 39 (some ⟨Block.zero 32, 5, 77⟩) rfl (by decide) rfl⟩,
    hsum, hother⟩

end Layout

end GatedRelay
