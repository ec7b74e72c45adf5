import GatedRelay.Frame.StatusText
import GatedRelay.Proofs.Frame.Accounting
import GatedRelay.Proofs.Frame.Layout
import GatedRelay.Proofs.Frame.Noise

/-!
# How frames come about

A parser gives out frames, messages are written as frames, and from the bytes of a frame the same message can be sealed
again, under a signature or under none.  Sealing again changes the flag on which the length of a frame depends, and its
checksum with it.  Whatever is obtained in these ways has the length that its header announces and a seed, and nothing
that is looked up in it lies outside its bytes (`laid_out_of_obtained`).
-/

set_option autoImplicit false

namespace GatedRelay

namespace Layout

open Grammar (headLength)

/-- A version and bytes that come from a parser, from a message, or from other such bytes that are sealed again. -/
inductive Obtained : Version → Bytes → Prop where
  | parsed (calls : List Parser.Call) {f : Frame} (h : f ∈ (Parser.after calls).2) : Obtained f.version f.bytes
  | encoded {m : Message} {signing : Option SigningParams} {f : Frame} (h : m.encode signing = .ok f) :
      Obtained f.version f.bytes
  | statusText (sysid compid severity : UInt8) (text : String) :
      Obtained (StatusText.frame sysid compid severity text).version (StatusText.frame sysid compid severity text).bytes
  | signed {v : Version} {d d' : Bytes} {p : SigningParams} (h : Obtained v d)
      (hd : reseal? v d (some p) = some (some d')) : Obtained .v2 d'
  | stripped {v : Version} {d d' : Bytes} (h : Obtained v d) (hd : unsigned? v d = some d') : Obtained v d'

structure Represents (f : Frame) (v : Version) (d : Bytes) : Prop where
  version : f.version = v
  bytes : f.bytes = d
  msgId : msgId? v d = some f.msgId
  seq : seq? v d = some f.header.seq
  sysid : sysid? v d = some f.header.sysid
  compid : compid? v d = some f.header.compid
  payload : payload? v d = some f.payload
  seed : seed? v d = some (some f.seed)
  trailer : trailer? v d = some f.trailer
  signedPart : signedPart? v d = some (f.trailer.map f.signedPart)
  signedWith (p : SigningParams) : reseal? v d (some p) = some ((f.signedWith p).map Frame.bytes)
  withoutSignature : unsigned? v d = some f.withoutSignature.bytes

structure LaidOut (v : Version) (d : Bytes) : Prop where
  start : d[0]? = some v.start
  length : ∃ n signed, d[1]? = some n ∧ isSigned? v d = some signed ∧
    d.length = headLength v + n.toNat + 2 + if signed then 13 else 0
  length_le : d.length ≤ 280
  frame : ∃ f, Represents f v d
  resealed : v = .v2 → ∀ signing, ∃ d', reseal? v d signing = some (some d')

theorem represents (f : Frame) : Represents f f.version f.bytes := by
  obtain ⟨hseq, hsysid, hcompid, hmsgId, _, _⟩ := of_bytes f
  exact ⟨rfl, rfl, hmsgId, hseq, hsysid, hcompid, payload?_bytes f, seed?_bytes f, trailer?_bytes f,
    signedPart?_bytes f, reseal?_some f, unsigned?_bytes f⟩

theorem length_bytes (f : Frame) :
    f.bytes.length = headLength f.version + f.payload.length + 2 + if f.isSigned then 13 else 0 := by
  have htrailer : (f.trailer.elim [] Trailer.bytes).length = if f.isSigned then 13 else 0 := by
    cases ht : f.trailer with
    | none => simp [Frame.isSigned, ht]
    | some t => simp [Frame.isSigned, ht, t.length_bytes]
  rw [Frame.bytes_eq_content_append, List.length_append, length_text, List.length_append, Bytes.length_ofNat, htrailer]
  omega

theorem laidOut (f : Frame) : LaidOut f.version f.bytes where
  start := by
    obtain ⟨tail, hbytes⟩ := f.bytes_eq
    rw [hbytes]
    rfl
  length := by
    obtain ⟨_, _, _, _, hsigned, hend⟩ := of_bytes f
    obtain ⟨n, hn, hlength⟩ := Option.map_eq_some_iff.mp hend
    refine ⟨n, f.isSigned, hn, hsigned, ?_⟩
    rw [length_bytes, hlength]
  length_le := by
    have hhead := Grammar.headLength_le f.version
    have hpayload := f.length_payload_le
    rw [length_bytes]
    split <;> omega
  frame := ⟨f, represents f⟩
  resealed hversion signing := ⟨_, reseal?_of_v2 hversion signing⟩

theorem exists_frame_of_obtained {v : Version} {d : Bytes} (h : Obtained v d) :
    ∃ f : Frame, f.version = v ∧ f.bytes = d := by
  induction h with
  | @parsed _ f _ | @encoded _ _ f _ => exact ⟨f, rfl, rfl⟩
  | statusText => exact ⟨_, rfl, rfl⟩
  | @signed _ _ _ p _ hd ih =>
    -- What is computed on the bytes is what signing the frame gives, so the bytes are again those of a frame.
    obtain ⟨f, rfl, rfl⟩ := ih
    rw [reseal?_some] at hd
    obtain ⟨g, hg, rfl⟩ := Option.map_eq_some_iff.mp (Option.some.inj hd)
    cases hversion : f.version with
    | v1 =>
      rw [Frame.signedWith_of_v1 hversion] at hg
      cases hg
    | v2 =>
      rw [Frame.signedWith_of_v2 hversion] at hg
      cases hg
      exact ⟨f.sign hversion p, hversion, rfl⟩
  | stripped _ hd ih =>
    obtain ⟨f, rfl, rfl⟩ := ih
    rw [unsigned?_bytes] at hd
    exact ⟨f.withoutSignature, rfl, Option.some.inj hd⟩

theorem obtained_iff {v : Version} {d : Bytes} : Obtained v d ↔ ∃ f : Frame, f.version = v ∧ f.bytes = d := by
  constructor
  · exact exists_frame_of_obtained
  · rintro ⟨f, rfl, rfl⟩
    apply Obtained.parsed [.push f.bytes]
    have hsift := sift_of_frame f.read_bytes_alone
    simp [Parser.after, Parser.callEach, Parser.call, Parser.push, hsift]

/-- Whatever is obtained has the start byte of its version, the length that its header announces, at most 280 bytes and a
seed.  It is the bytes of a frame, all of which can be looked up, and under the second version it can be sealed again. -/
theorem laid_out_of_obtained {v : Version} {d : Bytes} (h : Obtained v d) : LaidOut v d := by
  obtain ⟨f, rfl, rfl⟩ := obtained_iff.mp h
  exact laidOut f

theorem version_outerFrame : outerFrame.version = .v2 := rfl

def signedOuter : Frame := outerFrame.sign version_outerFrame ⟨Block.zero 32, 5, 77⟩

/-- A frame under an id without a known seed, which is signed and loses its signature again. -/
theorem laid_out_of_obtained_outer :
    Obtained .v2 signedOuter.withoutSignature.bytes ∧ LaidOut .v2 signedOuter.withoutSignature.bytes := by
  have hsigned : Obtained .v2 signedOuter.bytes :=
    .signed (obtained_iff.mpr ⟨outerFrame, rfl, rfl⟩) (reseal?_some outerFrame ⟨Block.zero 32, 5, 77⟩)
  have hstripped : Obtained .v2 signedOuter.withoutSignature.bytes := .stripped hsigned (unsigned?_bytes signedOuter)
  exact ⟨hstripped, laid_out_of_obtained hstripped⟩

end Layout

end GatedRelay
