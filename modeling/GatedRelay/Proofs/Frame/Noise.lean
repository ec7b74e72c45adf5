import GatedRelay.Frame.Message
import GatedRelay.Proofs.Frame.Grammar

/-!
# Frames between noise

A stream of frames with noise between them gives back the frames (`push_stream`).  Noise has no start byte, so all of it
is dropped; a frame is stepped over as a whole, so what its payload contains is not looked at.
-/

set_option autoImplicit false

namespace GatedRelay

namespace Grammar

/-- A frame stands at the front and takes all bytes. -/
def IsFrame (d : Bytes) : Prop := frontLength? d = some d.length

theorem isFrame_iff {d : Bytes} : IsFrame d ↔ ∃ f : Frame, f.bytes = d := by
  constructor
  · intro h
    rw [IsFrame, frontLength?_eq, Option.map_eq_some_iff] at h
    obtain ⟨f, hf, hlength⟩ := h
    obtain ⟨rest, hread⟩ := Reading.of_frame? hf
    have hbytes := Frame.bytes_of_read hread
    have hrest : rest.length = 0 := by
      have hsum := congrArg List.length hbytes
      rw [List.length_append, hlength] at hsum
      omega
    rw [List.length_eq_zero_iff.mp hrest, List.append_nil] at hbytes
    exact ⟨f, hbytes⟩
  · rintro ⟨f, rfl⟩
    rw [IsFrame, frontLength?_eq, f.read_bytes_alone]
    rfl

def IsNoise (d : Bytes) : Prop := 0xFE ∉ d ∧ 0xFD ∉ d

instance (d : Bytes) : Decidable (IsNoise d) := inferInstanceAs (Decidable (_ ∧ _))

theorem ofStart?_of_isNoise {d : Bytes} (h : IsNoise d) {b : UInt8} (hb : b ∈ d) : Version.ofStart? b = none := by
  cases hstart : Version.ofStart? b with
  | none => rfl
  | some v =>
    obtain rfl := Version.ofStart?_eq_some_iff.mp hstart
    cases v with
    | v1 => exact absurd hb h.1
    | v2 => exact absurd hb h.2

end Grammar

open Grammar (IsFrame IsNoise)

structure Segment where
  noise : Bytes
  frame : Bytes
  isNoise : IsNoise noise
  isFrame : IsFrame frame

def Segment.bytes (s : Segment) : Bytes := s.noise ++ s.frame

theorem sift_noise {noise : Bytes} (h : IsNoise noise) (d : Bytes) :
    sift (noise ++ d) = { sift d with dropped := noise.length + (sift d).dropped } := by
  induction noise with
  | nil => rw [List.nil_append, List.length_nil, Nat.zero_add]
  | cons b tail ih =>
    have hread : Frame.read (b :: (tail ++ d)) = .noise :=
      Frame.read_of_no_start (Grammar.ofStart?_of_isNoise h List.mem_cons_self) _
    have htail : IsNoise tail :=
      ⟨fun hb => h.1 (List.mem_cons_of_mem b hb), fun hb => h.2 (List.mem_cons_of_mem b hb)⟩
    rw [List.cons_append, sift_of_noise hread, List.tail_cons, ih htail, List.length_cons, Nat.add_right_comm]

theorem sift_segment (s : Segment) (d : Bytes) :
    ∃ f : Frame, f.bytes = s.frame ∧
      sift (s.bytes ++ d) = ⟨f :: (sift d).frames, (sift d).kept, s.noise.length + (sift d).dropped⟩ := by
  obtain ⟨f, hf⟩ := Grammar.isFrame_iff.mp s.isFrame
  refine ⟨f, hf, ?_⟩
  rw [Segment.bytes, List.append_assoc, sift_noise s.isNoise, ← hf, sift_of_frame (f.read_bytes d)]

theorem sift_segments (segments : List Segment) (d : Bytes) :
    ∃ frames : List Frame, frames.map Frame.bytes = segments.map (·.frame) ∧
      sift (segments.flatMap Segment.bytes ++ d) =
        ⟨frames ++ (sift d).frames, (sift d).kept, (segments.flatMap (·.noise)).length + (sift d).dropped⟩ := by
  -- A frame is read whatever follows it, so the segments come off the front one by one.
  induction segments with
  | nil =>
    refine ⟨[], rfl, ?_⟩
    rw [List.flatMap_nil, List.flatMap_nil, List.length_nil, List.nil_append, List.nil_append, Nat.zero_add]
  | cons s rest ih =>
    obtain ⟨frames, hframes, hrest⟩ := ih
    obtain ⟨f, hf, hsegment⟩ := sift_segment s (rest.flatMap Segment.bytes ++ d)
    refine ⟨f :: frames, ?_, ?_⟩
    · rw [List.map_cons, List.map_cons, hf, hframes]
    · rw [List.flatMap_cons, List.append_assoc, hsegment, hrest, List.flatMap_cons, List.length_append,
        List.cons_append, Nat.add_assoc]

/-- Exactly the frames come out, in order; exactly the noise is dropped; nothing is kept. -/
theorem push_stream (segments : List Segment) (last : Bytes) (h : IsNoise last) :
    ∃ frames : List Frame, frames.map Frame.bytes = segments.map (·.frame) ∧
      ({} : Parser).push (segments.flatMap Segment.bytes ++ last) =
        (⟨[], (segments.flatMap (·.noise)).length + last.length⟩, frames) := by
  obtain ⟨frames, hframes, hsift⟩ := sift_segments segments last
  have hlast : sift last = ⟨[], [], last.length⟩ := by
    rw [← List.append_nil last, sift_noise h, sift_nil, List.append_nil, Nat.add_zero]
  refine ⟨frames, hframes, ?_⟩
  rw [Parser.push, List.nil_append, hsift, hlast, List.append_nil, Nat.zero_add]

def innerFrame : Frame where
  header := ⟨.v1 0, 0, 1, 1⟩
  payload := heartbeatPayload
  seed := 50
  trailer := none
  length_payload_le := by decide
  seed_mem := by decide
  v1_unsigned := fun _ => rfl

/-- A frame that carries a whole other one, under an id without a known seed. -/
def outerFrame : Frame where
  header := ⟨.plain ⟨1000, by decide⟩, 0, 1, 1⟩
  payload := innerFrame.bytes
  seed := 9
  trailer := none
  length_payload_le := by decide
  seed_mem := Checksum.mem_everyByte 9
  v1_unsigned := fun _ => rfl

def nestedSegments : List Segment :=
  [⟨[1, 2], outerFrame.bytes, by decide, Grammar.isFrame_iff.mpr ⟨_, rfl⟩⟩,
    ⟨[], (outerFrame.sign rfl ⟨Block.zero 32, 5, 77⟩).bytes, by decide, Grammar.isFrame_iff.mpr ⟨_, rfl⟩⟩,
    ⟨[0xFF], innerFrame.bytes, by decide, Grammar.isFrame_iff.mpr ⟨_, rfl⟩⟩]

theorem push_stream_nested :
    IsNoise [0xFC] ∧ ∃ frames : List Frame, frames.map Frame.bytes = nestedSegments.map (·.frame) ∧
      ({} : Parser).push (nestedSegments.flatMap Segment.bytes ++ [0xFC]) = (⟨[], 4⟩, frames) :=
  ⟨by decide, push_stream nestedSegments [0xFC] (by decide)⟩

end GatedRelay
