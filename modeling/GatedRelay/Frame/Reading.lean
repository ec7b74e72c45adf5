import GatedRelay.Frame.Basic

/-!
# Reading one frame

At the front of a byte string there is a frame, or the beginning of a frame that needs more bytes, or noise: no start
byte, or a complete frame whose checksum no permitted seed explains.
-/

set_option autoImplicit false

namespace GatedRelay

inductive Reading where
  | frame (f : Frame) (rest : Bytes)
  | short
  | noise
  deriving DecidableEq

structure Announced where
  header : Header
  length : UInt8
  signed : Bool
  deriving DecidableEq

namespace Announced

/-- Read a header behind its start byte. -/
def read : Version → Bytes → Option (Announced × Bytes)
  | .v1, length :: seq :: sysid :: compid :: id :: rest => some (⟨⟨.v1 id, seq, sysid, compid⟩, length, false⟩, rest)
  | .v2, length :: incompat :: compat :: seq :: sysid :: compid :: id0 :: id1 :: id2 :: rest =>
    let format := .ofNumbers (incompat.toNat / 2) compat (Bytes.toNat [id0, id1, id2])
    some (⟨⟨format, seq, sysid, compid⟩, length, incompat.toNat % 2 = 1⟩, rest)
  | _, _ => none

theorem length_rest_lt {v : Version} {tail rest : Bytes} {a : Announced} (h : read v tail = some (a, rest)) :
    rest.length < tail.length := by
  unfold read at h
  split at h
  · cases h; simp only [List.length_cons]; omega
  · cases h; simp only [List.length_cons]; omega
  · cases h

def bodyLength (a : Announced) : Nat := a.length.toNat + 2 + if a.signed then 13 else 0

def trailer (a : Announced) (body : Bytes) : Option Trailer :=
  match a.header.version with
  | .v1 => none
  | .v2 =>
    if a.signed then
      let block : Bytes := body.drop (a.length.toNat + 2)
      some ⟨block.headD 0, Stamp.ofNat (Bytes.toNat (block.field 1 6)), Block.ofBytes 6 (block.field 7 6)⟩
    else none

theorem trailer_of_v1 {a : Announced} (h : a.header.version = .v1) (body : Bytes) : a.trailer body = none := by
  simp only [trailer, h]

theorem length_take_le (a : Announced) (body : Bytes) : (body.take a.length.toNat).length ≤ 255 := by
  have hl : a.length.toNat < 256 := a.length.toNat_lt
  simp only [List.length_take]
  omega

/-- The frame with this header and body, if a permitted seed explains its checksum. -/
def complete (a : Announced) (body : Bytes) : Option Frame :=
  let payload := body.take a.length.toNat
  let checksum := UInt16.ofNat (Bytes.toNat (body.field a.length.toNat 2))
  match h : Checksum.recoverSeed a.header.msgId (a.header.bytes a.length.toNat a.signed ++ payload) checksum with
  | none => none
  | some seed =>
    some {
      header := a.header
      payload := payload
      seed := seed
      trailer := a.trailer body
      length_payload_le := a.length_take_le body
      seed_mem := Checksum.mem_of_recoverSeed h
      v1_unsigned := fun h => trailer_of_v1 h body }

end Announced

namespace Frame

def read : Bytes → Reading
  | [] => .short
  | start :: tail =>
    match Version.ofStart? start with
    | none => .noise
    | some version =>
      match Announced.read version tail with
      | none => .short
      | some (a, rest) =>
        let body := rest.take a.bodyLength
        if body.length < a.bodyLength then .short
        else
          match a.complete body with
          | none => .noise
          | some f => .frame f (rest.drop a.bodyLength)

theorem length_rest_lt {d rest : Bytes} {f : Frame} (h : read d = .frame f rest) : rest.length < d.length := by
  unfold read at h
  split at h
  · cases h
  · split at h
    · cases h
    · split at h
      · cases h
      · rename_i a more hread
        have hmore := Announced.length_rest_lt hread
        simp only at h
        split at h
        · cases h
        · split at h
          · cases h
          · cases h
            simp only [List.length_drop, List.length_cons]
            omega

theorem ne_nil_of_read_noise {d : Bytes} (h : read d = .noise) : d ≠ [] := by
  rintro rfl
  cases h

end Frame

end GatedRelay
