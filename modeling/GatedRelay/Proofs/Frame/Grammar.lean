import GatedRelay.Proofs.Frame.Chunks

/-!
# The frames of a datagram

A datagram can be read in one pass from left to right.  Where a start byte stands whose header announces a frame that
lies inside the datagram and has the right checksum, the frame is taken and the pass goes on behind it; everywhere else
it goes on at the next byte.  `scan` is that pass, on bytes at fixed places, and it gives the frames of the datagram
(`eq_parseDatagram_iff`): noise and frames that are cut short hide nothing that stands behind or inside them.
-/

set_option autoImplicit false

namespace GatedRelay

namespace Grammar

/-! ## A frame at the front -/

def headLength : Version → Nat
  | .v1 => 6
  | .v2 => 10

def routingPlace : Version → Nat
  | .v1 => 2
  | .v2 => 4

def textLength (v : Version) (d : Bytes) : Nat := headLength v + (d.getD 1 0).toNat

def hasTrailer : Version → Bytes → Bool
  | .v1, _ => false
  | .v2, d => d.getD 2 0 &&& 1 = 1

def frameLength (v : Version) (d : Bytes) : Nat := textLength v d + 2 + if hasTrailer v d then 13 else 0

def msgId : Version → Bytes → Nat
  | .v1, d => (d.getD 5 0).toNat
  | .v2, d => Bytes.toNat (d.field 7 3)

/-- The checksum covers everything behind the start byte.  Where the id has no known seed, any seed will do. -/
def HasChecksum (v : Version) (d : Bytes) : Prop :=
  let text := d.field 1 (textLength v d - 1)
  let checksum := UInt16.ofNat (Bytes.toNat (d.field (textLength v d) 2))
  match Checksum.knownSeed (msgId v d) with
  | some seed => Checksum.seeded text seed = checksum
  | none => ∃ seed, Checksum.seeded text seed = checksum

theorem hasChecksum_iff {v : Version} {d : Bytes} :
    HasChecksum v d ↔ ∃ seed ∈ Checksum.seedsFor (msgId v d), Checksum.seeded (d.field 1 (textLength v d - 1)) seed =
      UInt16.ofNat (Bytes.toNat (d.field (textLength v d) 2)) := by
  cases hknown : Checksum.knownSeed (msgId v d) with
  | some seed => simp [HasChecksum, Checksum.seedsFor, hknown]
  | none => simp [HasChecksum, Checksum.seedsFor, hknown, Checksum.mem_everyByte]

instance (v : Version) (d : Bytes) : Decidable (HasChecksum v d) := decidable_of_iff _ hasChecksum_iff.symm

/-- The length of the frame that stands at the front, if one does. -/
def frontLength? (d : Bytes) : Option Nat :=
  match Version.ofStart? (d.getD 0 0) with
  | none => none
  | some v => if frameLength v d ≤ d.length ∧ HasChecksum v d then some (frameLength v d) else none

theorem pos_of_frontLength? {d : Bytes} {n : Nat} (h : frontLength? d = some n) : 0 < n := by
  unfold frontLength? at h
  split at h
  · cases h
  · split at h
    · obtain rfl := Option.some.inj h
      unfold frameLength
      omega
    · cases h

/-- The bytes of the frames that a pass from a position to the end comes upon. -/
def scan (d : Bytes) (i : Nat) : List Bytes :=
  if i < d.length then
    match h : frontLength? (d.drop i) with
    | some n =>
      have := pos_of_frontLength? h
      d.field i n :: scan d (i + n)
    | none => scan d (i + 1)
  else []
termination_by d.length - i

/-! ## What a header announces -/

theorem headLength_le_frameLength (v : Version) (d : Bytes) : headLength v ≤ frameLength v d := by
  unfold frameLength textLength
  omega

theorem length_lt_of_unannounced {v : Version} {tail : Bytes} (h : Announced.read v tail = none) :
    tail.length + 1 < headLength v := by
  match v, tail, h with
  | .v1, [], _ | .v1, [_], _ | .v1, [_, _], _ | .v1, [_, _, _], _ | .v1, [_, _, _, _], _ => simp [headLength]
  | .v2, [], _ | .v2, [_], _ | .v2, [_, _], _ | .v2, [_, _, _], _ | .v2, [_, _, _, _], _
  | .v2, [_, _, _, _, _], _ | .v2, [_, _, _, _, _, _], _ | .v2, [_, _, _, _, _, _, _], _
  | .v2, [_, _, _, _, _, _, _, _], _ => simp [headLength]

theorem and_one_eq_one_iff (b : UInt8) : b &&& 1 = 1 ↔ b.toNat % 2 = 1 := by
  rw [← UInt8.toNat_inj, UInt8.toNat_and]
  exact Nat.and_one_is_mod b.toNat ▸ Iff.rfl

theorem of_announced {v : Version} {tail rest : Bytes} {a : Announced} (h : Announced.read v tail = some (a, rest)) :
    textLength v (v.start :: tail) = headLength v + a.length.toNat ∧ hasTrailer v (v.start :: tail) = a.signed ∧
      msgId v (v.start :: tail) = a.header.msgId ∧
      (a.header.bytes a.length.toNat a.signed).length + 1 = headLength v := by
  unfold Announced.read at h
  split at h
  · cases h
    exact ⟨rfl, rfl, rfl, rfl⟩
  · rename_i length incompat compat seq sysid compid id0 id1 id2 rest'
    cases h
    refine ⟨rfl, ?_, ?_, rfl⟩
    · exact decide_eq_decide.mpr (and_one_eq_one_iff incompat)
    · exact (Nat.mod_eq_of_lt (Bytes.toNat_lt [id0, id1, id2])).symm
  · cases h

theorem isSome_complete_iff {a : Announced} {body : Bytes} :
    (a.complete body).isSome = true ↔ ∃ seed ∈ Checksum.seedsFor a.header.msgId,
      Checksum.seeded (a.header.bytes a.length.toNat a.signed ++ body.take a.length.toNat) seed =
        UInt16.ofNat (Bytes.toNat (Bytes.field body a.length.toNat 2)) := by
  have hrecover : (a.complete body).isSome =
      (Checksum.recoverSeed a.header.msgId (a.header.bytes a.length.toNat a.signed ++ body.take a.length.toNat)
        (UInt16.ofNat (Bytes.toNat (Bytes.field body a.length.toNat 2)))).isSome := by
    unfold Announced.complete
    simp only
    split
    · rename_i h
      exact (congrArg Option.isSome h).symm
    · rename_i h
      exact (congrArg Option.isSome h).symm
  rw [hrecover, Checksum.recoverSeed, List.find?_isSome]
  simp [Checksum.seeded]

/-- The checksum is right at its place exactly if a frame can be completed. -/
theorem hasChecksum_iff_isSome {v : Version} {tail rest : Bytes} {a : Announced}
    (h : Announced.read v tail = some (a, rest)) :
    HasChecksum v (v.start :: tail) ↔ (a.complete (rest.take a.bodyLength)).isSome = true := by
  obtain ⟨htext, _, hid, hhead⟩ := of_announced h
  obtain ⟨_, _, rfl⟩ := Announced.bytes_of_read h
  have hsum : a.length.toNat + 2 ≤ a.bodyLength := Nat.le_add_right _ _
  have hplace : textLength v (v.start :: (a.header.bytes a.length.toNat a.signed ++ rest)) =
      (a.header.bytes a.length.toNat a.signed).length + a.length.toNat + 1 := by omega
  have hcovered : Bytes.field (v.start :: (a.header.bytes a.length.toNat a.signed ++ rest)) 1
      (textLength v (v.start :: (a.header.bytes a.length.toNat a.signed ++ rest)) - 1) =
      a.header.bytes a.length.toNat a.signed ++ (rest.take a.bodyLength).take a.length.toNat := by
    rw [hplace, Nat.add_sub_cancel, List.take_take, Nat.min_eq_left (by omega)]
    exact List.take_length_add_append _
  have hfield : Bytes.field (v.start :: (a.header.bytes a.length.toNat a.signed ++ rest))
      (textLength v (v.start :: (a.header.bytes a.length.toNat a.signed ++ rest))) 2 =
      Bytes.field (rest.take a.bodyLength) a.length.toNat 2 := by
    rw [hplace, Bytes.field, Bytes.field, List.drop_succ_cons, List.drop_length_add_append, List.drop_take,
      List.take_take, Nat.min_eq_left (by omega)]
  rw [hasChecksum_iff, hcovered, hfield, hid, isSome_complete_iff]

end Grammar

def Reading.frame? : Reading → Option Frame
  | frame f _ => some f
  | short => none
  | noise => none

theorem Reading.of_frame? {r : Reading} {f : Frame} (h : r.frame? = some f) : ∃ rest, r = frame f rest := by
  cases r with
  | frame g rest =>
    obtain rfl := Option.some.inj h
    exact ⟨rest, rfl⟩
  | short => cases h
  | noise => cases h

namespace Grammar

theorem frontLength?_start (v : Version) (tail : Bytes) :
    frontLength? (v.start :: tail) =
      if frameLength v (v.start :: tail) ≤ tail.length + 1 ∧ HasChecksum v (v.start :: tail)
      then some (frameLength v (v.start :: tail)) else none := by
  rw [frontLength?, List.getD_cons_zero, Version.ofStart?_start]
  rfl

theorem length_of_announced {v : Version} {tail rest : Bytes} {a : Announced}
    (h : Announced.read v tail = some (a, rest)) :
    frameLength v (v.start :: tail) = headLength v + a.bodyLength ∧ tail.length + 1 = headLength v + rest.length ∧
      ∀ f, a.bodyLength ≤ rest.length → a.complete (rest.take a.bodyLength) = some f →
        f.bytes.length = headLength v + a.bodyLength := by
  obtain ⟨htext, htrailer, _, hhead⟩ := of_announced h
  obtain ⟨rfl, hversion, htail⟩ := Announced.bytes_of_read h
  refine ⟨?_, ?_, ?_⟩
  · rw [frameLength, htext, htrailer, Announced.bodyLength]
    omega
  · rw [htail, List.length_append]
    omega
  · intro f hlong hcomplete
    have hbody : (rest.take a.bodyLength).length = a.bodyLength := List.length_take_of_le hlong
    rw [Frame.bytes_of_complete hcomplete hbody hversion, List.length_cons, List.length_append, hbody]
    omega

/-- A frame stands at the front at fixed places exactly if one is read there, and takes as many bytes. -/
theorem frontLength?_eq (d : Bytes) : frontLength? d = (Frame.read d).frame?.map (·.bytes.length) := by
  cases Frame.opening d with
  | nil => rfl
  | noStart hstart =>
    rw [frontLength?, List.getD_cons_zero, hstart, Frame.read_of_no_start hstart]
    rfl
  | @unannounced v tail hread =>
    have hlt := length_lt_of_unannounced hread
    have hle := headLength_le_frameLength v (v.start :: tail)
    rw [frontLength?_start, Frame.read_of_unannounced hread, if_neg (fun h => by omega)]
    rfl
  | @announced v tail rest a hread =>
    obtain ⟨hframe, hlength, hbytes⟩ := length_of_announced hread
    rw [frontLength?_start, Frame.read_of_announced hread]
    simp only [hframe, hlength, hasChecksum_iff_isSome hread]
    by_cases hshort : rest.length < a.bodyLength
    · rw [if_pos hshort, if_neg (fun h => by omega)]
      rfl
    · rw [if_neg hshort]
      cases hcomplete : a.complete (rest.take a.bodyLength) with
      | none => exact if_neg (by simp)
      | some f =>
        rw [if_pos ⟨by omega, rfl⟩, ← hbytes f (Nat.le_of_not_lt hshort) hcomplete]
        rfl

end Grammar

/-! ## Datagrams -/

namespace Parser

theorem flush_nil (n : Nat) : flush ⟨[], n⟩ = (⟨[], n⟩, []) := by
  rw [flush]

theorem flush_cons (b : UInt8) (rest : Bytes) (n : Nat) :
    flush ⟨b :: rest, n⟩ =
      ((push ⟨rest, n + 1⟩ []).1.flush.1, (push ⟨rest, n + 1⟩ []).2 ++ (push ⟨rest, n + 1⟩ []).1.flush.2) := by
  rw [flush]

/-- Which frames come out at the end does not depend on how much was dropped before. -/
theorem frames_flush (buffer : Bytes) (n n' : Nat) : (flush ⟨buffer, n⟩).2 = (flush ⟨buffer, n'⟩).2 := by
  induction hlength : buffer.length using Nat.strongRecOn generalizing buffer n n' with
  | ind length ih =>
    cases buffer with
    | nil => rw [flush_nil, flush_nil]
    | cons b rest =>
      have hkept : (sift (rest ++ [])).kept.length < length := by
        have hle := length_kept_le (rest ++ [])
        rw [List.append_nil] at hle ⊢
        rw [← hlength, List.length_cons]
        exact Nat.lt_succ_of_le hle
      rw [flush_cons, flush_cons]
      exact congrArg (_ ++ ·) (ih _ hkept _ _ _ rfl)

end Parser

theorem parseDatagram_eq (d : Bytes) (n : Nat) :
    parseDatagram d = (sift d).frames ++ (Parser.flush ⟨(sift d).kept, n⟩).2 :=
  congrArg ((sift d).frames ++ ·) (Parser.frames_flush _ _ _)

theorem parseDatagram_nil : parseDatagram [] = [] := by
  rw [parseDatagram_eq [] 0, sift_nil, Parser.flush_nil]
  rfl

theorem parseDatagram_of_frame {d rest : Bytes} {f : Frame} (h : Frame.read d = .frame f rest) :
    parseDatagram d = f :: parseDatagram rest := by
  rw [parseDatagram_eq d 0, parseDatagram_eq rest 0, sift_of_frame h]
  rfl

theorem parseDatagram_bytes (f : Frame) : parseDatagram f.bytes = [f] := by
  rw [parseDatagram_of_frame f.read_bytes_alone, parseDatagram_nil]

/-- At the end of the bytes a frame that is cut short is noise too. -/
theorem parseDatagram_of_no_frame {d : Bytes} (h : (Frame.read d).frame? = none) :
    parseDatagram d = parseDatagram d.tail := by
  cases hread : Frame.read d with
  | frame f rest =>
    rw [hread] at h
    cases h
  | noise =>
    rw [parseDatagram_eq d 0, parseDatagram_eq d.tail 0, sift_of_noise hread]
  | short =>
    cases d with
    | nil => rfl
    | cons b rest =>
      rw [parseDatagram_eq (b :: rest) 0, sift_of_short hread, Parser.flush_cons, List.nil_append, Parser.push,
        List.append_nil]
      exact (parseDatagram_eq rest _).symm

namespace Grammar

theorem scan_of_some {d : Bytes} {i n : Nat} (hi : i < d.length) (h : frontLength? (d.drop i) = some n) :
    scan d i = d.field i n :: scan d (i + n) := by
  rw [scan, if_pos hi]
  split
  · rename_i n' h'
    rw [h] at h'
    cases h'
    rfl
  · rename_i h'
    rw [h] at h'
    cases h'

theorem scan_of_none {d : Bytes} {i : Nat} (hi : i < d.length) (h : frontLength? (d.drop i) = none) :
    scan d i = scan d (i + 1) := by
  rw [scan, if_pos hi]
  split
  · rename_i h'
    rw [h] at h'
    cases h'
  · rfl

/-- From every position the pass gives the bytes of the frames that the rest of the datagram has. -/
theorem map_bytes_parseDatagram (d : Bytes) (i : Nat) : (parseDatagram (d.drop i)).map Frame.bytes = scan d i := by
  induction i using scan.induct d with
  | case1 i hi n hfront _ ih =>
    rw [scan_of_some hi hfront]
    rw [frontLength?_eq, Option.map_eq_some_iff] at hfront
    obtain ⟨f, hf, rfl⟩ := hfront
    obtain ⟨rest, hread⟩ := Reading.of_frame? hf
    have hbytes := Frame.bytes_of_read hread
    have hrest : d.drop (i + f.bytes.length) = rest := by rw [← List.drop_drop, ← hbytes, List.drop_left]
    rw [parseDatagram_of_frame hread, List.map_cons, ← ih, hrest, Bytes.field, ← hbytes, List.take_left]
  | case2 i hi hfront ih =>
    rw [scan_of_none hi hfront]
    rw [frontLength?_eq, Option.map_eq_none_iff] at hfront
    rw [parseDatagram_of_no_frame hfront, List.tail_drop, ih]
  | case3 i hi =>
    rw [scan, if_neg hi, List.drop_eq_nil_of_le (Nat.le_of_not_lt hi), parseDatagram_nil]
    rfl

end Grammar

/-- The frames of a datagram are those whose bytes a single pass from left to right comes upon. -/
theorem eq_parseDatagram_iff (d : Bytes) (frames : List Frame) :
    frames = parseDatagram d ↔ frames.map Frame.bytes = Grammar.scan d 0 := by
  rw [← Grammar.map_bytes_parseDatagram, List.drop_zero]
  exact (List.map_inj_right fun _ _ h => Frame.bytes_injective h).symm

end GatedRelay
