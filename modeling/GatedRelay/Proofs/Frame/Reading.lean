import GatedRelay.Proofs.Frame.Checksum
import GatedRelay.Proofs.Frame.Header

/-!
# What is read from bytes

A frame is read from exactly the bytes that it is written as (`bytes_of_read`), and what has been read is not changed by
bytes that follow (`read_append`).  Only where the bytes end before the frame does can more of them change the answer.
-/

set_option autoImplicit false

namespace GatedRelay

theorem Version.ofStart?_eq_some_iff {b : UInt8} {v : Version} : ofStart? b = some v ↔ b = v.start := by
  constructor
  · intro h
    unfold ofStart? at h
    split at h
    · cases h
      assumption
    · split at h
      · cases h
        assumption
      · cases h
  · rintro rfl
    exact ofStart?_start v

namespace Frame

/-! ## One case after the other -/

theorem read_of_no_start {b : UInt8} (h : Version.ofStart? b = none) (tail : Bytes) : read (b :: tail) = .noise := by
  rw [read, h]

theorem read_of_unannounced {v : Version} {tail : Bytes} (h : Announced.read v tail = none) :
    read (v.start :: tail) = .short := by
  rw [read, Version.ofStart?_start]
  simp only [h]

theorem read_of_announced {v : Version} {tail rest : Bytes} {a : Announced}
    (h : Announced.read v tail = some (a, rest)) :
    read (v.start :: tail) =
      if rest.length < a.bodyLength then .short
      else (a.complete (rest.take a.bodyLength)).elim .noise fun f => .frame f (rest.drop a.bodyLength) := by
  have hlength : (rest.take a.bodyLength).length < a.bodyLength ↔ rest.length < a.bodyLength := by
    rw [List.length_take]
    omega
  rw [read, Version.ofStart?_start]
  simp only [h, hlength]
  cases a.complete (rest.take a.bodyLength) with
  | none => rfl
  | some f => rfl

/-- What can stand at the front of some bytes, as far as it decides how they are read. -/
inductive Opening : Bytes → Prop where
  | nil : Opening []
  | noStart {b : UInt8} {tail : Bytes} (h : Version.ofStart? b = none) : Opening (b :: tail)
  | unannounced {v : Version} {tail : Bytes} (h : Announced.read v tail = none) : Opening (v.start :: tail)
  | announced {v : Version} {tail rest : Bytes} {a : Announced} (h : Announced.read v tail = some (a, rest)) :
      Opening (v.start :: tail)

theorem opening (d : Bytes) : Opening d := by
  cases d with
  | nil => exact .nil
  | cons b tail =>
    cases hstart : Version.ofStart? b with
    | none => exact .noStart hstart
    | some v =>
      obtain rfl := Version.ofStart?_eq_some_iff.mp hstart
      cases hread : Announced.read v tail with
      | none => exact .unannounced hread
      | some announced => exact .announced hread

end Frame

/-! ## More bytes -/

def Reading.before : Reading → Bytes → Reading
  | frame f rest, more => frame f (rest ++ more)
  | short, _ => short
  | noise, _ => noise

theorem Announced.read_append {v : Version} {tail rest : Bytes} {a : Announced} (h : read v tail = some (a, rest))
    (more : Bytes) : read v (tail ++ more) = some (a, rest ++ more) := by
  unfold read at h
  split at h
  · cases h
    rfl
  · cases h
    rfl
  · cases h

/-- An answer other than that the bytes are too few does not depend on what follows. -/
theorem Frame.read_append {d : Bytes} (h : read d ≠ .short) (more : Bytes) :
    read (d ++ more) = (read d).before more := by
  cases opening d with
  | nil => exact absurd rfl h
  | noStart hstart =>
    rw [List.cons_append, read_of_no_start hstart, read_of_no_start hstart]
    rfl
  | unannounced hread => exact absurd (read_of_unannounced hread) h
  | @announced v tail rest a hread =>
    rw [read_of_announced hread] at h ⊢
    rw [List.cons_append, read_of_announced (Announced.read_append hread more)]
    by_cases hshort : rest.length < a.bodyLength
    · rw [if_pos hshort] at h
      exact absurd rfl h
    · have hle : a.bodyLength ≤ rest.length := Nat.le_of_not_lt hshort
      have hlong : ¬(rest ++ more).length < a.bodyLength := by
        rw [List.length_append]
        omega
      rw [if_neg hshort, if_neg hlong, List.take_append_of_le_length hle, List.drop_append_of_le_length hle]
      cases a.complete (rest.take a.bodyLength) with
      | none => rfl
      | some f => rfl

/-! ## The bytes of a frame -/

theorem Bytes.ofNat_toNat_mod (b : Bytes) : ofNat b.length (toNat b % 1 <<< (8 * b.length)) = b := by
  rw [Nat.mod_eq_of_lt (toNat_lt b), ofNat_toNat]

theorem Announced.bytes_of_read {v : Version} {tail rest : Bytes} {a : Announced} (h : read v tail = some (a, rest)) :
    a.header.version = v ∧ (v = .v1 → a.signed = false) ∧
      tail = a.header.bytes a.length.toNat a.signed ++ rest := by
  unfold read at h
  split at h
  · cases h
    exact ⟨rfl, fun _ => rfl, by simp [Header.bytes]⟩
  · rename_i length incompat compat seq sysid compid id0 id1 id2 rest'
    cases h
    have hflags :
        UInt8.ofNat (2 * (incompat.toNat / 2 % 128) + (decide (incompat.toNat % 2 = 1)).toNat) = incompat := by
      apply UInt8.toNat_inj.mp
      have hlt := incompat.toNat_lt
      rw [UInt8.toNat_ofNat']
      rcases Nat.mod_two_eq_zero_or_one incompat.toNat with hbit | hbit
      · simp only [hbit, Nat.zero_ne_one, decide_false, Bool.toNat_false]
        omega
      · simp only [hbit, decide_true, Bool.toNat_true]
        omega
    have hid : Bytes.ofNat 3 (Bytes.toNat [id0, id1, id2] % 0x1000000) = [id0, id1, id2] :=
      Bytes.ofNat_toNat_mod [id0, id1, id2]
    refine ⟨rfl, by simp, ?_⟩
    simp only [Header.bytes, Format.ofNumbers, Fin.val_ofNat, hflags, hid, UInt8.ofNat_toNat]
    rfl
  · cases h

theorem Announced.of_complete {a : Announced} {body : Bytes} {f : Frame} (h : a.complete body = some f) :
    f.header = a.header ∧ f.payload = body.take a.length.toNat ∧ f.trailer = a.trailer body ∧
      Checksum.seeded (a.header.bytes a.length.toNat a.signed ++ f.payload) f.seed =
        UInt16.ofNat (Bytes.toNat (body.field a.length.toNat 2)) := by
  unfold complete at h
  simp only at h
  split at h
  · cases h
  · rename_i seed hseed
    cases h
    exact ⟨rfl, rfl, rfl, Checksum.seeded_of_recoverSeed hseed⟩

theorem Announced.complete_eq_some {a : Announced} {body : Bytes} {f : Frame} (hheader : f.header = a.header)
    (hpayload : f.payload = body.take a.length.toNat) (htrailer : f.trailer = a.trailer body)
    (hseed : Checksum.recoverSeed a.header.msgId (a.header.bytes a.length.toNat a.signed ++ body.take a.length.toNat)
      (UInt16.ofNat (Bytes.toNat (body.field a.length.toNat 2))) = some f.seed) : a.complete body = some f := by
  unfold complete
  simp only
  split
  · rename_i hnone
    rw [hseed] at hnone
    cases hnone
  · rename_i seed hsome
    rw [hseed] at hsome
    obtain rfl := Option.some.inj hsome
    obtain ⟨header, payload, seed, trailer, _, _, _⟩ := f
    obtain rfl := hheader
    obtain rfl := hpayload
    obtain rfl := htrailer
    rfl

theorem Stamp.bytes_ofNat_toNat {b : Bytes} (h : b.length = 6) : (ofNat (Bytes.toNat b)).bytes = b := by
  have hmod := Bytes.ofNat_toNat_mod b
  rw [h] at hmod
  exact hmod

theorem Stamp.ofNat_toNat_bytes (stamp : Stamp) : ofNat (Bytes.toNat stamp.bytes) = stamp := by
  have hnat : Bytes.toNat stamp.bytes = stamp.val := by
    rw [bytes, Bytes.toNat_ofNat]
    exact Nat.mod_eq_of_lt stamp.isLt
  rw [hnat]
  exact Fin.ofNat_val_eq_self stamp

def Trailer.bytes (t : Trailer) : Bytes := t.covered ++ t.signature.bytes

def Trailer.ofBlock (block : Bytes) : Trailer :=
  ⟨block.headD 0, Stamp.ofNat (Bytes.toNat (block.field 1 6)), Block.ofBytes 6 (block.field 7 6)⟩

theorem Trailer.bytes_ofBlock {block : Bytes} (h : block.length = 13) : (ofBlock block).bytes = block := by
  cases block with
  | nil => cases h
  | cons linkId rest =>
    have hrest : rest.length = 12 := Nat.succ.inj h
    have hstamp : (Bytes.field (linkId :: rest) 1 6).length = 6 := by simp [Bytes.field, hrest]
    have hlength : (rest.drop 6).length = 6 := by rw [List.length_drop, hrest]
    have hsignature : (Bytes.field (linkId :: rest) 7 6).fit 6 = rest.drop 6 := by
      have hfield : Bytes.field (linkId :: rest) 7 6 = rest.drop 6 := List.take_of_length_le (Nat.le_of_eq hlength)
      rw [hfield]
      exact Bytes.fit_eq_self hlength
    calc (ofBlock (linkId :: rest)).bytes
      _ = linkId :: ((Stamp.ofNat (Bytes.toNat (Bytes.field (linkId :: rest) 1 6))).bytes ++
            (Bytes.field (linkId :: rest) 7 6).fit 6) := rfl
      _ = linkId :: (rest.take 6 ++ rest.drop 6) := by rw [Stamp.bytes_ofNat_toNat hstamp, hsignature]; rfl
      _ = linkId :: rest := by rw [List.take_append_drop]

theorem Trailer.length_bytes (t : Trailer) : t.bytes.length = 13 := by
  simp [bytes, covered, Stamp.bytes, t.signature.length_eq]

theorem Trailer.ofBlock_bytes (t : Trailer) : ofBlock t.bytes = t := by
  obtain ⟨linkId, timestamp, signature⟩ := t
  have hstamp : Bytes.field (bytes ⟨linkId, timestamp, signature⟩) 1 6 = timestamp.bytes :=
    List.take_left' (Bytes.length_ofNat 6 timestamp.val)
  have hsignature : Bytes.field (bytes ⟨linkId, timestamp, signature⟩) 7 6 = signature.bytes := by
    have hdrop : (timestamp.bytes ++ signature.bytes).drop 6 = signature.bytes :=
      List.drop_left' (Bytes.length_ofNat 6 timestamp.val)
    exact (congrArg (List.take 6) hdrop).trans (List.take_of_length_le (Nat.le_of_eq signature.length_eq))
  rw [ofBlock, hstamp, hsignature, Stamp.ofNat_toNat_bytes, Block.ofBytes_bytes]
  rfl

theorem Announced.trailer_of_unsigned {a : Announced} (h : a.signed = false) (body : Bytes) :
    a.trailer body = none := by
  unfold trailer
  split
  · rfl
  · rw [h]
    rfl

theorem Announced.trailer_of_signed {a : Announced} (h : a.signed = true)
    (hversion : a.header.version = .v1 → a.signed = false) (body : Bytes) :
    a.trailer body = some (.ofBlock (body.drop (a.length.toNat + 2))) := by
  unfold trailer
  split
  · rename_i hv1
    rw [hversion hv1] at h
    cases h
  · rw [if_pos h]
    rfl

theorem Announced.elim_trailer {a : Announced} (hversion : a.header.version = .v1 → a.signed = false) {body : Bytes}
    (hlength : body.length = a.bodyLength) :
    (a.trailer body).isSome = a.signed ∧
      (a.trailer body).elim [] Trailer.bytes = body.drop (a.length.toNat + 2) := by
  cases hsigned : a.signed with
  | false =>
    have hend : body.length = a.length.toNat + 2 := by rw [hlength, bodyLength, hsigned]; rfl
    rw [trailer_of_unsigned hsigned, List.drop_eq_nil_of_le (Nat.le_of_eq hend)]
    exact ⟨rfl, rfl⟩
  | true =>
    have hblock : (body.drop (a.length.toNat + 2)).length = 13 := by
      rw [List.length_drop, hlength, bodyLength, hsigned, if_pos rfl, Nat.add_sub_cancel_left]
    rw [trailer_of_signed hsigned hversion, Option.elim_some, Trailer.bytes_ofBlock hblock]
    exact ⟨rfl, rfl⟩

theorem UInt16.ofNat_toNat_bytes (x : UInt16) : UInt16.ofNat (Bytes.toNat (Bytes.ofNat 2 x.toNat)) = x := by
  have hnat : Bytes.toNat (Bytes.ofNat 2 x.toNat) = x.toNat := by
    rw [Bytes.toNat_ofNat]
    exact Nat.mod_eq_of_lt x.toNat_lt
  rw [hnat, UInt16.ofNat_toNat]

theorem UInt16.bytes_ofNat_toNat {b : Bytes} (h : b.length = 2) :
    Bytes.ofNat 2 (UInt16.ofNat (Bytes.toNat b)).toNat = b := by
  have hmod := Bytes.ofNat_toNat_mod b
  rw [h] at hmod
  rw [UInt16.toNat_ofNat']
  exact hmod

namespace Frame

theorem bytes_eq_front (f : Frame) : f.bytes = f.front f.isSigned ++ f.trailer.elim [] Trailer.bytes := by
  cases ht : f.trailer with
  | none => simp [bytes, isSigned, ht]
  | some t => simp [bytes, isSigned, ht, Trailer.bytes]

theorem bytes_of_complete {a : Announced} {body : Bytes} {f : Frame} (h : a.complete body = some f)
    (hlength : body.length = a.bodyLength) (hversion : a.header.version = .v1 → a.signed = false) :
    f.bytes = a.header.version.start :: (a.header.bytes a.length.toNat a.signed ++ body) := by
  obtain ⟨hheader, hpayload, htrailer, hseed⟩ := Announced.of_complete h
  obtain ⟨hsigned, hrest⟩ := Announced.elim_trailer hversion hlength
  have hle : a.length.toNat + 2 ≤ body.length := hlength ▸ Nat.le_add_right _ _
  have hpayloadLength : f.payload.length = a.length.toNat := by
    rw [hpayload, List.length_take]
    omega
  have hsum : (body.field a.length.toNat 2).length = 2 := by
    rw [Bytes.field, List.length_take, List.length_drop]
    omega
  have hfront : f.front a.signed =
      a.header.version.start :: (a.header.bytes a.length.toNat a.signed ++ body.take (a.length.toNat + 2)) := by
    rw [front, checksum, content, version, hheader, hpayloadLength, hseed, UInt16.bytes_ofNat_toNat hsum, hpayload,
      List.take_add, List.cons_append, List.append_assoc]
    rfl
  rw [bytes_eq_front, isSigned, htrailer, hsigned, hfront, hrest, List.cons_append, List.append_assoc,
    List.take_append_drop]

/-- A frame is read from its own bytes, and the rest is left. -/
theorem bytes_of_read {d rest : Bytes} {f : Frame} (h : read d = .frame f rest) : f.bytes ++ rest = d := by
  cases opening d with
  | nil => cases h
  | noStart hstart =>
    rw [read_of_no_start hstart] at h
    cases h
  | unannounced hread =>
    rw [read_of_unannounced hread] at h
    cases h
  | @announced v tail more a hread =>
    obtain ⟨rfl, hversion, rfl⟩ := Announced.bytes_of_read hread
    rw [read_of_announced hread] at h
    split at h
    · cases h
    · rename_i hlong
      cases hcomplete : a.complete (more.take a.bodyLength) with
      | none =>
        rw [hcomplete] at h
        cases h
      | some g =>
        rw [hcomplete] at h
        cases h
        have hlength := List.length_take_of_le (Nat.le_of_not_lt hlong)
        rw [bytes_of_complete hcomplete hlength hversion, List.cons_append, List.append_assoc, List.take_append_drop]

/-! ## Frames in front of other bytes -/

def body (f : Frame) : Bytes :=
  f.payload ++ Bytes.ofNat 2 (f.checksum f.isSigned).toNat ++ f.trailer.elim [] Trailer.bytes

def announced (f : Frame) : Announced := ⟨f.header, UInt8.ofNat f.payload.length, f.isSigned⟩

theorem length_announced (f : Frame) : f.announced.length.toNat = f.payload.length :=
  UInt8.toNat_ofNat_of_lt' (Nat.lt_succ_of_le f.length_payload_le)

theorem length_body (f : Frame) : f.body.length = f.announced.bodyLength := by
  rw [body, Announced.bodyLength, length_announced, List.length_append, List.length_append, Bytes.length_ofNat]
  cases ht : f.trailer with
  | none => simp [announced, isSigned, ht]
  | some t => simp [announced, isSigned, ht, t.length_bytes]

theorem trailer_announced (f : Frame) : f.announced.trailer f.body = f.trailer := by
  have hdrop : f.body.drop (f.announced.length.toNat + 2) = f.trailer.elim [] Trailer.bytes := by
    rw [body, length_announced]
    exact List.drop_left' (by rw [List.length_append, Bytes.length_ofNat])
  cases ht : f.trailer with
  | none =>
    have hunsigned : f.announced.signed = false := by rw [announced, isSigned, ht]; rfl
    exact Announced.trailer_of_unsigned hunsigned _
  | some t =>
    have hsigned : f.announced.signed = true := by rw [announced, isSigned, ht]; rfl
    rw [Announced.trailer_of_signed hsigned f.unsigned_of_v1, hdrop, ht, Option.elim_some, Trailer.ofBlock_bytes]

theorem complete_announced (f : Frame) : f.announced.complete f.body = some f := by
  have hpayload : f.body.take f.announced.length.toNat = f.payload := by
    rw [body, length_announced, List.append_assoc]
    exact List.take_left
  have hsum : f.body.field f.announced.length.toNat 2 = Bytes.ofNat 2 (f.checksum f.isSigned).toNat := by
    rw [body, length_announced, List.append_assoc, Bytes.field, List.drop_left]
    exact List.take_left' (Bytes.length_ofNat 2 _)
  have hseed := Checksum.recoverSeed_seeded f.seed_mem (f.content f.isSigned)
  refine Announced.complete_eq_some rfl hpayload.symm f.trailer_announced.symm ?_
  rw [hpayload, hsum, UInt16.ofNat_toNat_bytes, length_announced]
  exact hseed

/-- A frame is read where its bytes stand, whatever follows. -/
theorem read_bytes (f : Frame) (rest : Bytes) : read (f.bytes ++ rest) = .frame f rest := by
  have hbytes : f.bytes ++ rest =
      f.header.version.start :: (f.header.bytes f.payload.length f.isSigned ++ (f.body ++ rest)) := by
    rw [bytes_eq_front, front, content, body]
    simp only [List.cons_append, List.append_assoc]
    rfl
  have hread := Announced.read_bytes f.header f.payload.length f.unsigned_of_v1 (f.body ++ rest)
  have hshort : ¬(f.body ++ rest).length < f.announced.bodyLength := by
    rw [List.length_append, length_body]
    exact Nat.not_lt_of_le (Nat.le_add_right _ _)
  rw [hbytes, read_of_announced (a := f.announced) hread, if_neg hshort, List.take_left' f.length_body,
    List.drop_left' f.length_body, complete_announced]
  rfl

theorem read_bytes_alone (f : Frame) : read f.bytes = .frame f [] := by
  have hread := f.read_bytes []
  rwa [List.append_nil] at hread

theorem bytes_injective : Function.Injective bytes := by
  intro f g h
  have hread := f.read_bytes_alone
  rw [h, g.read_bytes_alone] at hread
  cases hread
  rfl

end Frame

end GatedRelay
