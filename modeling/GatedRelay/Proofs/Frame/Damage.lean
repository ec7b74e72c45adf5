import GatedRelay.Proofs.Frame.Checksum
import GatedRelay.Proofs.Frame.Noise

/-!
# Damage that a checksum shows

Byte strings of one length that differ only at two neighbouring places have different checksums: the two bytes lead to
different registers, and no step makes two registers one.  A frame whose id has a known seed is therefore no longer read
when one or two neighbouring bytes of its routing or its payload have changed, or its checksum alone.  Under any other
id a new seed may explain a new checksum, but the last byte of the payload and the seed are neighbours too, so that a
change there is noticed although every seed is tried (`damage_is_noticed`).
-/

set_option autoImplicit false

namespace GatedRelay

/-! ## Altered bytes -/

structure AlteredAt (places : Nat → Prop) (d d' : Bytes) : Prop where
  length_eq : d'.length = d.length
  ne : d' ≠ d
  same : ∀ i, ¬places i → d'[i]? = d[i]?

theorem alteredAt_iff {places : Nat → Prop} {d d' : Bytes} :
    AlteredAt places d d' ↔ d'.length = d.length ∧ d' ≠ d ∧ ∀ i < d.length, ¬places i → d'[i]? = d[i]? := by
  constructor
  · rintro ⟨hlength, hne, hsame⟩
    exact ⟨hlength, hne, fun i _ => hsame i⟩
  · rintro ⟨hlength, hne, hsame⟩
    refine ⟨hlength, hne, fun i hi => ?_⟩
    rcases Nat.lt_or_ge i d.length with hlt | hge
    · exact hsame i hlt hi
    · rw [List.getElem?_eq_none hge, List.getElem?_eq_none (hlength ▸ hge)]

instance (places : Nat → Prop) [DecidablePred places] (d d' : Bytes) : Decidable (AlteredAt places d d') :=
  decidable_of_iff _ alteredAt_iff.symm

def Near (i j : Nat) : Prop := j = i ∨ j = i + 1

instance (i j : Nat) : Decidable (Near i j) := inferInstanceAs (Decidable (_ ∨ _))

theorem Bytes.field_congr {d d' : Bytes} {start n : Nat}
    (h : ∀ i, start ≤ i → i < start + n → d'[i]? = d[i]?) : d'.field start n = d.field start n := by
  apply List.ext_getElem?
  intro i
  simp only [field, List.getElem?_take, List.getElem?_drop]
  split
  · exact h _ (by omega) (by omega)
  · rfl

namespace AlteredAt

variable {places places' : Nat → Prop} {d d' : Bytes}

theorem mono (h : AlteredAt places d d') (hplaces : ∀ i, places i → places' i) : AlteredAt places' d d' :=
  ⟨h.length_eq, h.ne, fun i hi => h.same i (mt (hplaces i) hi)⟩

theorem field_eq (h : AlteredAt places d d') (start n : Nat) (hout : ∀ i, start ≤ i → i < start + n → ¬places i) :
    d'.field start n = d.field start n :=
  Bytes.field_congr fun i hstart hend => h.same i (hout i hstart hend)

theorem take_eq (h : AlteredAt places d d') {n : Nat} (hout : ∀ i < n, ¬places i) : d'.take n = d.take n :=
  h.field_eq 0 n fun i _ hi => hout i (Nat.zero_add n ▸ hi)

theorem drop_eq (h : AlteredAt places d d') {n : Nat} (hout : ∀ i, n ≤ i → ¬places i) : d'.drop n = d.drop n := by
  have hfield := h.field_eq n d.length fun i hi _ => hout i hi
  rwa [Bytes.field, Bytes.field, List.take_of_length_le (by simp [h.length_eq]),
    List.take_of_length_le (by simp)] at hfield

theorem field (h : AlteredAt places d d') (start n : Nat) (hin : ∀ i, places i → start ≤ i ∧ i < start + n) :
    AlteredAt (fun i => places (start + i)) (d.field start n) (d'.field start n) := by
  constructor
  · simp only [Bytes.field, List.length_take, List.length_drop, h.length_eq]
  · intro hfield
    apply h.ne
    apply List.ext_getElem?
    intro i
    by_cases hi : places i
    · obtain ⟨hstart, hend⟩ := hin i hi
      have hbyte := congrArg (fun text : Bytes => text[i - start]?) hfield
      have hlt : i - start < n := by omega
      simpa [Bytes.field, List.getElem?_take, hlt, Nat.add_sub_cancel' hstart] using hbyte
    · exact h.same i hi
  · intro i hi
    simp only [Bytes.field, List.getElem?_take, List.getElem?_drop]
    rw [h.same _ hi]

theorem concat (h : AlteredAt places d d') (b b' : UInt8) :
    AlteredAt (fun i => places i ∨ b ≠ b' ∧ i = d.length) (d ++ [b]) (d' ++ [b']) := by
  constructor
  · simp only [List.length_append, h.length_eq, List.length_singleton]
  · intro heq
    exact h.ne (List.append_inj_left heq h.length_eq)
  · intro i hi
    rw [not_or, not_and'] at hi
    rw [List.getElem?_append, List.getElem?_append, h.length_eq, h.same i hi.1]
    split
    · rfl
    · rcases Nat.eq_or_lt_of_le (Nat.le_of_not_lt ‹_›) with hlast | hbeyond
      · rw [Decidable.not_not.mp (hi.2 hlast.symm)]
      · rw [List.getElem?_eq_none (by simp; omega), List.getElem?_eq_none (by simp; omega)]

end AlteredAt

/-! ## Checksums of altered bytes -/

namespace Checksum

theorem x25_append (before text : Bytes) : x25 (before ++ text) = text.foldl step (x25 before) := List.foldl_append

theorem seeded_eq (text : Bytes) (seed : UInt8) : seeded text seed = x25 (text ++ [seed]) := by
  rw [x25_append]
  rfl

theorem x25_ne_of_altered {i : Nat} {d d' : Bytes} (h : AlteredAt (Near i) d d') : x25 d' ≠ x25 d := by
  intro hsum
  have hfront : d'.take i = d.take i := h.take_eq fun j hj hnear => by unfold Near at hnear; omega
  have hback : d'.drop (i + 2) = d.drop (i + 2) := h.drop_eq fun j hj hnear => by unfold Near at hnear; omega
  have hsplit (text : Bytes) : text = text.take i ++ (text.field i 2 ++ text.drop (i + 2)) := by
    rw [← List.drop_drop, Bytes.field, List.take_append_drop, List.take_append_drop]
  -- Both reach the two bytes with one register, and what follows them keeps registers apart.
  rw [hsplit d, hsplit d', hfront, hback, x25_append, x25_append, List.foldl_append, List.foldl_append] at hsum
  have hmiddle : d'.field i 2 = d.field i 2 := by
    apply eq_of_foldl_step _ _ (foldl_step_injective _ hsum)
    · simp only [Bytes.field, List.length_take, List.length_drop, h.length_eq]
    · exact List.length_take_le 2 _
  apply h.ne
  rw [hsplit d, hsplit d', hfront, hback, hmiddle]

section Fields

variable {i n : Nat} {d d' : Bytes}

/-- A change of neighbouring bytes behind the first one shows, as long as the seed stays. -/
theorem x25_ne_of_same_seed (h : AlteredAt (fun j => Near i j ∧ 1 ≤ j ∧ j < n) d d') (seed : UInt8) :
    x25 (d'.field 1 (n - 1) ++ [seed]) ≠ x25 (d.field 1 (n - 1) ++ [seed]) := by
  have htext : AlteredAt (fun j => Near i (1 + j) ∧ 1 ≤ 1 + j ∧ 1 + j < n) (d.field 1 (n - 1)) (d'.field 1 (n - 1)) := by
    apply h.field
    rintro j ⟨_, hstart, hend⟩
    omega
  apply x25_ne_of_altered (i := i - 1)
  apply (htext.concat seed seed).mono
  rintro j (⟨hnear, _⟩ | ⟨hne, _⟩)
  · unfold Near at hnear ⊢
    omega
  · exact absurd rfl hne

/-- A change of the last byte shows whatever becomes of the seed, which stands next to it. -/
theorem x25_ne_of_last (h : AlteredAt (· = i) d d') (hi : 1 ≤ i) (hlength : i + 1 ≤ d.length) (seed seed' : UInt8) :
    x25 (d'.field 1 i ++ [seed']) ≠ x25 (d.field 1 i ++ [seed]) := by
  have htext : AlteredAt (fun j => 1 + j = i) (d.field 1 i) (d'.field 1 i) := by
    apply h.field
    rintro j rfl
    omega
  have hfit : (d.field 1 i).length = i := by
    rw [Bytes.field, List.length_take, List.length_drop]
    omega
  apply x25_ne_of_altered (i := i - 1)
  apply (htext.concat seed seed').mono
  rintro j (hj | ⟨_, hj⟩)
  · unfold Near
    omega
  · unfold Near
    omega

theorem word_ne_of_altered (h : AlteredAt (fun j => n ≤ j ∧ j < n + 2) d d') (hlength : n + 2 ≤ d.length) :
    UInt16.ofNat (Bytes.toNat (d'.field n 2)) ≠ UInt16.ofNat (Bytes.toNat (d.field n 2)) := by
  have hword := h.field n 2 fun j hj => hj
  have hwidth : (d.field n 2).length = 2 := by
    rw [Bytes.field, List.length_take, List.length_drop]
    omega
  intro hsum
  apply hword.ne
  rw [← UInt16.bytes_ofNat_toNat hwidth, ← UInt16.bytes_ofNat_toNat (hword.length_eq.trans hwidth), hsum]

end Fields

theorem eq_of_known {msgId : Nat} (hknown : knownSeed msgId ≠ none) {seed seed' : UInt8}
    (h : seed ∈ seedsFor msgId) (h' : seed' ∈ seedsFor msgId) : seed' = seed := by
  obtain ⟨known, hseed⟩ := Option.ne_none_iff_exists'.mp hknown
  simp only [seedsFor, hseed, List.mem_singleton] at h h'
  rw [h, h']

end Checksum

/-! ## Damaged frames -/

namespace Grammar

def IsRouting (v : Version) (i : Nat) : Prop := routingPlace v ≤ i ∧ i < routingPlace v + 3

def IsPayload (v : Version) (d : Bytes) (i : Nat) : Prop := headLength v ≤ i ∧ i < textLength v d

def IsChecksum (v : Version) (d : Bytes) (i : Nat) : Prop := textLength v d ≤ i ∧ i < textLength v d + 2

instance (v : Version) (i : Nat) : Decidable (IsRouting v i) := inferInstanceAs (Decidable (_ ∧ _))

instance (v : Version) (d : Bytes) (i : Nat) : Decidable (IsPayload v d i) := inferInstanceAs (Decidable (_ ∧ _))

instance (v : Version) (d : Bytes) (i : Nat) : Decidable (IsChecksum v d i) := inferInstanceAs (Decidable (_ ∧ _))

theorem IsRouting.in_header {v : Version} {i : Nat} (h : IsRouting v i) : 1 ≤ i ∧ i < headLength v := by
  cases v <;> simp only [IsRouting, routingPlace, headLength] at h ⊢ <;> omega

theorem one_lt_headLength (v : Version) : 1 < headLength v := by
  cases v <;> decide

theorem headLength_le_textLength (v : Version) (d : Bytes) : headLength v ≤ textLength v d := Nat.le_add_right _ _

theorem in_text {v : Version} {d : Bytes} {i : Nat} (h : IsRouting v i ∨ IsPayload v d i) :
    1 ≤ i ∧ i < textLength v d := by
  have hhead := one_lt_headLength v
  have htext := headLength_le_textLength v d
  rcases h with hrouting | ⟨hstart, hend⟩
  · have hheader := hrouting.in_header
    omega
  · omega

section Altered

variable {places : Nat → Prop} {v : Version} {d d' : Bytes}

/-- Routing, payload and what follows it do not change what a header announces. -/
theorem announces_of_altered (h : AlteredAt places d d')
    (hplaces : ∀ i, places i → IsRouting v i ∨ headLength v ≤ i) :
    d'[0]? = d[0]? ∧ textLength v d' = textLength v d ∧ frameLength v d' = frameLength v d ∧
      msgId v d' = msgId v d := by
  have hsame (i : Nat) (hhead : i < headLength v) (hrouting : ¬IsRouting v i) : d'[i]? = d[i]? :=
    h.same i fun hi => (hplaces i hi).elim hrouting (Nat.not_le_of_lt hhead)
  cases v with
  | v1 =>
    have hlength : d'[1]? = d[1]? := hsame 1 (by decide) (by decide)
    have hid : d'[5]? = d[5]? := hsame 5 (by decide) (by decide)
    refine ⟨hsame 0 (by decide) (by decide), ?_⟩
    simp [frameLength, textLength, hasTrailer, msgId, List.getD_eq_getElem?_getD, hlength, hid]
  | v2 =>
    have hlength : d'[1]? = d[1]? := hsame 1 (by decide) (by decide)
    have hflags : d'[2]? = d[2]? := hsame 2 (by decide) (by decide)
    have hid : d'.field 7 3 = d.field 7 3 := by
      apply Bytes.field_congr
      intro i hstart hend
      apply hsame i
      · simpa [headLength] using hend
      · simp only [IsRouting, routingPlace]
        omega
    refine ⟨hsame 0 (by decide) (by decide), ?_⟩
    simp [frameLength, textLength, hasTrailer, msgId, List.getD_eq_getElem?_getD, hlength, hflags, hid]

theorem read_eq_noise (hstart : d[0]? = some v.start) (hlength : frameLength v d ≤ d.length)
    (hsum : ¬HasChecksum v d) : Frame.read d = .noise := by
  cases d with
  | nil => cases hstart
  | cons b tail =>
    obtain rfl : b = v.start := Option.some.inj hstart
    rw [List.length_cons] at hlength
    cases hread : Announced.read v tail with
    | none =>
      have hlt := length_lt_of_unannounced hread
      have hle := headLength_le_frameLength v (v.start :: tail)
      omega
    | some announced =>
      obtain ⟨a, rest⟩ := announced
      obtain ⟨hframe, hrest, _⟩ := length_of_announced hread
      rw [hasChecksum_iff_isSome hread, Bool.not_eq_true, Option.isSome_eq_false_iff, Option.isNone_iff_eq_none] at hsum
      rw [Frame.read_of_announced hread, if_neg (by omega), hsum]
      rfl

end Altered

theorem of_bytes (f : Frame) :
    f.bytes[0]? = some f.version.start ∧ frameLength f.version f.bytes = f.bytes.length ∧
      HasChecksum f.version f.bytes ∧ msgId f.version f.bytes = f.msgId := by
  have hfront : IsFrame f.bytes := isFrame_iff.mpr ⟨f, rfl⟩
  obtain ⟨tail, hbytes⟩ := f.bytes_eq
  rw [hbytes, IsFrame, frontLength?_start] at hfront
  rw [hbytes]
  split at hfront
  · rename_i hframe
    exact ⟨rfl, Option.some.inj hfront, hframe.2,
      (of_announced (Announced.read_bytes f.header f.payload.length f.unsigned_of_v1 tail)).2.2.1⟩
  · cases hfront

end Grammar

open Grammar (IsRouting IsPayload IsChecksum)

/-- The bytes of a frame with a change in them that does not reach what the header announces. -/
inductive Frame.Damaged (f : Frame) : Bytes → Prop where
  | covered {d : Bytes} (hknown : Checksum.knownSeed f.msgId ≠ none) (i : Nat)
      (h : AlteredAt (fun j => Near i j ∧ (IsRouting f.version j ∨ IsPayload f.version f.bytes j)) f.bytes d) :
      Damaged f d
  | checksum {d : Bytes} (hknown : Checksum.knownSeed f.msgId ≠ none)
      (h : AlteredAt (IsChecksum f.version f.bytes) f.bytes d) : Damaged f d
  | last {d : Bytes} (hunknown : Checksum.knownSeed f.msgId = none) (i : Nat)
      (hlast : IsPayload f.version f.bytes i ∧ ¬IsPayload f.version f.bytes (i + 1))
      (h : AlteredAt (· = i) f.bytes d) : Damaged f d

namespace Frame.Damaged

variable {f : Frame} {d : Bytes}

theorem altered (h : f.Damaged d) : ∃ places, AlteredAt places f.bytes d ∧
    ∀ i, places i → IsRouting f.version i ∨ Grammar.headLength f.version ≤ i := by
  cases h with
  | covered _ i h =>
    refine ⟨_, h, ?_⟩
    rintro j ⟨_, hrouting | hpayload⟩
    · exact .inl hrouting
    · exact .inr hpayload.1
  | checksum _ h =>
    refine ⟨_, h, fun j hj => .inr ?_⟩
    exact Nat.le_trans (Nat.le_add_right _ _) hj.1
  | last _ i hlast h =>
    refine ⟨_, h, ?_⟩
    rintro j rfl
    exact .inr hlast.1.1

theorem sums_of_hasChecksum (h : f.Damaged d) (hsum : Grammar.HasChecksum f.version d) :
    let n := Grammar.textLength f.version f.bytes
    ∃ seed seed' : UInt8, (Checksum.knownSeed f.msgId ≠ none → seed' = seed) ∧
      Checksum.x25 (f.bytes.field 1 (n - 1) ++ [seed]) = UInt16.ofNat (Bytes.toNat (f.bytes.field n 2)) ∧
      Checksum.x25 (d.field 1 (n - 1) ++ [seed']) = UInt16.ofNat (Bytes.toNat (d.field n 2)) := by
  obtain ⟨places, haltered, hplaces⟩ := h.altered
  obtain ⟨_, htext, _, hid⟩ := Grammar.announces_of_altered haltered hplaces
  obtain ⟨_, _, hframe, hmsgId⟩ := Grammar.of_bytes f
  rw [Grammar.hasChecksum_iff, hid, htext, hmsgId] at hsum
  rw [Grammar.hasChecksum_iff, hmsgId] at hframe
  obtain ⟨seed, hmem, hseed⟩ := hframe
  obtain ⟨seed', hmem', hseed'⟩ := hsum
  rw [Checksum.seeded_eq] at hseed hseed'
  exact ⟨seed, seed', fun hknown => Checksum.eq_of_known hknown hmem hmem', hseed, hseed'⟩

theorem not_hasChecksum (h : f.Damaged d) : ¬Grammar.HasChecksum f.version d := by
  intro hsum
  obtain ⟨seed, seed', hseeds, hframe, hdamaged⟩ := h.sums_of_hasChecksum hsum
  obtain ⟨_, hlength, _, _⟩ := Grammar.of_bytes f
  rw [Grammar.frameLength] at hlength
  cases h with
  | covered hknown i h =>
    obtain rfl := hseeds hknown
    have htext := h.mono fun j hj => And.intro hj.1 (Grammar.in_text hj.2)
    have hsame := htext.field_eq (Grammar.textLength f.version f.bytes) 2
      fun j hstart _ hj => Nat.not_le_of_lt hj.2.2 hstart
    rw [hsame, ← hframe] at hdamaged
    exact Checksum.x25_ne_of_same_seed htext seed' hdamaged
  | checksum hknown h =>
    obtain rfl := hseeds hknown
    have hsame := h.field_eq 1 (Grammar.textLength f.version f.bytes - 1) fun j _ hend hj => by
      have hbehind := hj.1
      omega
    rw [hsame, hframe] at hdamaged
    exact Checksum.word_ne_of_altered h (by omega) hdamaged.symm
  | last _ i hlast h =>
    -- Nothing ties the seeds to each other here, so that the byte in front of them has to show the damage.
    obtain ⟨hpayload, hbehind⟩ := hlast
    have hin := Grammar.in_text (.inr hpayload)
    have hend : Grammar.textLength f.version f.bytes = i + 1 := by
      have hstart := hpayload.1
      unfold IsPayload at hbehind
      omega
    rw [hend] at hframe hdamaged hlength
    have hsame := h.field_eq (i + 1) 2 fun j hstart _ hj => by omega
    rw [hsame, ← hframe] at hdamaged
    exact Checksum.x25_ne_of_last h hin.1 (by omega) seed seed' hdamaged

theorem read_append (h : f.Damaged d) (rest : Bytes) : read (d ++ rest) = .noise := by
  obtain ⟨places, haltered, hplaces⟩ := h.altered
  obtain ⟨hfirst, _, hframeLength, _⟩ := Grammar.announces_of_altered haltered hplaces
  obtain ⟨hstart, hlength, _, _⟩ := Grammar.of_bytes f
  have hnoise : read d = .noise := by
    apply Grammar.read_eq_noise (hfirst.trans hstart) _ h.not_hasChecksum
    exact Nat.le_of_eq (hframeLength.trans (hlength.trans haltered.length_eq.symm))
  rw [Frame.read_append (by simp [hnoise]), hnoise]
  rfl

end Frame.Damaged

/-- A parser that comes to these bytes, whatever follows and in whatever chunks, takes no frame there: it drops the first
of them and goes on behind it. -/
structure Rejected (d : Bytes) : Prop where
  read (rest : Bytes) : Frame.read (d ++ rest) = .noise
  parser (chunks : List Bytes) (rest : Bytes) (dropped : Nat) (h : chunks.flatten = d ++ rest) :
    Parser.pushEach ⟨[], dropped⟩ chunks = Parser.push ⟨[], dropped + 1⟩ (d.tail ++ rest)

theorem Frame.Damaged.rejected {f : Frame} {d : Bytes} (h : f.Damaged d) : Rejected d where
  read := h.read_append
  parser chunks rest dropped hchunks := by
    have hsettled : Parser.Settled ⟨[], dropped⟩ := by
      rw [Parser.Settled, Parser.push, List.append_nil, sift_nil]
      rfl
    have hne : d ≠ [] := by
      rintro rfl
      cases h.read_append []
    rw [Parser.pushEach_of_settled hsettled, hchunks, Parser.push, Parser.push, List.nil_append, List.nil_append,
      sift_of_noise (h.read_append rest), List.tail_append_of_ne_nil hne]
    simp only [Nat.add_assoc, Nat.add_comm 1]

/-- Two neighbouring bytes cannot change without the checksum.  A frame with a known seed is not read from bytes that
differ from its own in this way, or in the checksum alone; one with any other id is not read when the last byte of its
payload has changed. -/
theorem damage_is_noticed :
    (∀ (d d' : Bytes) (i : Nat), AlteredAt (Near i) d d' → Checksum.x25 d' ≠ Checksum.x25 d) ∧
      ∀ (f : Frame) (d : Bytes), f.Damaged d → Rejected d :=
  ⟨fun _ _ _ => Checksum.x25_ne_of_altered, fun _ _ => Frame.Damaged.rejected⟩

/-- System and component of a heartbeat, its checksum, and the last byte of a payload under an id without a known seed. -/
theorem damage_is_noticed_nested :
    AlteredAt (Near 1) [1, 2, 3, 4] [1, 8, 9, 4] ∧ Checksum.x25 [1, 8, 9, 4] ≠ Checksum.x25 [1, 2, 3, 4] ∧
      (innerFrame.Damaged ((innerFrame.bytes.set 3 5).set 4 6) ∧ Rejected ((innerFrame.bytes.set 3 5).set 4 6)) ∧
      (innerFrame.Damaged (innerFrame.bytes.set 15 0) ∧ Rejected (innerFrame.bytes.set 15 0)) ∧
      (outerFrame.Damaged (outerFrame.bytes.set 26 0) ∧ Rejected (outerFrame.bytes.set 26 0)) := by
  have hwords : AlteredAt (Near 1) [1, 2, 3, 4] [1, 8, 9, 4] := by decide
  have hrouting : innerFrame.Damaged ((innerFrame.bytes.set 3 5).set 4 6) := .covered (by decide) 3 (by decide +kernel)
  have hchecksum : innerFrame.Damaged (innerFrame.bytes.set 15 0) := .checksum (by decide) (by decide +kernel)
  have hlast : outerFrame.Damaged (outerFrame.bytes.set 26 0) := .last (by decide) 26 (by decide) (by decide +kernel)
  obtain ⟨hsums, hrejected⟩ := damage_is_noticed
  exact ⟨hwords, hsums _ _ _ hwords, ⟨hrouting, hrejected _ _ hrouting⟩, ⟨hchecksum, hrejected _ _ hchecksum⟩, hlast,
    hrejected _ _ hlast⟩

end GatedRelay
