import GatedRelay.Proofs.Record.Codec
import GatedRelay.Proofs.Text.Cut

/-!
# Packing and unpacking, both ways

A record that is packed comes back with the part of its name that its field can hold.  A value that is unpacked and
packed again is the same, except where its name field holds more than a name and zeros behind it.
-/

set_option autoImplicit false

namespace GatedRelay.Credential

/-! ## Names and their fields -/

/-- The longest text that the name begins with, up to its first zero character, and that fits the name field. -/
structure Keeps (name kept : String) : Prop where
  front : kept.toList <+: name.toList.takeWhile (· ≠ '\x00')
  fits : (Utf8.encode kept).length ≤ nameWidth
  longest : ∀ text : String, text.toList <+: name.toList.takeWhile (· ≠ '\x00') →
    (Utf8.encode text).length ≤ nameWidth → text.toList <+: kept.toList

def keptName (name : String) : String :=
  String.ofList (Utf8.fitting nameWidth (name.toList.takeWhile (· ≠ '\x00')))

theorem keeps_keptName (name : String) : Keeps name (keptName name) := by
  obtain ⟨hfront, hfits, hlongest⟩ := Utf8.isLongest_fitting nameWidth (name.toList.takeWhile (· ≠ '\x00'))
  rw [String.toList_ofList (l := name.toList.takeWhile (· ≠ '\x00'))] at hfront hlongest
  exact ⟨hfront, hfits, hlongest⟩

/-- A field that holds a text without zero characters and nothing but zeros behind it. -/
def IsPlain (field : Bytes) : Prop :=
  ∃ (text : String) (zeros : Nat), '\x00' ∉ text.toList ∧ field = Utf8.encode text ++ List.replicate zeros 0

theorem takeWhile_append_zeros (b : Bytes) (zeros : Nat) :
    (b ++ List.replicate zeros 0).takeWhile (· ≠ 0) = b.takeWhile (· ≠ 0) := by
  have hzeros : (List.replicate zeros (0 : UInt8)).takeWhile (· ≠ 0) = [] := by
    cases zeros <;> simp [List.replicate_succ]
  rw [List.takeWhile_append, hzeros]
  split
  · rename_i hall
    rw [List.append_nil, (List.takeWhile_prefix _).eq_of_length hall]
  · rfl

theorem nameOfField_nameField_eq (name : String) : nameOfField (nameField name) = keptName name := by
  rw [nameOfField, nameField, Bytes.fit, takeWhile_append_zeros, ← List.take_takeWhile, Utf8.encode,
    Utf8.takeWhile_encode, Utf8.decodeSkipping_take, keptName]

theorem isPlain_nameField {name : String} (hlength : (Utf8.encode name).length ≤ nameWidth)
    (hzero : '\x00' ∉ name.toList) : IsPlain (nameField name) := by
  refine ⟨name, nameWidth - (Utf8.encode name).length, hzero, ?_⟩
  rw [nameField, Bytes.fit, List.take_of_length_le hlength]

/-- Only what is left out when a name is read is lost when it is written again. -/
theorem nameField_nameOfField_eq_iff {field : Bytes} (h : field.length = nameWidth) :
    nameField (nameOfField field) = field ↔ IsPlain field := by
  constructor
  · intro heq
    obtain ⟨hfits, hzero⟩ := fits_nameOfField (Nat.le_of_eq h)
    rw [← heq]
    exact isPlain_nameField hfits fun hmem => hzero (Utf8.zero_mem_encode.mpr hmem)
  · rintro ⟨text, zeros, hzero, rfl⟩
    have htext : (Utf8.encode text).takeWhile (· ≠ 0) = Utf8.encode text := by
      rw [List.takeWhile_eq_self_iff]
      intro b hb
      apply decide_eq_true
      rintro rfl
      exact hzero (Utf8.zero_mem_encode.mp hb)
    rw [List.length_append, List.length_replicate] at h
    rw [nameOfField, takeWhile_append_zeros, htext, Utf8.decodeSkipping_encode, nameField, Bytes.fit,
      List.take_of_length_le (by omega)]
    congr
    omega

/-! ## Values and their fields -/

theorem unpack_eq_ok_iff {port2 : Int32} {data : Bytes} :
    (∃ r, unpack port2 data = .ok r) ↔ data.length = storedWidth ∧ magicOf data = recordMagic := by
  unfold unpack
  split
  · rename_i hlength
    simp [hlength]
  · rename_i hlength
    split
    · rename_i hmagic
      simp [hmagic]
    · rename_i hmagic
      rw [Decidable.not_not] at hlength hmagic
      simp [hlength, hmagic]

theorem unpack_pack_of_badMagic {r : Credential} (h : r.magic ≠ recordMagic) :
    unpack r.port2 r.pack = .error (.badMagic r.magic) := by
  have hmagic : magicOf r.pack = r.magic := by rw [magicOf, r.field_pack.1, Bytes.word_ofNat]
  rw [unpack, if_neg (by rw [length_pack]; exact fun h => h rfl), if_pos (by rwa [hmagic]), hmagic]

theorem ofNat_word {b : Bytes} (h : b.length = 8) : Bytes.ofNat 8 (UInt64.ofNat (Bytes.toNat b)).toNat = b := by
  have hlt := Bytes.toNat_lt b
  rw [h] at hlt
  rw [UInt64.toNat_ofNat_of_lt' hlt, ← h, Bytes.ofNat_toNat]

theorem ofNat_half {b : Bytes} (h : b.length = 4) : Bytes.ofNat 4 (UInt32.ofNat (Bytes.toNat b)).toNat = b := by
  have hlt := Bytes.toNat_lt b
  rw [h] at hlt
  rw [UInt32.toNat_ofNat_of_lt' hlt, ← h, Bytes.ofNat_toNat]

theorem take_append_field (b : Bytes) (offset n : Nat) : b.take offset ++ b.field offset n = b.take (offset + n) :=
  List.take_add.symm

theorem pack_of_unpack {port2 : Int32} {data : Bytes} {r : Credential} (h : unpack port2 data = .ok r) :
    r.pack = data.take 64 ++ nameField (nameOfField (data.field 64 32)) := by
  obtain ⟨hlength, hmagic⟩ := unpack_eq_ok_iff.mp ⟨r, h⟩
  have hfield (offset n : Nat) (hend : offset + n ≤ 96) : (data.field offset n).length = n := by
    rw [Bytes.field, List.length_take, List.length_drop, hlength, storedWidth]
    omega
  rw [unpack, if_neg (by rw [hlength]; exact fun h => h rfl), if_neg (by rw [hmagic]; exact fun h => h rfl)] at h
  cases h
  rw [pack]
  congr 1
  simp only [magicOf, UInt32.toUInt32_toInt32, ofNat_word (hfield 0 8 (by omega)), ofNat_word (hfield 8 8 (by omega)),
    ofNat_half (hfield 48 4 (by omega)), ofNat_half (hfield 52 4 (by omega)), ofNat_half (hfield 56 4 (by omega)),
    ofNat_half (hfield 60 4 (by omega)), Block.ofBytes, Bytes.fit_eq_self (hfield 16 32 (by omega))]
  have hfront : data.field 0 8 = data.take 8 := rfl
  simp only [hfront, take_append_field]

/-- What was packed comes back with what is kept of its name, or is refused for its magic number.  A value is refused
for its width, then for its magic number, and for nothing else.  What is unpacked differs in its name field only when it
is packed again, is the same record when it is unpacked again, and the same value exactly if its name field is plain. -/
theorem packs_and_unpacks (r : Credential) (port2 : Int32) (data : Bytes) :
    ((r.magic = recordMagic → ∃ kept, Keeps r.name kept ∧ unpack r.port2 r.pack = .ok { r with name := kept }) ∧
      (r.magic ≠ recordMagic → unpack r.port2 r.pack = .error (.badMagic r.magic))) ∧
    ((data.length ≠ storedWidth → unpack port2 data = .error (.wrongLength storedWidth data.length)) ∧
      (data.length = storedWidth → magicOf data ≠ recordMagic → unpack port2 data = .error (.badMagic (magicOf data))) ∧
      ((∃ r, unpack port2 data = .ok r) ↔ data.length = storedWidth ∧ magicOf data = recordMagic)) ∧
    ∀ r, unpack port2 data = .ok r →
      r.pack.take 64 = data.take 64 ∧ unpack port2 r.pack = .ok r ∧ (r.pack = data ↔ IsPlain (data.field 64 32)) := by
  refine ⟨⟨?_, unpack_pack_of_badMagic⟩, ⟨?_, ?_, unpack_eq_ok_iff⟩, ?_⟩
  · intro hmagic
    refine ⟨keptName r.name, keeps_keptName r.name, ?_⟩
    rw [unpack_pack hmagic, stored, nameOfField_nameField_eq]
  · intro hlength
    rw [unpack, if_pos hlength]
  · intro hlength hmagic
    rw [unpack, if_neg (fun h => h hlength), if_pos hmagic]
  · intro r hr
    obtain ⟨hport, hmagic, hstored⟩ := of_unpack hr
    obtain ⟨hlength, _⟩ := unpack_eq_ok_iff.mp ⟨r, hr⟩
    rw [storedWidth] at hlength
    have hpack := pack_of_unpack hr
    have hfront : (data.take 64).length = 64 := by
      rw [List.length_take]
      omega
    have hname : (data.field 64 32).length = nameWidth := by
      rw [Bytes.field, List.length_take, List.length_drop, nameWidth]
      omega
    have hsplit : data = data.take 64 ++ data.field 64 32 := by
      rw [take_append_field, List.take_of_length_le (Nat.le_of_eq hlength)]
    refine ⟨?_, ?_, ?_⟩
    · rw [hpack, List.take_left' hfront]
    · rw [← hport, unpack_pack hmagic, hstored]
    · calc
        r.pack = data ↔ data.take 64 ++ nameField (nameOfField (data.field 64 32)) =
            data.take 64 ++ data.field 64 32 := by rw [hpack, ← hsplit]
        _ ↔ nameField (nameOfField (data.field 64 32)) = data.field 64 32 := List.append_right_inj _
        _ ↔ IsPlain (data.field 64 32) := nameField_nameOfField_eq_iff hname

/-- Thirty-one letters, and a character of two bytes of which the name field holds the first. -/
def longNamed : Credential where
  port2 := 14553
  name := String.ofList (List.replicate 31 'a' ++ ['é'])

theorem packs_and_unpacks_longNamed :
    longNamed.magic = recordMagic ∧
      ∃ r, unpack 14553 longNamed.pack = .ok r ∧ r.name = String.ofList (List.replicate 31 'a') ∧
        Keeps longNamed.name r.name ∧ ¬IsPlain (longNamed.pack.field 64 32) := by
  obtain ⟨⟨hpacked, _⟩, _, hunpacked⟩ := packs_and_unpacks longNamed 14553 longNamed.pack
  obtain ⟨kept, hkeeps, hunpack⟩ := hpacked rfl
  have hname : unpack 14553 longNamed.pack =
      .ok { longNamed with name := String.ofList (List.replicate 31 'a') } := by
    decide +kernel
  obtain rfl : kept = String.ofList (List.replicate 31 'a') :=
    congrArg Credential.name (Except.ok.inj (hunpack.symm.trans hname))
  obtain ⟨_, _, hsame⟩ := hunpacked _ hunpack
  refine ⟨rfl, _, hunpack, rfl, hkeeps, fun hplain => ?_⟩
  exact absurd (hsame.mpr hplain) (by decide +kernel)

end GatedRelay.Credential
