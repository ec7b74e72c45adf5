import GatedRelay.Record.Codec
import GatedRelay.Proofs.Text.Utf8
import Mathlib.Data.List.TakeWhile

/-!
# Reading what was stored

A record that is packed and unpacked again is the same, up to its name, which is cut to its field.  The name of a record
that was unpacked fits its field, so such a record comes back unchanged, whatever becomes of its other fields meanwhile.
-/

set_option autoImplicit false

namespace GatedRelay

theorem Bytes.field_append_right {a b : Bytes} {offset n : Nat} (h : a.length ≤ offset) :
    field (a ++ b) offset n = field b (offset - a.length) n := by
  rw [field, field, List.drop_append, List.drop_eq_nil_of_le h, List.nil_append]

theorem Bytes.field_append_left {a b : Bytes} {n : Nat} (h : a.length = n) : field (a ++ b) 0 n = a := by
  rw [field, List.drop_zero, List.take_left' h]

theorem Bytes.field_whole {a : Bytes} {n : Nat} (h : a.length = n) : field a 0 n = a := by
  rw [field, List.drop_zero, List.take_of_length_le (Nat.le_of_eq h)]

theorem Bytes.word_ofNat (w : UInt64) : UInt64.ofNat (toNat (ofNat 8 w.toNat)) = w := by
  have hlt := w.toNat_lt
  rw [toNat_ofNat, Nat.mod_eq_of_lt (by omega), UInt64.ofNat_toNat]

theorem Bytes.half_ofNat (w : UInt32) : UInt32.ofNat (toNat (ofNat 4 w.toNat)) = w := by
  have hlt := w.toNat_lt
  rw [toNat_ofNat, Nat.mod_eq_of_lt (by omega), UInt32.ofNat_toNat]

namespace Credential

/-! ## Names -/

theorem nameOfField_nameField {name : String} (hlength : (Utf8.encode name).length ≤ nameWidth)
    (hzero : 0 ∉ Utf8.encode name) : nameOfField (nameField name) = name := by
  have htake : (nameField name).takeWhile (· ≠ 0) = Utf8.encode name := by
    rw [nameField, Bytes.fit, List.take_of_length_le hlength, List.takeWhile_append_of_pos]
    · simp
    · intro b hb
      have hne : b ≠ 0 := fun h => hzero (h ▸ hb)
      simpa using hne
  rw [nameOfField, htake, Utf8.decodeSkipping_encode]

theorem fits_nameOfField {field : Bytes} (h : field.length ≤ nameWidth) :
    (Utf8.encode (nameOfField field)).length ≤ nameWidth ∧ 0 ∉ Utf8.encode (nameOfField field) := by
  have hsub : List.Sublist (Utf8.encode (nameOfField field)) (field.takeWhile (· ≠ 0)) :=
    Utf8.encode_decodeSkipping_sublist _
  constructor
  · exact Nat.le_trans hsub.length_le (Nat.le_trans (List.takeWhile_sublist _).length_le h)
  · intro hzero
    have hne := List.mem_takeWhile_imp (hsub.subset hzero)
    simp at hne

theorem nameField_nameOfField {field : Bytes} (h : field.length ≤ nameWidth) :
    nameOfField (nameField (nameOfField field)) = nameOfField field :=
  nameOfField_nameField (fits_nameOfField h).1 (fits_nameOfField h).2

/-! ## Fields -/

/-- The record as it comes back from the store. -/
def stored (r : Credential) : Credential := { r with name := nameOfField (nameField r.name) }

theorem stored_of_name {r r' : Credential} (h : r.stored = r) (hname : r'.name = r.name) : r'.stored = r' := by
  have hkept : nameOfField (nameField r.name) = r.name := congrArg Credential.name h
  rw [stored, hname, hkept, ← hname]

theorem field_pack (r : Credential) :
    r.pack.field 0 8 = Bytes.ofNat 8 r.magic.toNat ∧ r.pack.field 8 8 = Bytes.ofNat 8 r.timestamp.toNat ∧
      r.pack.field 16 32 = r.secret.bytes ∧ r.pack.field 48 4 = Bytes.ofNat 4 r.port1.toUInt32.toNat ∧
      r.pack.field 52 4 = Bytes.ofNat 4 r.connections.toNat ∧ r.pack.field 56 4 = Bytes.ofNat 4 r.count1.toNat ∧
      r.pack.field 60 4 = Bytes.ofNat 4 r.count2.toNat ∧ r.pack.field 64 32 = nameField r.name := by
  have hsecret := r.secret.length_eq
  have hname : (nameField r.name).length = 32 := Bytes.length_fit _ _
  refine ⟨?_, ?_, ?_, ?_, ?_, ?_, ?_, ?_⟩ <;>
    simp [pack, Bytes.field_append_right, Bytes.field_append_left, Bytes.field_whole, hsecret, hname]

theorem unpack_pack {r : Credential} (hmagic : r.magic = recordMagic) : unpack r.port2 r.pack = .ok r.stored := by
  obtain ⟨hfirst, htimestamp, hsecret, hport1, hconnections, hcount1, hcount2, hname⟩ := r.field_pack
  have hmagicOf : magicOf r.pack = r.magic := by rw [magicOf, hfirst, Bytes.word_ofNat]
  rw [unpack, if_neg (by rw [length_pack]; exact fun h => h rfl), if_neg (by rw [hmagicOf]; exact fun h => h hmagic),
    hmagicOf, htimestamp, hsecret, hport1, hconnections, hcount1, hcount2, hname]
  simp only [Bytes.word_ofNat, Bytes.half_ofNat, Block.ofBytes_bytes, Int32.toInt32_toUInt32, stored]

theorem of_unpack {port2 : Int32} {data : Bytes} {r : Credential} (h : unpack port2 data = .ok r) :
    r.port2 = port2 ∧ r.magic = recordMagic ∧ r.stored = r := by
  unfold unpack at h
  split at h
  · cases h
  · split at h
    · cases h
    · rename_i hmagic
      cases h
      refine ⟨rfl, Decidable.not_not.mp hmagic, ?_⟩
      have hfield : (Bytes.field data 64 32).length ≤ nameWidth := List.length_take_le _ _
      simp only [stored, nameField_nameOfField hfield]

end Credential

end GatedRelay
