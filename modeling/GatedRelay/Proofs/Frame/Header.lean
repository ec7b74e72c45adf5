import GatedRelay.Frame.Reading

/-!
# Headers and their bytes

Reading a header undoes writing it, whatever follows.  Two frames with the same bytes therefore have the same header.
-/

set_option autoImplicit false

namespace GatedRelay

theorem Version.ofStart?_start (v : Version) : ofStart? v.start = some v := by
  cases v <;> rfl

theorem Version.start_injective {v w : Version} (h : v.start = w.start) : v = w := by
  have hv := ofStart?_start v
  rw [h, ofStart?_start] at hv
  exact (Option.some.inj hv).symm

theorem Format.ofNumbers_eq (flags : Fin 128) (bit : Bool) (compat : UInt8) (id : Fin 0x1000000) :
    ofNumbers ((2 * flags.val + bit.toNat) / 2) compat id.val = .v2 flags compat id := by
  have hhalf : (2 * flags.val + bit.toNat) / 2 = flags.val := by
    have hbit := bit.toNat_le
    omega
  rw [ofNumbers, hhalf, Fin.ofNat_val_eq_self, Fin.ofNat_val_eq_self]

theorem Announced.read_bytes (h : Header) (length : Nat) {signed : Bool} (hsigned : h.version = .v1 → signed = false)
    (rest : Bytes) :
    read h.version (h.bytes length signed ++ rest) = some (⟨h, UInt8.ofNat length, signed⟩, rest) := by
  obtain ⟨format, seq, sysid, compid⟩ := h
  cases format with
  | v1 id =>
    rw [hsigned rfl]
    rfl
  | v2 flags compat id =>
    have hflags : (UInt8.ofNat (2 * flags.val + signed.toNat)).toNat = 2 * flags.val + signed.toNat := by
      rw [UInt8.toNat_ofNat']
      have hlt := flags.isLt
      have hbit := signed.toNat_le
      omega
    have hid : Bytes.toNat (Bytes.ofNat 3 id.val) = id.val := by
      rw [Bytes.toNat_ofNat]
      exact Nat.mod_eq_of_lt id.isLt
    have hformat : Format.ofNumbers ((2 * flags.val + signed.toNat) / 2) compat id.val = .v2 flags compat id :=
      Format.ofNumbers_eq flags signed compat id
    have hbit : decide ((2 * flags.val + signed.toNat) % 2 = 1) = signed := by
      cases signed
      · simp
      · simp [Nat.add_mod]
    simp only [Bytes.ofNat] at hid
    simp only [Header.version, Header.bytes, Bytes.ofNat, List.cons_append, List.nil_append, read, hflags, hid,
      hformat, hbit]

namespace Frame

theorem bytes_eq (f : Frame) :
    ∃ tail, f.bytes = f.version.start :: (f.header.bytes f.payload.length f.isSigned ++ tail) := by
  cases ht : f.trailer with
  | none => exact ⟨_, by simp [bytes, ht, front, content, isSigned, List.append_assoc]; rfl⟩
  | some t => exact ⟨_, by simp [bytes, ht, front, content, isSigned, List.append_assoc]; rfl⟩

theorem unsigned_of_v1 (f : Frame) (h : f.header.version = .v1) : f.isSigned = false := by
  rw [isSigned, f.v1_unsigned h]
  rfl

theorem header_of_bytes {f g : Frame} (h : f.bytes = g.bytes) : f.header = g.header := by
  obtain ⟨tail, hf⟩ := f.bytes_eq
  obtain ⟨tail', hg⟩ := g.bytes_eq
  rw [hf, hg] at h
  obtain ⟨hstart, hrest⟩ := List.cons.inj h
  have hversion : f.header.version = g.header.version := Version.start_injective hstart
  have hread := congrArg (Announced.read f.header.version) hrest
  rw [Announced.read_bytes f.header _ f.unsigned_of_v1, hversion,
    Announced.read_bytes g.header _ g.unsigned_of_v1] at hread
  exact congrArg Announced.header (Prod.mk.inj (Option.some.inj hread)).1

end Frame

end GatedRelay
