import GatedRelay.Frame.StatusText
import GatedRelay.Proofs.Frame.Encoding
import GatedRelay.Proofs.Record.RoundTrip

/-!
# Status texts as they are read

Of a status text its receiver reads what comes before the first zero character, as far as it fits the field; a character
that the field cuts through is shown as one mark (`text_arrives`).  The zeros behind a shorter text are not sent, and
that cannot be seen.
-/

set_option autoImplicit false

namespace GatedRelay.StatusText

def beforeZero (text : String) : String := String.ofList (text.toList.takeWhile (· ≠ '\x00'))

inductive Shows (text : String) : String → Prop
  | whole (hfits : (Utf8.encode (beforeZero text)).length ≤ 50) : Shows text (beforeZero text)
  | filled {kept : String} (hlong : 50 < (Utf8.encode (beforeZero text)).length)
      (hkept : Utf8.IsLongest 50 (beforeZero text) kept) (hfull : (Utf8.encode kept).length = 50) : Shows text kept
  | split {kept : String} (hlong : 50 < (Utf8.encode (beforeZero text)).length)
      (hkept : Utf8.IsLongest 50 (beforeZero text) kept) (hsplit : (Utf8.encode kept).length < 50) :
      Shows text (kept ++ "\uFFFD")

/-! ## The field -/

theorem takeWhile_rdropWhile (b : Bytes) :
    (b.rdropWhile (· = 0)).takeWhile (· ≠ 0) = b.takeWhile (· ≠ 0) := by
  have hzeros := Credential.takeWhile_append_zeros (b.rdropWhile (· = 0)) (b.length - (b.rdropWhile (· = 0)).length)
  rwa [rdropWhile_append_zeros, eq_comm] at hzeros

theorem takeWhile_field (sysid compid severity : UInt8) (text : String) :
    (Bytes.field (frame sysid compid severity text).payload 1 fieldWidth).takeWhile (· ≠ 0) =
      ((Utf8.encode text).takeWhile (· ≠ 0)).take fieldWidth := by
  have hpayload : (frame sysid compid severity text).payload.drop 1 =
      (Bytes.fit fieldWidth (Utf8.encode text) ++ [0, 0, 0]).rdropWhile (· = 0) := rfl
  have hnumber : ([0, 0, 0] : Bytes) = List.replicate 3 0 := rfl
  rw [Bytes.field, hpayload, ← List.take_takeWhile, takeWhile_rdropWhile, hnumber, Credential.takeWhile_append_zeros,
    Bytes.fit, Credential.takeWhile_append_zeros, ← List.take_takeWhile, List.take_take, Nat.min_self]

theorem shows_decodeReplacing (text : String) :
    Shows text (Utf8.decodeReplacing (((Utf8.encode text).takeWhile (· ≠ 0)).take fieldWidth)) := by
  have hbefore : Utf8.encode (beforeZero text) =
      (text.toList.takeWhile (· ≠ '\x00')).flatMap String.utf8EncodeChar := Utf8.encode_ofList _
  have hkept := Utf8.isLongest_fitting fieldWidth (text.toList.takeWhile (· ≠ '\x00'))
  rw [Utf8.encode, Utf8.takeWhile_encode, Utf8.decodeReplacing_take, ← hbefore, ← Utf8.encode_ofList]
  rcases Nat.lt_or_ge fieldWidth (Utf8.encode (beforeZero text)).length with hlong | hfits
  · rw [Nat.min_eq_left (Nat.le_of_lt hlong)]
    split
    · rename_i hsplit
      rw [String.ofList_append]
      exact .split hlong hkept hsplit
    · rename_i hfull
      rw [List.append_nil]
      exact .filled hlong hkept (Nat.le_antisymm hkept.fits (Nat.le_of_not_lt hfull))
  · have hwhole : Utf8.fitting fieldWidth (text.toList.takeWhile (· ≠ '\x00')) =
        text.toList.takeWhile (· ≠ '\x00') := Utf8.fitting_eq_self (hbefore ▸ hfits)
    rw [hwhole, ← beforeZero, if_neg (Nat.not_lt_of_le (Nat.min_le_right _ _)), List.append_nil]
    exact .whole hfits

theorem exists_shows (sysid compid severity : UInt8) (text : String) :
    ∃ shown, text? (frame sysid compid severity text) = some shown ∧ Shows text shown := by
  refine ⟨_, if_pos rfl, ?_⟩
  rw [takeWhile_field]
  exact shows_decodeReplacing text

theorem text?_frame (sysid compid severity : UInt8) {text : String} (hzero : '\x00' ∉ text.toList)
    (hfits : (Utf8.encode text).length ≤ 50) : text? (frame sysid compid severity text) = some text := by
  have hbefore : beforeZero text = text := by
    rw [beforeZero, List.takeWhile_eq_self_iff.mpr, String.ofList_toList]
    intro c hc
    apply decide_eq_true
    rintro rfl
    exact hzero hc
  obtain ⟨shown, hshown, hshows⟩ := exists_shows sysid compid severity text
  rw [hshown]
  cases hshows with
  | whole => rw [hbefore]
  | filled hlong => exact absurd (hbefore ▸ hlong) (Nat.not_lt.mpr hfits)
  | split hlong => exact absurd (hbefore ▸ hlong) (Nat.not_lt.mpr hfits)

theorem text?_eq_none_iff {f : Frame} : text? f = none ↔ f.msgId ≠ MessageId.statusText := by
  unfold text?
  split
  · rename_i hid
    simp [hid]
  · rename_i hid
    simp [hid]

/-- A status text can always be sent, a parser finds it alone in its bytes, and its text is shown as far as the field
holds it.  Frames with another id show none. -/
theorem text_arrives (sysid compid severity : UInt8) (text : String) :
    (message sysid compid severity text).encode none = .ok (frame sysid compid severity text) ∧
      (∃ f, parseDatagram (frame sysid compid severity text).bytes = [f] ∧
        ∃ shown, text? f = some shown ∧ Shows text shown) ∧
      ∀ f, text? f = none ↔ f.msgId ≠ MessageId.statusText := by
  refine ⟨encode_message sysid compid severity text, ⟨frame sysid compid severity text, parseDatagram_bytes _, ?_⟩,
    fun f => text?_eq_none_iff⟩
  exact exists_shows sysid compid severity text

/-- The field ends inside the last character. -/
example : text? (frame 1 1 critical (String.ofList (List.replicate 48 'a' ++ ['€']))) =
    some (String.ofList (List.replicate 48 'a' ++ ['\uFFFD'])) := by decide +kernel

end GatedRelay.StatusText
