import GatedRelay.Proofs.Record.RoundTrip
import GatedRelay.Proofs.Store.Records

/-!
# What a request can change

A request about one port changes the value under the key of that port and no other, and only where nothing or a record
stands.  The upgrade of older records changes these and nothing else.  So whatever is neither a record nor an older one
stays as it is, and so does everything under keys that belong to no port.
-/

set_option autoImplicit false

namespace GatedRelay

theorem find?_filter_key {κ ν : Type} [DecidableEq κ] (kept : κ → Bool) (l : List (κ × ν)) (k : κ) :
    (l.filter fun p => kept p.1).find? (·.1 = k) = if kept k then l.find? (·.1 = k) else none := by
  rw [List.find?_filter]
  split
  · rename_i hkept
    congr 1
    funext p
    by_cases hp : p.1 = k
    · simp [hp, hkept]
    · simp [hp]
  · rename_i hkept
    rw [List.find?_eq_none]
    intro p _ hp
    obtain ⟨hkept', hkey⟩ := of_decide_eq_true hp
    exact hkept (of_decide_eq_true hkey ▸ hkept')

theorem length_portKey (port : Int32) : (portKey port).length = 4 := Bytes.length_ofNat _ _

def Credential.IsRecord (data : Bytes) : Prop := data.length = storedWidth ∧ magicOf data = recordMagic

def Credential.IsLegacy (data : Bytes) : Prop := data.length = legacyWidth ∧ magicOf data = recordMagic

namespace Entries

open Credential

theorem get?_erase (e : Entries) (k k' : Bytes) : (e.erase k).get? k' = if k' = k then none else e.get? k' := by
  have hfind := find?_filter_key (fun key => decide (key ≠ k)) e.pairs k'
  rw [get?, erase, hfind]
  by_cases hkey : k' = k
  · simp [hkey]
  · simp [hkey, get?]

/-! ## One record -/

structure Alters (e after : Entries) (key : Bytes) : Prop where
  others : ∀ k, k ≠ key → after.get? k = e.get? k
  replaces : ∀ data, e.get? key = some data → IsRecord data

theorem isRecord_of_fetch? {e : Entries} {port2 : Int32} {r : Credential} (h : e.fetch? port2 = some r) {data : Bytes}
    (hdata : e.get? (portKey port2) = some data) : IsRecord data := by
  rw [fetch?, hdata, Option.bind_some] at h
  cases hunpack : unpack port2 data with
  | error reason =>
    rw [hunpack] at h
    cases h
  | ok r' => exact unpack_eq_ok_iff.mp ⟨r', hunpack⟩

theorem alters_save {e : Entries} {r : Credential} {port2 : Int32} (hport : r.port2 = port2)
    (h : ∀ data, e.get? (portKey port2) = some data → IsRecord data) : Alters e (e.save r) (portKey port2) where
  others k hk := by rw [save, get?_put, hport, if_neg hk.symm]
  replaces := h

theorem create_or_alters (e : Entries) {r : Credential} {port2 : Int32} (hport : r.port2 = port2) :
    (Request.answerOne e (e.create r)).2 = e ∨ Alters e (Request.answerOne e (e.create r)).2 (portKey port2) := by
  rw [create, hport]
  cases hget : e.get? (portKey port2) with
  | some data => exact .inl rfl
  | none =>
    refine .inr (alters_save hport fun data hdata => ?_)
    rw [hget] at hdata
    cases hdata

theorem remove_or_alters (e : Entries) (port2 : Int32) :
    (Request.answerOne e (e.remove port2)).2 = e ∨
      Alters e (Request.answerOne e (e.remove port2)).2 (portKey port2) := by
  rw [remove]
  cases hr : e.fetch? port2 with
  | none => exact .inl rfl
  | some r =>
    refine .inr ⟨fun k hk => ?_, fun data hdata => isRecord_of_fetch? hr hdata⟩
    rw [Request.answerOne, get?_erase, if_neg hk]

theorem update_or_alters (e : Entries) (port2 : Int32) {change : Credential → Credential}
    (hchange : ∀ r, (change r).port2 = r.port2) :
    (Request.answerOne e (e.update port2 change)).2 = e ∨
      Alters e (Request.answerOne e (e.update port2 change)).2 (portKey port2) := by
  rw [update]
  cases hr : e.fetch? port2 with
  | none => exact .inl rfl
  | some r =>
    have hport : (change r).port2 = port2 := (hchange r).trans (of_fetch? hr).1
    exact .inr (alters_save hport fun data hdata => isRecord_of_fetch? hr hdata)

/-! ## Upgrading -/

theorem legacy?_eq_some_iff {e : Entries} {key : Bytes} {port2 : Int32} {data : Bytes} :
    e.legacy? key = some (port2, data) ↔ key = portKey port2 ∧ e.get? key = some data ∧ IsLegacy data := by
  rw [← portOfKey?_eq_some_iff]
  simp only [legacy?, bind, Option.bind_eq_some_iff]
  constructor
  · rintro ⟨port, hport, value, hvalue, hfound⟩
    split at hfound
    · rename_i hlegacy
      cases hfound
      exact ⟨hport, hvalue, hlegacy⟩
    · cases hfound
  · rintro ⟨hport, hvalue, hlegacy⟩
    exact ⟨port2, hport, data, hvalue, if_pos hlegacy⟩

theorem port2_of_ofLegacy {port2 : Int32} {data : Bytes} {r : Credential} (h : ofLegacy port2 data = .ok r) :
    r.port2 = port2 := by
  unfold ofLegacy at h
  split at h
  · cases h
  · cases hport1 : legacyPort1 port2 with
    | error reason =>
      rw [hport1] at h
      cases h
    | ok port1 =>
      rw [hport1] at h
      cases h
      rfl

/-- The upgrade changes values under keys with a record of the older form only. -/
theorem get?_convertKeys (keys : List Bytes) (e : Entries) (k : Bytes) :
    (convertKeys keys e).2.get? k = e.get? k ∨ ∃ port2 data, e.legacy? k = some (port2, data) := by
  induction keys generalizing e with
  | nil => exact .inl rfl
  | cons key rest ih =>
    unfold convertKeys
    cases hlegacy : e.legacy? key with
    | none => exact ih e
    | some found =>
      obtain ⟨port2, data⟩ := found
      cases hr : ofLegacy port2 data with
      | error reason => exact .inl (by simp only [hr])
      | ok r =>
        simp only [hr]
        by_cases hk : k = key
        · exact .inr ⟨port2, data, hk ▸ hlegacy⟩
        · have hkey : portKey r.port2 = key := by
            rw [port2_of_ofLegacy hr]
            exact (legacy?_eq_some_iff.mp hlegacy).1.symm
          have hsame : (e.save r).get? k = e.get? k := by rw [save, get?_put, hkey, if_neg (Ne.symm hk)]
          have hlegacySame : (e.save r).legacy? k = e.legacy? k := by rw [legacy?, legacy?, hsame]
          rw [← hsame, ← hlegacySame]
          exact ih (e.save r)

end Entries

/-! ## Any request -/

namespace Request

open Credential Entries

def target? : Request → Option Int32
  | get _ | list | convertLegacy => none
  | add _ port2 _ _ | remove port2 | setName port2 _ | setPassphrase port2 _ | setPort1 port2 _
  | resetTimestamp port2 | recordSession port2 _ _ _ | advanceTimestamp port2 _ | setSigningKey port2 _ _ => some port2

theorem perform_or_alters {request : Request} {port2 : Int32} (h : request.target? = some port2) (e : Entries) :
    (request.perform e).2 = e ∨ Alters e (request.perform e).2 (portKey port2) := by
  cases request with
  | get | list | convertLegacy => cases h
  | add port1 _ name passphrase =>
    cases h
    exact create_or_alters e rfl
  | remove =>
    cases h
    exact remove_or_alters e _
  | setName | setPassphrase | setPort1 | resetTimestamp | recordSession | advanceTimestamp | setSigningKey =>
    cases h
    exact update_or_alters e _ fun _ => rfl

/-- What stands under a key after a request is what stood there before, unless the request was to change the record of
the port or an older record was upgraded. -/
theorem get?_perform (request : Request) (e : Entries) (key : Bytes) :
    (request.perform e).2.get? key = e.get? key ∨
      (∃ port2, request.target? = some port2 ∧ key = portKey port2 ∧
        ∀ data, e.get? key = some data → IsRecord data) ∨
      request = .convertLegacy ∧ ∃ port2 data, key = portKey port2 ∧ e.get? key = some data ∧ IsLegacy data := by
  cases htarget : request.target? with
  | some port2 =>
    rcases perform_or_alters htarget e with hsame | halters
    · exact .inl (by rw [hsame])
    · by_cases hkey : key = portKey port2
      · subst hkey
        exact .inr (.inl ⟨port2, rfl, rfl, halters.replaces⟩)
      · exact .inl (halters.others key hkey)
  | none =>
    cases request with
    | get | list => exact .inl rfl
    | convertLegacy =>
      rcases get?_convertKeys e.keys e key with hsame | ⟨port2, data, hlegacy⟩
      · exact .inl hsame
      · exact .inr (.inr ⟨rfl, port2, data, legacy?_eq_some_iff.mp hlegacy⟩)
    | add | remove | setName | setPassphrase | setPort1 | resetTimestamp | recordSession | advanceTimestamp
    | setSigningKey => cases htarget

end Request

end GatedRelay
