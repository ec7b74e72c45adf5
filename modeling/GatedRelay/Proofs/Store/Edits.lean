import GatedRelay.Proofs.Store.Changes

/-!
# Requests about one record

A request about the record of a port needs a record there, or nothing at all if it is to add one.  One that finds what
it needs leaves the record with the named fields changed and the others as they were, although all of them are written
anew, and no other key is touched; one that does not is refused and changes nothing (`edits_one_record`).
-/

set_option autoImplicit false

namespace GatedRelay

open Credential

theorem Credential.stored_eq (r : Credential) : r.stored = { r with name := keptName r.name } := by
  rw [stored, nameOfField_nameField_eq]

theorem Entries.isRecord_iff_fetch? {e : Entries} {port2 : Int32} :
    (∃ data, e.get? (portKey port2) = some data ∧ IsRecord data) ↔ ∃ r, e.fetch? port2 = some r := by
  constructor
  · rintro ⟨data, hdata, hrecord⟩
    obtain ⟨r, hr⟩ := unpack_eq_ok_iff.mpr hrecord
    exact ⟨r, by rw [fetch?, hdata, Option.bind_some, hr]; rfl⟩
  · rintro ⟨r, hr⟩
    obtain ⟨data, hdata, _⟩ := Option.bind_eq_some_iff.mp hr
    exact ⟨data, hdata, isRecord_of_fetch? hr hdata⟩

namespace Request

/-! ## What requests ask for -/

inductive Edits : Request → Option Credential → Option Credential → Prop
  | add (port1 port2 : Int32) (name passphrase : String) :
      Edits (.add port1 port2 name passphrase) none
        (some { port2 := port2, port1 := port1, name := keptName name, secret := Secret.ofPassphrase passphrase })
  | remove (port2 : Int32) (r : Credential) : Edits (.remove port2) (some r) none
  | setName (port2 : Int32) (name : String) (r : Credential) :
      Edits (.setName port2 name) (some r) (some { r with name := keptName name })
  | setPassphrase (port2 : Int32) (passphrase : String) (r : Credential) :
      Edits (.setPassphrase port2 passphrase) (some r) (some { r with secret := Secret.ofPassphrase passphrase })
  | setPort1 (port2 port1 : Int32) (r : Credential) :
      Edits (.setPort1 port2 port1) (some r) (some { r with port1 := port1 })
  | resetTimestamp (port2 : Int32) (r : Credential) :
      Edits (.resetTimestamp port2) (some r) (some { r with timestamp := 0 })
  | recordSession (port2 : Int32) (count1 count2 : UInt32) (newConnection : Bool) (r : Credential) :
      Edits (.recordSession port2 count1 count2 newConnection) (some r)
        (some { r with
          count1 := r.count1 + count1
          count2 := r.count2 + count2
          connections := if newConnection then r.connections + 1 else r.connections })
  | advanceTimestamp (port2 : Int32) (timestamp : UInt64) (r : Credential) :
      Edits (.advanceTimestamp port2 timestamp) (some r) (some { r with timestamp := max r.timestamp timestamp })
  | setSigningKey (port2 : Int32) (secret : Secret) (timestamp : UInt64) (r : Credential) :
      Edits (.setSigningKey port2 secret timestamp) (some r) (some { r with secret := secret, timestamp := timestamp })

def Needs : Request → Option Bytes → Prop
  | add .., stored => stored = none
  | _, stored => ∃ data, stored = some data ∧ IsRecord data

def refusal (port2 : Int32) : Request → StoreError
  | add .. => .alreadyExists port2
  | _ => .notFound port2

structure EditsOne (request : Request) (port2 : Int32) (e : Entries) : Prop where
  done : request.Needs (e.get? (portKey port2)) → ∃ r after, request.perform e = (.ok (.record r), after) ∧
    request.Edits (e.fetch? port2) (after.fetch? port2) ∧ ∀ key, key ≠ portKey port2 → after.get? key = e.get? key
  refused : ¬request.Needs (e.get? (portKey port2)) → request.perform e = (.error (request.refusal port2), e)

open Entries

/-! ## Adding and removing -/

theorem editsOne_add (port1 port2 : Int32) (name passphrase : String) (e : Entries) :
    (add port1 port2 name passphrase).EditsOne port2 e where
  done := by
    intro hneeds
    have hnone : e.get? (portKey port2) = none := hneeds
    have hbefore : e.fetch? port2 = none := by rw [fetch?, hnone]; rfl
    refine ⟨_, _, by rw [perform, create, withPassphrase, hnone]; rfl, ?_, ?_⟩
    · rw [hbefore, fetch?_save rfl, stored_eq]
      exact .add port1 port2 name passphrase
    · intro key hkey
      rw [save, get?_put, if_neg hkey.symm]
  refused := by
    intro hsome
    obtain ⟨data, hdata⟩ := Option.ne_none_iff_exists'.mp hsome
    rw [perform, create, withPassphrase, hdata]
    rfl

theorem editsOne_remove (port2 : Int32) (e : Entries) : (remove port2).EditsOne port2 e where
  done := by
    intro hneeds
    obtain ⟨r, hr⟩ := isRecord_iff_fetch?.mp hneeds
    refine ⟨r, e.erase (portKey port2), by rw [perform, Entries.remove, hr]; rfl, ?_, ?_⟩
    · have hafter : (e.erase (portKey port2)).fetch? port2 = none := by rw [fetch?, get?_erase, if_pos rfl]; rfl
      rw [hr, hafter]
      exact .remove port2 r
    · intro key hkey
      rw [get?_erase, if_neg hkey]
  refused := by
    intro hneeds
    cases hr : e.fetch? port2 with
    | some r => exact absurd (isRecord_iff_fetch?.mpr ⟨r, hr⟩) hneeds
    | none =>
      rw [perform, Entries.remove, hr]
      rfl

/-! ## Changing -/

structure Revises (request : Request) (port2 : Int32) (change : Credential → Credential) : Prop where
  needs : ∀ stored, request.Needs stored ↔ ∃ data, stored = some data ∧ IsRecord data
  refusal : request.refusal port2 = .notFound port2
  port2 : ∀ r, (change r).port2 = r.port2
  magic : ∀ r, (change r).magic = r.magic

variable {request : Request} {port2 : Int32} {change : Credential → Credential}

theorem Updates.editsOne (hupdates : request.Updates port2 change) (h : request.Revises port2 change)
    (hedits : ∀ r, r.stored = r → request.Edits (some r) (some (change r).stored)) (e : Entries) :
    request.EditsOne port2 e where
  done := by
    intro hneeds
    obtain ⟨r, hr⟩ := isRecord_iff_fetch?.mp ((h.needs _).mp hneeds)
    obtain ⟨hport, hvalid, hstored⟩ := of_fetch? hr
    have hport' : (change r).port2 = port2 := (h.port2 r).trans hport
    refine ⟨change r, e.save (change r), by rw [hupdates, update, hr]; rfl, ?_, ?_⟩
    · have hafter := fetch?_save ((h.magic r).trans hvalid) e
      rw [hport'] at hafter
      rw [hr, hafter]
      exact hedits r hstored
    · intro key hkey
      rw [save, get?_put, hport', if_neg hkey.symm]
  refused := by
    intro hneeds
    cases hr : e.fetch? port2 with
    | some r => exact absurd ((h.needs _).mpr (isRecord_iff_fetch?.mpr ⟨r, hr⟩)) hneeds
    | none =>
      rw [hupdates, update, hr, h.refusal]
      rfl

/-- A name that is not changed has been cut before, so it comes back as it is. -/
theorem Updates.editsOne_of_name (hupdates : request.Updates port2 change) (h : request.Revises port2 change)
    (hname : ∀ r, (change r).name = r.name) (hedits : ∀ r, request.Edits (some r) (some (change r))) (e : Entries) :
    request.EditsOne port2 e := by
  apply hupdates.editsOne h
  intro r hstored
  rw [stored_of_name hstored (hname r)]
  exact hedits r

/-- Whatever a store holds, a request about one port edits what stands there as it says, or is refused. -/
theorem edits_one_record (h : request.target? = some port2) (e : Entries) : request.EditsOne port2 e := by
  cases request with
  | get | list | convertLegacy => cases h
  | add port1 _ name passphrase =>
    cases h
    exact editsOne_add port1 _ name passphrase e
  | remove =>
    cases h
    exact editsOne_remove _ e
  | setName _ name =>
    cases h
    refine Updates.editsOne (fun _ => rfl) ?_ ?_ e
    · exact ⟨fun _ => Iff.rfl, rfl, fun _ => rfl, fun _ => rfl⟩
    · intro r _
      rw [stored_eq]
      exact .setName _ name r
  | setPassphrase | setPort1 | resetTimestamp | recordSession | advanceTimestamp | setSigningKey =>
    cases h
    refine Updates.editsOne_of_name (fun _ => rfl) ?_ ?_ ?_ e
    · exact ⟨fun _ => Iff.rfl, rfl, fun _ => rfl, fun _ => rfl⟩
    · intro r
      rfl
    · intro r
      constructor

/-- A record whose tally is full and whose name field holds a byte that fits nowhere and a letter behind a zero. -/
def raggedRecord : Credential := { port2 := 14553, port1 := 14552, count1 := 0xFFFFFFFF, name := "ab" }

def raggedValue : Bytes := raggedRecord.pack.take 64 ++ Bytes.fit 32 [0x61, 0xFF, 0x62, 0, 0x63]

def raggedEntries : Entries := .ofList [(portKey 10, [1, 2, 3]), (portKey 14553, raggedValue), ([7], [8])]

theorem edits_one_record_ragged :
    (recordSession 14553 1 0 true).target? = some 14553 ∧ raggedValue ≠ raggedRecord.pack ∧
      ∃ r after, (recordSession 14553 1 0 true).perform raggedEntries = (.ok (.record r), after) ∧
        raggedEntries.fetch? 14553 = some raggedRecord ∧
        after.fetch? 14553 = some { raggedRecord with count1 := 0, connections := 1 } ∧
        after.get? (portKey 10) = some [1, 2, 3] ∧ after.get? [7] = some [8] := by
  have hneeds : (recordSession 14553 1 0 true).Needs (raggedEntries.get? (portKey 14553)) :=
    ⟨raggedValue, by decide +kernel, by decide +kernel, by decide +kernel⟩
  have hfetch : raggedEntries.fetch? 14553 = some raggedRecord := by decide +kernel
  obtain ⟨r, after, hperform, hedits, hothers⟩ :=
    (@edits_one_record (recordSession 14553 1 0 true) 14553 rfl raggedEntries).done hneeds
  have hafter : after.fetch? 14553 = some { raggedRecord with count1 := 0, connections := 1 } := by
    rw [hfetch] at hedits
    generalize after.fetch? 14553 = found at hedits
    cases hedits
    rfl
  refine ⟨rfl, by decide +kernel, r, after, hperform, hfetch, hafter, ?_, ?_⟩
  · exact (hothers _ (by decide +kernel)).trans (by decide +kernel)
  · exact (hothers _ (by decide +kernel)).trans (by decide +kernel)

end Request

end GatedRelay
