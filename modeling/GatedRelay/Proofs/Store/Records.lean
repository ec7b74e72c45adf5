import GatedRelay.Proofs.Record.Codec
import GatedRelay.Store.Service

/-!
# Changing a stored record

A record that is changed under its port, in a field or two, is found there as changed.  A write needs a service that
runs, a database without an open transaction and, if it changes a record, the record; a write that fails changes
nothing.
-/

set_option autoImplicit false

namespace GatedRelay

namespace Entries

theorem find?_putPair (k v k' : Bytes) (l : List (Bytes × Bytes)) :
    (putPair k v l).find? (·.1 = k') = if k = k' then some (k, v) else l.find? (·.1 = k') := by
  induction l with
  | nil => by_cases h : k = k' <;> simp [putPair, h]
  | cons p rest ih =>
    unfold putPair
    split
    · by_cases h : k = k' <;> simp [h]
    · split
      · rename_i heq
        by_cases h : k = k'
        · simp [h]
        · simp [h, ← heq]
      · rename_i hne
        by_cases h : p.1 = k'
        · have hk : k ≠ k' := fun hk => hne (hk.trans h.symm)
          simp [h, hk]
        · simp [h, ih]

theorem get?_put (e : Entries) (k v k' : Bytes) : (e.put k v).get? k' = if k = k' then some v else e.get? k' := by
  rw [get?, put, find?_putPair]
  split <;> rfl

theorem fetch?_save {r : Credential} (hmagic : r.magic = recordMagic) (e : Entries) :
    (e.save r).fetch? r.port2 = some r.stored := by
  rw [fetch?, save, get?_put, if_pos rfl, Option.bind_some, Credential.unpack_pack hmagic]
  rfl

theorem of_fetch? {e : Entries} {port2 : Int32} {r : Credential} (h : e.fetch? port2 = some r) :
    r.port2 = port2 ∧ r.magic = recordMagic ∧ r.stored = r := by
  obtain ⟨data, _, hunpack⟩ := Option.bind_eq_some_iff.mp h
  cases hr : Credential.unpack port2 data with
  | error reason =>
    rw [hr] at hunpack
    cases hunpack
  | ok r' =>
    rw [hr] at hunpack
    cases hunpack
    exact Credential.of_unpack hr

theorem fetch?_update {e : Entries} {port2 : Int32} {r r' : Credential} (h : e.fetch? port2 = some r)
    (hport2 : r'.port2 = r.port2) (hmagic : r'.magic = r.magic) (hname : r'.name = r.name) :
    (e.save r').fetch? port2 = some r' := by
  obtain ⟨hport, hvalid, hstored⟩ := of_fetch? h
  have hsaved := fetch?_save (hmagic.trans hvalid) e
  rw [hport2, hport, Credential.stored_of_name hstored hname] at hsaved
  exact hsaved

end Entries

namespace Credential

theorem le_advance (r : Credential) (t : UInt64) : t ≤ (r.advance t).timestamp := by
  rw [advance, UInt64.le_iff_toNat_le, Clock.toNat_later]
  exact Nat.le_max_right _ _

theorem timestamp_le_advance (r : Credential) (t : UInt64) : r.timestamp ≤ (r.advance t).timestamp := by
  rw [advance, UInt64.le_iff_toNat_le, Clock.toNat_later]
  exact Nat.le_max_left _ _

end Credential

/-! ## Writing -/

def Request.Updates (request : Request) (port2 : Int32) (change : Credential → Credential) : Prop :=
  ∀ e, request.perform e = answerOne e (e.update port2 change)

theorem updates_recordSession (port2 : Int32) (count1 count2 : UInt32) (newConnection : Bool) :
    (Request.recordSession port2 count1 count2 newConnection).Updates port2
      (·.addSession count1 count2 newConnection) := fun _ => rfl

theorem updates_advanceTimestamp (port2 : Int32) (timestamp : UInt64) :
    (Request.advanceTimestamp port2 timestamp).Updates port2 (·.advance timestamp) := fun _ => rfl

theorem updates_setSigningKey (port2 : Int32) (secret : Secret) (timestamp : UInt64) :
    (Request.setSigningKey port2 secret timestamp).Updates port2
      (fun r => { r with secret := secret, timestamp := timestamp }) := fun _ => rfl

namespace Database

theorem attempt_of_busy {d : Database} {before : Entries} (h : d.saved = some before) (request : Request) :
    d.attempt request = (.error .transactionActive, d) := by
  rw [attempt, begin, h]

theorem attempt_of_idle {d : Database} (h : d.saved = none) (request : Request) :
    d.attempt request = match request.perform d.entries with
      | (.error e, _) => (.error e, d)
      | (.ok reply, after) => (.ok reply, { entries := after }) := by
  obtain ⟨entries, saved⟩ := d
  subst h
  simp only [attempt, begin]
  rcases request.perform entries with ⟨_ | _, after⟩
  · rfl
  · rfl

theorem saved_attempt {d : Database} (h : d.saved = none) (request : Request) :
    (d.attempt request).2.saved = none := by
  rw [attempt_of_idle h]
  split
  · exact h
  · rfl

end Database

namespace Service

/-- The service can change the record of a port: it runs, has no transaction open, and finds a record there. -/
structure CanChange (s : Service) (port2 : Int32) : Prop where
  running : s.running = true
  idle : s.database.saved = none
  stored : (s.database.entries.fetch? port2).isSome = true

theorem saved_post {s : Service} (h : s.database.saved = none) (request : Request) :
    (s.post request).database.saved = none := by
  unfold post write
  split
  · exact Database.saved_attempt h request
  · exact h

variable {s : Service} {port2 : Int32} {request : Request} {change : Credential → Credential}

theorem write_of_canChange (h : s.CanChange port2) (hrequest : request.Updates port2 change) {r : Credential}
    (hr : s.database.entries.fetch? port2 = some r) :
    s.write request = (.ok (.record (change r)),
      { s with database := { entries := s.database.entries.save (change r) } }) := by
  rw [write, if_pos h.running, Database.attempt_of_idle h.idle, hrequest, Entries.update, hr]
  rfl

theorem write_of_not_canChange (h : ¬s.CanChange port2) (hrequest : request.Updates port2 change) :
    ∃ e, s.write request = (.error e, s) := by
  by_cases hrunning : s.running = true
  · cases hsaved : s.database.saved with
    | some before =>
      refine ⟨.transactionActive, ?_⟩
      rw [write, if_pos hrunning, Database.attempt_of_busy hsaved]
    | none =>
      cases hr : s.database.entries.fetch? port2 with
      | none =>
        refine ⟨.notFound port2, ?_⟩
        rw [write, if_pos hrunning, Database.attempt_of_idle hsaved, hrequest, Entries.update, hr]
        rfl
      | some r => exact absurd ⟨hrunning, hsaved, by rw [hr]; rfl⟩ h
  · exact ⟨.workerGone, by rw [write, if_neg hrunning]⟩

/-- A write that can be done leaves the service as able to write as before, and the record as changed. -/
theorem post_of_canChange (h : s.CanChange port2) (hrequest : request.Updates port2 change) {r : Credential}
    (hr : s.database.entries.fetch? port2 = some r) (hport2 : (change r).port2 = r.port2)
    (hmagic : (change r).magic = r.magic) (hname : (change r).name = r.name) :
    (s.post request).CanChange port2 ∧ (s.post request).database.entries.fetch? port2 = some (change r) := by
  have hfetch := Entries.fetch?_update hr hport2 hmagic hname
  rw [post, write_of_canChange h hrequest hr]
  exact ⟨⟨h.running, rfl, by rw [hfetch]; rfl⟩, hfetch⟩

theorem post_of_not_canChange (h : ¬s.CanChange port2) (hrequest : request.Updates port2 change) :
    s.post request = s := by
  obtain ⟨e, heq⟩ := write_of_not_canChange h hrequest
  rw [post, heq]

end Service

end GatedRelay
