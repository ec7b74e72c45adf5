import GatedRelay.Proofs.Frame.Requests
import GatedRelay.Proofs.Pair.Reach
import GatedRelay.Proofs.Pair.Writing
import GatedRelay.Proofs.Slot.Outbox

/-!
# Replacing the key is all or nothing

A good rotation request goes no further than the pair, which answers nobody.  If the store takes the new secret, the
record, the key and the gates of all engineers change together; if it does not, the record and the secret stay and no
gate forgets anything.
-/

set_option autoImplicit false

namespace GatedRelay.Pair

/-- The record, the key and the gates have been replaced together, and nothing else about the slots has changed. -/
structure Replaced (p q : Pair) (request : SetupSigning) : Prop where
  record : ∃ r, p.store.database.entries.fetch? p.recordPort = some r ∧
    q.store.database.entries.fetch? p.recordPort =
      some { r with secret := request.secret, timestamp := request.initialTimestamp }
  key : ∃ k, q.key = some k ∧ k.secret = request.secret ∧
    min (request.initialTimestamp.toNat + 1_500_000) (UInt64.size - 1) ≤ k.clock.toNat
  gates : ∀ s ∈ q.slots.slots, s.role = .engineer → s.gate = .new
  slots : q.slots.slots.map (fun s => { s with gate := .new }) = p.slots.slots.map fun s => { s with gate := .new }

/-- The record and the secret have stayed, and no gate has changed but the one that has checked the request. -/
structure Unreplaced (p q : Pair) (id : SlotId) (checked : Gate) : Prop where
  store : q.store = p.store
  secret : q.key.map (·.secret) = p.key.map (·.secret)
  slots : q.slots = p.slots.modify id fun s => { s with gate := checked }

theorem clock_rotated (secret : Secret) (stored clock : UInt64) :
    min (stored.toNat + 1_500_000) (UInt64.size - 1) ≤ ((SigningKey.load secret stored).observe clock).clock.toNat := by
  rw [SigningKey.clock_observe, SigningKey.load, Clock.toNat_add]
  exact Nat.le_max_left _ _

theorem slots_modify (t : SlotTable) (id : SlotId) (gate : Gate) :
    (t.modify id fun s => { s with gate := gate }).slots.map (fun s => { s with gate := .new }) =
      t.slots.map fun s => { s with gate := .new } := by
  rw [SlotTable.modify, List.map_map]
  apply List.map_congr_left
  intro s _
  by_cases h : s.id = id <;> simp [h]

theorem slots_resetGates (t : SlotTable) :
    t.resetGates.slots.map (fun s => { s with gate := .new }) = t.slots.map fun s => { s with gate := .new } := by
  rw [SlotTable.resetGates, List.map_map]
  apply List.map_congr_left
  intro s _
  by_cases h : s.role = .engineer <;> simp [h]

theorem rotateKey_of_canChange {p : Pair} (h : p.store.CanChange p.recordPort) (m : Moment)
    (request : SetupSigning) :
    p.rotateKey m request = { p with
      store := p.store.post (.setSigningKey p.recordPort request.secret request.initialTimestamp)
      key := some ((SigningKey.load request.secret request.initialTimestamp).observe m.clock)
      savedClock := request.initialTimestamp
      slots := p.slots.resetGates
      history := .logged .keyReplaced :: p.history } := by
  obtain ⟨r, hr⟩ := Option.isSome_iff_exists.mp h.stored
  have hupdates := updates_setSigningKey p.recordPort request.secret request.initialTimestamp
  rw [rotateKey, Service.post, Service.write_of_canChange h hupdates hr]
  rfl

theorem replaced_rotateKey {p : Pair} (h : p.store.CanChange p.recordPort) (m : Moment) (request : SetupSigning) :
    (p.rotateKey m request).history = .logged .keyReplaced :: p.history ∧
      Replaced p (p.rotateKey m request) request := by
  obtain ⟨r, hr⟩ := Option.isSome_iff_exists.mp h.stored
  have hupdates := updates_setSigningKey p.recordPort request.secret request.initialTimestamp
  have hfetch := (Service.post_of_canChange h hupdates hr rfl rfl rfl).2
  rw [rotateKey_of_canChange h]
  refine ⟨rfl, ⟨r, hr, hfetch⟩, ⟨_, rfl, rfl, clock_rotated _ _ _⟩, ?_, slots_resetGates p.slots⟩
  intro s hs hrole
  obtain ⟨_, _, _, hnew⟩ := mem_resetGates hs
  exact hnew hrole

theorem rotateKey_of_not_canChange {p : Pair} (h : ¬p.store.CanChange p.recordPort) (m : Moment)
    (request : SetupSigning) : p.rotateKey m request = p.log .keyNotStored := by
  have hupdates := updates_setSigningKey p.recordPort request.secret request.initialTimestamp
  obtain ⟨_, heq⟩ := Service.write_of_not_canChange h hupdates
  rw [rotateKey, heq]

/-- A good request has been checked and the clock has been written; what remains is to carry the request out. -/
structure Accepted (p c : Pair) (id : SlotId) (checked : Gate) : Prop where
  port : c.recordPort = p.recordPort
  slots : c.slots = p.slots.modify id fun s => { s with gate := checked }
  secret : c.key.map (·.secret) = p.key.map (·.secret)
  history : ∃ es, c.history = es ++ p.history ∧ ∀ e ∈ es, ∃ entry, e = .logged entry ∧ entry ≠ .keyReplaced
  writes : p.store.CanChange p.recordPort → c.store.CanChange p.recordPort ∧
    ∃ r timestamp, p.store.database.entries.fetch? p.recordPort = some r ∧
      c.store.database.entries.fetch? p.recordPort = some { r with timestamp := timestamp }
  stays : ¬p.store.CanChange p.recordPort → c.store = p.store

theorem accepted_of_good {p : Pair} {id : SlotId} {s : Slot} (hs : p.slots.find? id = some s) (m : Moment) {f : Frame}
    (hgood : (s.gate.judge f p.key).1.isGood = true) (hsetup : f.msgId = MessageId.setupSigning) :
    ∃ c, Accepted p c id (s.gate.check f p.key).1 ∧
      p.fromEngineer m id f = c.rotateKey m (SetupSigning.ofPayload f.payload) := by
  obtain ⟨k, hk, _⟩ := Gate.signedUnder_of_judge hgood
  obtain ⟨t, ht⟩ := Verdict.isGood_iff.mp hgood
  obtain ⟨es, hes, heq⟩ := fromEngineer_of_good hs m hk ht
  rw [if_pos hsetup] at heq
  let checked := p.enterGood id (s.gate.check f p.key).1 (k.observe t.toClock) es
  obtain ⟨store, clock, past, hsave, _⟩ := checked.booked_saveClock
  obtain ⟨es', hes', hhistory⟩ := checked.history_saveClock
  refine ⟨checked.saveClock, ⟨?_, ?_, ?_, ?_, fun hcan => ?_,
    fun h => store_saveClock_of_not_canChange (p := checked) h⟩, heq⟩
  · rw [hsave]
    rfl
  · rw [hsave]
    rfl
  · rw [hsave, hk]
    rfl
  · refine ⟨es' ++ es, hhistory.trans (List.append_assoc _ _ _).symm, ?_⟩
    intro e he
    rcases List.mem_append.mp he with he | he
    · exact ⟨.writeDropped, hes' e he, by simp⟩
    · exact ⟨.goodSignature, hes e he, by simp⟩
  · obtain ⟨r, hr⟩ := Option.isSome_iff_exists.mp hcan.stored
    obtain ⟨hcan', timestamp, hfetch⟩ := retimed_saveClock (p := checked) hcan rfl hr
    exact ⟨hcan', r, timestamp, hr, hfetch⟩

theorem Accepted.outgo {p c : Pair} {id : SlotId} {checked : Gate} (hc : Accepted p c id checked) {m : Moment}
    {f : Frame} {request : SetupSigning} (heq : p.fromEngineer m id f = c.rotateKey m request) {entry : LogEntry}
    (hentry : (c.rotateKey m request).history = .logged entry :: c.history) :
    ∃ es, p.outgo (m, .engineerFrame id f) = es ++ [.logged entry] ∧
      ∀ e ∈ es, ∃ entry', e = .logged entry' ∧ entry' ≠ .keyReplaced := by
  obtain ⟨es, hhistory, hes⟩ := hc.history
  have hact : (p.act (m, .engineerFrame id f)).history = (.logged entry :: es) ++ p.history := by
    rw [act_engineerFrame, heq, hentry, hhistory, List.cons_append]
  refine ⟨es.reverse, ?_, fun e he => hes e (List.mem_reverse.mp he)⟩
  rw [Pair.outgo, effectsSince_of_append hact, List.reverse_cons]

/-- Of a good rotation request nothing is sent to anybody. -/
theorem logged_of_good_request {p : Pair} {id : SlotId} {s : Slot} (hs : p.slots.find? id = some s) (m : Moment)
    {f : Frame} (hgood : (s.gate.judge f p.key).1.isGood = true) (hsetup : f.msgId = MessageId.setupSigning) :
    ∀ e ∈ p.outgo (m, .engineerFrame id f), ∃ entry, e = .logged entry := by
  obtain ⟨c, hc, heq⟩ := accepted_of_good hs m hgood hsetup
  have hentry : ∃ entry, (c.rotateKey m (SetupSigning.ofPayload f.payload)).history = .logged entry :: c.history := by
    rcases c.rotateKey_cases m (SetupSigning.ofPayload f.payload) with ⟨_, hrotate⟩ | ⟨_, hrotate⟩
    · exact ⟨.keyNotStored, by rw [hrotate]⟩
    · exact ⟨.keyReplaced, by rw [hrotate]⟩
  obtain ⟨entry, hentry⟩ := hentry
  obtain ⟨es, hout, hes⟩ := hc.outgo heq hentry
  intro e he
  rw [hout, List.mem_append, List.mem_singleton] at he
  rcases he with he | rfl
  · obtain ⟨entry', he', _⟩ := hes e he
    exact ⟨entry', he'⟩
  · exact ⟨entry, rfl⟩

theorem Accepted.replaced {p c : Pair} {id : SlotId} {checked : Gate} (hc : Accepted p c id checked) {m : Moment}
    {f : Frame} {request : SetupSigning} (heq : p.fromEngineer m id f = c.rotateKey m request)
    (hcan : p.store.CanChange p.recordPort) :
    p.Rotates (m, .engineerFrame id f) ∧ Replaced p (p.act (m, .engineerFrame id f)) request := by
  obtain ⟨hcan', r, timestamp, hr, hr'⟩ := hc.writes hcan
  rw [← hc.port] at hcan'
  obtain ⟨hentry, hreplaced⟩ := replaced_rotateKey hcan' m request
  obtain ⟨es, hout, _⟩ := hc.outgo heq hentry
  obtain ⟨r', hbefore, hafter⟩ := hreplaced.record
  -- The record that the new secret goes into differs from the first one in the timestamp, which is replaced as well.
  rw [hc.port, hr'] at hbefore
  obtain rfl := Option.some.inj hbefore
  rw [hc.port] at hafter
  constructor
  · rw [Rotates, hout]
    exact List.mem_append_right es List.mem_cons_self
  · rw [act_engineerFrame, heq]
    refine ⟨⟨r, hr, hafter⟩, hreplaced.key, hreplaced.gates, ?_⟩
    rw [hreplaced.slots, hc.slots, slots_modify]

theorem Accepted.unreplaced {p c : Pair} {id : SlotId} {checked : Gate} (hc : Accepted p c id checked) {m : Moment}
    {f : Frame} {request : SetupSigning} (heq : p.fromEngineer m id f = c.rotateKey m request)
    (hcannot : ¬p.store.CanChange p.recordPort) :
    ¬p.Rotates (m, .engineerFrame id f) ∧ Unreplaced p (p.act (m, .engineerFrame id f)) id checked := by
  have hstore := hc.stays hcannot
  have hcannot' : ¬c.store.CanChange c.recordPort := by rwa [hc.port, hstore]
  have hrotate := rotateKey_of_not_canChange hcannot' m request
  have hentry : (c.rotateKey m request).history = .logged .keyNotStored :: c.history := by
    rw [hrotate]
    rfl
  obtain ⟨es, hout, hes⟩ := hc.outgo heq hentry
  constructor
  · rw [Rotates, hout, List.mem_append, List.mem_singleton]
    rintro (hmem | hmem)
    · obtain ⟨_, hentry, hne⟩ := hes _ hmem
      cases hentry
      exact hne rfl
    · cases hmem
  · rw [act_engineerFrame, heq, hrotate]
    exact ⟨hstore, hc.secret, hc.slots⟩

/-- A good rotation request is forwarded to nobody and leaves all outboxes alone, and it changes everything that it
should or nothing.  What is stored and used comes from the bytes of its payload. -/
theorem replaced_or_unreplaced {p : Pair} {id : SlotId} {s : Slot} (hs : p.slots.find? id = some s) (m : Moment)
    {f : Frame} (hgood : (s.gate.judge f p.key).1.isGood = true) (hsetup : f.msgId = MessageId.setupSigning) :
    ∃ request : SetupSigning, request.HeldIn f.payload ∧
    (∀ e ∈ p.outgo (m, .engineerFrame id f), ∃ entry, e = .logged entry) ∧
    (∀ capacity (o : Outboxes), o.applyEach capacity (p.outgo (m, .engineerFrame id f)) = o) ∧
    (p.store.CanChange p.recordPort → p.Rotates (m, .engineerFrame id f) ∧
      Replaced p (p.act (m, .engineerFrame id f)) request) ∧
    (¬p.store.CanChange p.recordPort → ¬p.Rotates (m, .engineerFrame id f) ∧
      Unreplaced p (p.act (m, .engineerFrame id f)) id (s.gate.check f p.key).1) := by
  have hlogged := logged_of_good_request hs m hgood hsetup
  obtain ⟨c, hc, heq⟩ := accepted_of_good hs m hgood hsetup
  refine ⟨SetupSigning.ofPayload f.payload, SetupSigning.heldIn_ofPayload f.payload, hlogged,
    Outboxes.applyEach_logged hlogged, ?_, ?_⟩
  · exact fun hcan => hc.replaced heq hcan
  · exact fun hcannot => hc.unreplaced heq hcannot

/-! ## A request under an empty secret -/

def oldKey : SigningKey := ⟨Block.zero 32, 0⟩

def rotationRequest : Frame :=
  (⟨MessageId.setupSigning, 0, 1, 1, SetupSigning.payload ⟨7, 0, 0, Block.ofBytes 32 [1]⟩⟩ : Message).frame 71
    (by rw [SetupSigning.length_payload]; decide) (by decide) rfl

/-- The request at the time 0, signed with the key that it replaces. -/
def signedRequest : Frame := rotationRequest.sign rfl ⟨oldKey.secret, 1, 0⟩

theorem fresh_signed {f : Frame} (hversion : f.version = .v2) {k : SigningKey} (hsecret : k.secret = oldKey.secret)
    (hclock : k.clock.toNat ≤ 6_000_000) : Gate.Fresh (f.sign hversion ⟨oldKey.secret, 1, 0⟩) (some k) := by
  refine ⟨k, _, rfl, rfl, ?_, Nat.le_trans hclock (Nat.le_add_left _ _)⟩
  rw [hsecret]
  exact f.verifies_sign hversion ⟨oldKey.secret, 1, 0⟩

def Setup.stored (key : Option SigningKey) : Setup :=
  { Setup.offline key with store := { database := { entries := Entries.empty.save { port2 := 2 } } } }

def storedSlot : Slot := ⟨1, .engineer, .tcp, "engineer", .active, .new, 1, 1, none⟩

/-- A pair with the key `oldKey` and an engineer that has sent something. -/
def storedPair : Pair := { (Setup.stored (some oldKey)).pair with slots := ⟨1, .rejectNew, [storedSlot], 2⟩ }

/-- The secret and the timestamp that are sent stand in the record afterwards, and the key signs with that secret. -/
theorem replaced_signedRequest :
    signedRequest.payload = [7, 0, 0, 0, 0, 0, 0, 0, 0, 0, 1] ∧
      SetupSigning.HeldIn ⟨7, 0, 0, Block.ofBytes 32 [1]⟩ signedRequest.payload ∧
      (storedSlot.gate.judge signedRequest storedPair.key).1.isGood = true ∧
      storedPair.Rotates (⟨1, 0⟩, .engineerFrame 1 signedRequest) ∧
      (storedPair.act (⟨1, 0⟩, .engineerFrame 1 signedRequest)).store.database.entries.fetch? 2 =
        some { port2 := 2, secret := Block.ofBytes 32 [1], timestamp := 7 } ∧
      ∃ k, (storedPair.act (⟨1, 0⟩, .engineerFrame 1 signedRequest)).key = some k ∧
        k.secret = Block.ofBytes 32 [1] ∧ 1_500_007 ≤ k.clock.toNat := by
  have hgood : (storedSlot.gate.judge signedRequest storedPair.key).1.isGood = true := by
    apply (Gate.coherent_new.judge_isGood_iff (by decide) _ _).mpr
    exact fresh_signed rfl rfl (by decide)
  have hfetch : storedPair.store.database.entries.fetch? 2 = some { port2 := 2 } := Entries.fetch?_save rfl .empty
  have hcan : storedPair.store.CanChange storedPair.recordPort :=
    ⟨rfl, rfl, Option.isSome_iff_exists.mpr ⟨_, hfetch⟩⟩
  have hfind : storedPair.slots.find? 1 = some storedSlot := rfl
  obtain ⟨request, hheld, _, _, hreplaces, _⟩ := replaced_or_unreplaced hfind ⟨1, 0⟩ hgood rfl
  obtain ⟨hrotates, hreplaced⟩ := hreplaces hcan
  obtain rfl : request = ⟨7, 0, 0, Block.ofBytes 32 [1]⟩ := hheld.eq_ofPayload.trans (by decide)
  obtain ⟨r, hr, hrecord⟩ := hreplaced.record
  obtain ⟨k, hk, hsecret, hclock⟩ := hreplaced.key
  obtain rfl := Option.some.inj (hfetch.symm.trans hr)
  exact ⟨by decide, hheld, hgood, hrotates, hrecord, k, hk, hsecret, Nat.le_trans (by decide) hclock⟩

end GatedRelay.Pair
