import GatedRelay.Proofs.Pair.Operations

/-!
# What checking a frame does not look at

To act on a frame of an engineer a pair reads the gate and the last notice of the engineer's slot, and whether the user's
slot is open.  Two pairs whose slot tables agree in this act on the frame in the same way, as far as the difference of
the tables outlasts what a check does to them.  The effects of the past are never read.
-/

set_option autoImplicit false

namespace GatedRelay

/-- Differences of two slot tables, and of two pasts, to which the frames of engineers are blind. -/
structure Unseen (R : SlotTable → SlotTable → Prop) (H : List Effect → List Effect → Prop) : Prop where
  find? {t t' : SlotTable} (h : R t t') (id : SlotId) :
    (t'.find? id).map (fun s => (s.id, s.gate, s.lastNotice)) = (t.find? id).map fun s => (s.id, s.gate, s.lastNotice)
  user? {t t' : SlotTable} (h : R t t') :
    t'.user?.map (fun user => (user.id, user.isOpen)) = t.user?.map fun user => (user.id, user.isOpen)
  gate {t t' : SlotTable} (h : R t t') (id : SlotId) (gate : Gate) :
    R (t.modify id fun s => { s with gate := gate }) (t'.modify id fun s => { s with gate := gate })
  notice {t t' : SlotTable} (h : R t t') (id : SlotId) (now : Nat) :
    R (t.modify id (·.markNotice now)) (t'.modify id (·.markNotice now))
  reset {t t' : SlotTable} (h : R t t') : R t.resetGates t'.resetGates
  cons {es es' : List Effect} (h : H es es') (e : Effect) : H (e :: es) (e :: es')

namespace Pair

/-- The second pair is the first with another table and another past. -/
def DiffersBy (R : SlotTable → SlotTable → Prop) (H : List Effect → List Effect → Prop) (p q : Pair) : Prop :=
  ∃ t past, q = { p with slots := t, history := past } ∧ R p.slots t ∧ H p.history past

variable {R : SlotTable → SlotTable → Prop} {H : List Effect → List Effect → Prop} {p q : Pair}

section Fields

variable (h : DiffersBy R H p q)

include h

theorem DiffersBy.slots : R p.slots q.slots := by
  obtain ⟨_, _, rfl, hslots, _⟩ := h
  exact hslots

theorem DiffersBy.history : H p.history q.history := by
  obtain ⟨_, _, rfl, _, hpast⟩ := h
  exact hpast

theorem DiffersBy.key : q.key = p.key := by
  obtain ⟨_, _, rfl, _, _⟩ := h
  rfl

theorem DiffersBy.store : q.store = p.store := by
  obtain ⟨_, _, rfl, _, _⟩ := h
  rfl

theorem DiffersBy.savedClock : q.savedClock = p.savedClock := by
  obtain ⟨_, _, rfl, _, _⟩ := h
  rfl

theorem DiffersBy.recordPort : q.recordPort = p.recordPort := by
  obtain ⟨_, _, rfl, _, _⟩ := h
  rfl

theorem DiffersBy.refused : q.refused = p.refused := by
  obtain ⟨_, _, rfl, _, _⟩ := h
  rfl

theorem DiffersBy.idleTimeout : q.idleTimeout = p.idleTimeout := by
  obtain ⟨_, _, rfl, _, _⟩ := h
  rfl

theorem DiffersBy.live : q.live = p.live := by
  obtain ⟨_, _, rfl, _, _⟩ := h
  rfl

theorem DiffersBy.withSlots {t t' : SlotTable} (ht : R t t') :
    DiffersBy R H { p with slots := t } { q with slots := t' } := by
  obtain ⟨_, past, rfl, _, hpast⟩ := h
  exact ⟨t', past, rfl, ht, hpast⟩

theorem DiffersBy.withKey (key : Option SigningKey) : DiffersBy R H { p with key := key } { q with key := key } := by
  obtain ⟨t, past, rfl, hslots, hpast⟩ := h
  exact ⟨t, past, rfl, hslots, hpast⟩

theorem DiffersBy.withStore (store : Service) :
    DiffersBy R H { p with store := store } { q with store := store } := by
  obtain ⟨t, past, rfl, hslots, hpast⟩ := h
  exact ⟨t, past, rfl, hslots, hpast⟩

theorem DiffersBy.withSavedClock (clock : UInt64) :
    DiffersBy R H { p with savedClock := clock } { q with savedClock := clock } := by
  obtain ⟨t, past, rfl, hslots, hpast⟩ := h
  exact ⟨t, past, rfl, hslots, hpast⟩

theorem DiffersBy.withRefused (refused : Recent Peer Unit 256) :
    DiffersBy R H { p with refused := refused } { q with refused := refused } := by
  obtain ⟨t, past, rfl, hslots, hpast⟩ := h
  exact ⟨t, past, rfl, hslots, hpast⟩

theorem DiffersBy.withLive (live : Bool) : DiffersBy R H { p with live := live } { q with live := live } := by
  obtain ⟨t, past, rfl, hslots, hpast⟩ := h
  exact ⟨t, past, rfl, hslots, hpast⟩

end Fields

theorem DiffersBy.fromUser (h : DiffersBy R H p q) (f : Frame)
    (hnone : q.recipients f = [] ↔ p.recipients f = [])
    (hqueued : H (((p.recipients f).map fun s => Effect.queued s.id (outgoing p.key f).2).reverse ++ p.history)
      (((q.recipients f).map fun s => Effect.queued s.id (outgoing p.key f).2).reverse ++ q.history)) :
    DiffersBy R H (p.fromUser f) (q.fromUser f) := by
  obtain ⟨t, past, rfl, hslots, _⟩ := h
  have hsource : (noteSource { p with slots := t, history := past } f).userSource = (p.noteSource f).userSource := by
    unfold noteSource
    split
    · rfl
    · rfl
  simp only [fromUser_eq, hsource, hnone]
  exact ⟨t, _, rfl, hslots, hqueued⟩

section Operations

variable (hR : Unseen R H)

include hR

theorem DiffersBy.emit (h : DiffersBy R H p q) (e : Effect) : DiffersBy R H (p.emit e) (q.emit e) := by
  obtain ⟨t, past, rfl, hslots, hpast⟩ := h
  exact ⟨t, e :: past, rfl, hslots, hR.cons hpast e⟩

theorem DiffersBy.log (h : DiffersBy R H p q) (entry : LogEntry) : DiffersBy R H (p.log entry) (q.log entry) :=
  h.emit hR (.logged entry)

theorem DiffersBy.post (h : DiffersBy R H p q) (request : Request) :
    DiffersBy R H (p.post request) (q.post request) := by
  unfold Pair.post
  rw [h.store]
  split
  · exact h.withStore _
  · exact h.log hR _

theorem DiffersBy.saveClock (h : DiffersBy R H p q) : DiffersBy R H p.saveClock q.saveClock := by
  unfold Pair.saveClock
  rw [h.key, h.savedClock, h.recordPort]
  split
  · exact h
  · split
    · exact h
    · exact (h.post hR _).withSavedClock _

theorem DiffersBy.reloadKey (h : DiffersBy R H p q) (m : Moment) : DiffersBy R H (p.reloadKey m) (q.reloadKey m) := by
  have hload : q.store.load q.recordPort = p.store.load p.recordPort := by rw [h.store, h.recordPort]
  unfold Pair.reloadKey
  rw [hload, h.key]
  split
  · exact h.log hR _
  · exact h.withKey _

theorem DiffersBy.logRefusal (h : DiffersBy R H p q) (refusal : Refusal) (transport : Transport) (peer : Peer) :
    DiffersBy R H (p.logRefusal refusal transport peer) (q.logRefusal refusal transport peer) := by
  unfold Pair.logRefusal
  rw [h.refused]
  split
  · exact h
  · exact h.log hR _

theorem DiffersBy.logConnected (h : DiffersBy R H p q) (role : Role) (transport : Transport) (peer : Peer) :
    DiffersBy R H (p.logConnected role transport peer) (q.logConnected role transport peer) := by
  unfold Pair.logConnected
  split
  · exact h
  · exact h.log hR _

theorem DiffersBy.forward (h : DiffersBy R H p q) (f : Frame) : DiffersBy R H (p.forward f) (q.forward f) := by
  have huser := hR.user? h.slots
  cases hp : p.slots.user? with
  | none =>
    have hq : q.slots.user? = none := by simpa [hp] using huser
    simp only [Pair.forward, hp, hq]
    exact h
  | some user =>
    rw [hp, Option.map_some, Option.map_eq_some_iff] at huser
    obtain ⟨user', hq, hsame⟩ := huser
    obtain ⟨hid, hopen⟩ := Prod.mk.inj hsame
    simp only [Pair.forward, hp, hq, hid, hopen]
    split
    · exact h.emit hR _
    · exact h

theorem DiffersBy.rotateKey (h : DiffersBy R H p q) (m : Moment) (request : SetupSigning) :
    DiffersBy R H (p.rotateKey m request) (q.rotateKey m request) := by
  unfold Pair.rotateKey
  rw [h.store, h.recordPort]
  split
  · exact (h.withStore _).log hR _
  · rename_i store _
    have hkey := (h.withStore store).withKey
      (some ((SigningKey.load request.secret request.initialTimestamp).observe m.clock))
    exact ((hkey.withSavedClock request.initialTimestamp).withSlots (hR.reset h.slots)).log hR .keyReplaced

theorem DiffersBy.sendNotice (h : DiffersBy R H p q) (m : Moment) (id : SlotId) (verdict : Verdict) :
    DiffersBy R H (p.sendNotice m id verdict) (q.sendNotice m id verdict) := by
  obtain ⟨t, past, rfl, hslots, hpast⟩ := h
  exact ⟨_, _, rfl, hR.notice hslots id m.now, hR.cons hpast _⟩

theorem DiffersBy.report (h : DiffersBy R H p q) (m : Moment) {s s' : Slot} (hid : s'.id = s.id)
    (hnotice : s'.lastNotice = s.lastNotice) (o : Outcome) : DiffersBy R H (p.report m s o) (q.report m s' o) := by
  have hdue : s'.noticeDue m.now noticeInterval = s.noticeDue m.now noticeInterval := by
    rw [Slot.noticeDue, Slot.noticeDue, hnotice]
  have hgood : DiffersBy R H
      (if o.trustChanged ∧ o.trust = .authenticated then p.log .goodSignature else p)
      (if o.trustChanged ∧ o.trust = .authenticated then q.log .goodSignature else q) := by
    split
    · exact h.log hR _
    · exact h
  have hproblem {p q : Pair} (h : DiffersBy R H p q) : DiffersBy R H
      (if o.announce then p.log (.problem o.verdict) else p) (if o.announce then q.log (.problem o.verdict) else q) := by
    split
    · exact h.log hR _
    · exact h
  unfold Pair.report
  simp only [hid, hdue]
  split
  · exact (hproblem hgood).sendNotice hR m s.id o.verdict
  · exact hproblem hgood

theorem DiffersBy.dispatch (h : DiffersBy R H p q) (m : Moment) (f : Frame) (verdict : Verdict) :
    DiffersBy R H (p.dispatch m f verdict) (q.dispatch m f verdict) := by
  unfold Pair.dispatch
  split
  · simp only
    split
    · exact (h.saveClock hR).rotateKey hR m _
    · exact (h.saveClock hR).forward hR f
  · exact h.forward hR f

theorem DiffersBy.fromEngineer (h : DiffersBy R H p q) (m : Moment) (id : SlotId) (f : Frame) :
    DiffersBy R H (p.fromEngineer m id f) (q.fromEngineer m id f) := by
  have hface := hR.find? h.slots id
  cases hs : p.slots.find? id with
  | none =>
    have hs' : q.slots.find? id = none := by simpa [hs] using hface
    simp only [Pair.fromEngineer, hs, hs']
    exact h
  | some s =>
    rw [hs, Option.map_some, Option.map_eq_some_iff] at hface
    obtain ⟨s', hs', hsame⟩ := hface
    obtain ⟨hid, hrest⟩ := Prod.mk.inj hsame
    obtain ⟨hgate, hnotice⟩ := Prod.mk.inj hrest
    have hchecked := (h.withKey (s.gate.check f p.key).2.1).withSlots (hR.gate h.slots id (s.gate.check f p.key).1)
    simp only [Pair.fromEngineer, hs, hs', hgate, h.key]
    exact (hchecked.report hR m hid hnotice _).dispatch hR m f _

theorem DiffersBy.fromEngineers (h : DiffersBy R H p q) (m : Moment) (id : SlotId) (frames : List Frame) :
    DiffersBy R H (frames.foldl (fun p f => p.fromEngineer m id f) p)
      (frames.foldl (fun p f => p.fromEngineer m id f) q) := by
  induction frames generalizing p q with
  | nil => exact h
  | cons f rest ih => exact ih (h.fromEngineer hR m id f)

end Operations

end Pair

end GatedRelay
