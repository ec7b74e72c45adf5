import GatedRelay.Proofs.Pair.Reach
import GatedRelay.Proofs.Pair.Writing

/-!
# How the key and the record develop

As long as no key is read or replaced, the clock of the key moves forward and is written now and then, and sessions are
added to the record of the pair.  Only the first engineer makes the pair read its key, only a rotation request replaces
it, and only others change anything else that is stored.
-/

set_option autoImplicit false

namespace GatedRelay

namespace SigningKey

theorem le_observe (k : SigningKey) (t : UInt64) : k.clock ≤ (k.observe t).clock := by
  rw [UInt64.le_iff_toNat_le, clock_observe]
  exact Nat.le_max_left _ _

theorem le_sign (k : SigningKey) (f : Frame) : k.clock ≤ (k.sign f).1.clock := Clock.le_add _ _

end SigningKey

namespace Pair

/-- What becomes of the key, of what is stored and of what was written last, as long as no key is read or replaced. -/
inductive Proceeds : Pair → Pair → Prop where
  | same {p q : Pair} (port : q.recordPort = p.recordPort) (key : q.key = p.key) (store : q.store = p.store)
      (saved : q.savedClock = p.savedClock) : Proceeds p q
  | ticked {p : Pair} {k k' : SigningKey} (key : p.key = some k) (secret : k'.secret = k.secret)
      (later : k.clock ≤ k'.clock) : Proceeds p { p with key := some k' }
  | counted (p : Pair) (count1 count2 : UInt32) (newConnection : Bool) :
      Proceeds p { p with store := p.store.post (.recordSession p.recordPort count1 count2 newConnection) }
  | written {p : Pair} {k : SigningKey} (key : p.key = some k) (ahead : p.savedClock < k.clock) :
      Proceeds p { p with store := p.store.post (.advanceTimestamp p.recordPort k.clock), savedClock := k.clock }
  | trans {p q r : Pair} (first : Proceeds p q) (second : Proceeds q r) : Proceeds p r

theorem Proceeds.refl (p : Pair) : p.Proceeds p := .same rfl rfl rfl rfl

/-! ## Accounting -/

theorem proceeds_recordSession (p : Pair) (count1 count2 : UInt32) (newConnection : Bool) :
    p.Proceeds (p.post (.recordSession p.recordPort count1 count2 newConnection)) := by
  obtain ⟨es, _, heq⟩ := p.post_eq (.recordSession p.recordPort count1 count2 newConnection)
  rw [heq]
  exact (Proceeds.counted p count1 count2 newConnection).trans (.same rfl rfl rfl rfl)

theorem proceeds_saveClock (p : Pair) : p.Proceeds p.saveClock := by
  rcases p.saveClock_cases with ⟨heq, _⟩ | ⟨k, es, hk, hahead, _, heq⟩
  · rw [heq]
    exact .refl p
  · rw [heq]
    exact (Proceeds.written hk hahead).trans (.same rfl rfl rfl rfl)

theorem proceeds_finishSlot (p : Pair) (s : Slot) : p.Proceeds (p.finishSlot s) := by
  let logged := (p.emit (.released s.id)).log (.closed s.role s.transport)
  have hlogged : p.Proceeds logged := .same rfl rfl rfl rfl
  unfold finishSlot
  simp only
  split
  · exact hlogged.trans (proceeds_recordSession _ _ _ _)
  · have hcounted := hlogged.trans (logged.proceeds_recordSession 0 s.messages false)
    split
    · exact hcounted.trans (proceeds_saveClock _)
    · exact hcounted

theorem proceeds_closeSlot (p : Pair) (id : SlotId) : p.Proceeds (p.closeSlot id) := by
  unfold closeSlot
  split
  · exact .refl p
  · rename_i slots s _
    have hslots : p.Proceeds { p with slots := slots } := .same rfl rfl rfl rfl
    exact hslots.trans (proceeds_finishSlot _ s)

theorem proceeds_closeSlots (p : Pair) (ids : List SlotId) : p.Proceeds (p.closeSlots ids) := by
  induction ids generalizing p with
  | nil => exact .refl p
  | cons id rest ih => exact (p.proceeds_closeSlot id).trans (ih (p.closeSlot id))

theorem proceeds_finishEach (p : Pair) (closed : List Slot) : p.Proceeds (closed.foldl finishSlot p) := by
  induction closed generalizing p with
  | nil => exact .refl p
  | cons s rest ih => exact (p.proceeds_finishSlot s).trans (ih (p.finishSlot s))

theorem proceeds_shutdown (p : Pair) :
    ∃ finished : Pair, p.Proceeds finished ∧ p.shutdown = { finished.saveClock with live := false } := by
  let emptied : Pair := { p with slots := (p.slots.closeEach p.slots.ids).1 }
  have hemptied : p.Proceeds emptied := .same rfl rfl rfl rfl
  exact ⟨_, hemptied.trans (emptied.proceeds_finishEach (p.slots.closeEach p.slots.ids).2), rfl⟩

theorem proceeds_map (p : Pair) {f : SigningKey → SigningKey} (hsecret : ∀ k, (f k).secret = k.secret)
    (hlater : ∀ k : SigningKey, k.clock ≤ (f k).clock) : p.Proceeds { p with key := p.key.map f } := by
  cases hk : p.key with
  | none => exact .same rfl hk.symm rfl rfl
  | some k => exact .ticked hk (hsecret k) (hlater k)

theorem proceeds_observe (p : Pair) (t : UInt64) : p.Proceeds { p with key := p.key.map (·.observe t) } :=
  p.proceeds_map (fun _ => rfl) fun k => k.le_observe t

theorem proceeds_sweep (p : Pair) (m : Moment) : p.Proceeds (p.sweep m) := by
  have hclosed := p.proceeds_closeSlots (p.slots.expired m.now p.idleTimeout)
  unfold sweep
  simp only
  split
  · exact hclosed.trans (proceeds_observe _ m.clock)
  · exact hclosed

theorem proceeds_established (p : Pair) (m : Moment) (id : SlotId) : p.Proceeds (p.established m id) := by
  unfold established
  split
  · exact .refl p
  · split
    · exact .same rfl rfl rfl rfl
    · exact .refl p

/-! ## Frames -/

theorem outgoing_key (key : Option SigningKey) (f : Frame) : (outgoing key f).1 = key.map fun k => (k.sign f).1 := by
  cases key <;> rfl

theorem proceeds_fromUser (p : Pair) (f : Frame) : p.Proceeds (p.fromUser f) := by
  have hkey : p.Proceeds { p with key := if p.recipients f = [] then p.key else (outgoing p.key f).1 } := by
    split
    · exact .refl p
    · rw [outgoing_key]
      exact p.proceeds_map (fun _ => rfl) fun k => k.le_sign f
  rw [fromUser_eq]
  exact hkey.trans (.same rfl rfl rfl rfl)

theorem proceeds_forward (p : Pair) (f : Frame) : p.Proceeds (p.forward f) := by
  rw [forward_eq]
  exact .same rfl rfl rfl rfl

theorem proceeds_fromEngineer (p : Pair) (m : Moment) (id : SlotId) (f : Frame) :
    p.Proceeds (p.fromEngineer m id f) ∨
      ∃ s c, p.slots.find? id = some s ∧ (s.gate.judge f p.key).1.isGood = true ∧ f.msgId = MessageId.setupSigning ∧
        p.Proceeds c ∧ p.fromEngineer m id f = c.rotateKey m (SetupSigning.ofPayload f.payload) := by
  cases hs : p.slots.find? id with
  | none =>
    simp only [fromEngineer, hs]
    exact .inl (.refl p)
  | some s =>
    cases hgood : (s.gate.judge f p.key).1.isGood with
    | false =>
      obtain ⟨note, es, _, heq⟩ := fromEngineer_of_not_good hs m hgood
      rw [heq]
      exact .inl (.same rfl rfl rfl rfl)
    | true =>
      obtain ⟨k, hk, _⟩ := Gate.signedUnder_of_judge hgood
      obtain ⟨t, ht⟩ := Verdict.isGood_iff.mp hgood
      obtain ⟨es, _, heq⟩ := fromEngineer_of_good hs m hk ht
      have hticked : p.Proceeds { p with key := some (k.observe t.toClock) } := .ticked hk rfl (k.le_observe _)
      have hentered : p.Proceeds (p.enterGood id (s.gate.check f p.key).1 (k.observe t.toClock) es) :=
        hticked.trans (.same rfl rfl rfl rfl)
      have hsaved := hentered.trans (proceeds_saveClock _)
      rw [heq]
      split
      · rename_i hsetup
        exact .inr ⟨s, _, rfl, hgood, hsetup, hsaved, rfl⟩
      · exact .inl (hsaved.trans (proceeds_forward _ f))

/-! ## The first engineer -/

theorem replaced_of_engineer {t : SlotTable} {transport : Transport} {peer : Peer} {now : Nat} {a : Admission}
    (h : t.accept .engineer transport peer now = .ok a) : a.replaced = none := by
  unfold SlotTable.accept SlotTable.makeRoom at h
  split at h
  · cases h
  · rename_i hroom
    simp only at hroom
    split at hroom
    · cases hroom
    · cases hroom
      cases h
      rfl

structure Reads (p q : Pair) (m : Moment) : Prop where
  port : q.recordPort = p.recordPort
  store : q.store = p.store
  saved : q.savedClock = p.savedClock
  key : ∃ stored, p.store.load p.recordPort = .ok stored ∧ q.key = (renewedKey p.key stored).map (·.observe m.clock)

theorem proceeds_or_reads (p : Pair) (m : Moment) : p.Proceeds (p.reloadKey m) ∨ p.Reads (p.reloadKey m) m := by
  unfold reloadKey
  split
  · exact .inl (.same rfl rfl rfl rfl)
  · exact .inr ⟨rfl, rfl, rfl, _, ‹_›, rfl⟩

theorem logConnected_eq (p : Pair) (role : Role) (transport : Transport) (peer : Peer) :
    ∃ es, p.logConnected role transport peer = { p with history := es ++ p.history } := by
  unfold logConnected
  split
  · exact ⟨[], rfl⟩
  · exact ⟨[_], rfl⟩

theorem proceeds_logRefusal (p : Pair) (refusal : Refusal) (transport : Transport) (peer : Peer) :
    p.Proceeds (p.logRefusal refusal transport peer) := by
  unfold logRefusal
  split
  · exact .refl p
  · exact .same rfl rfl rfl rfl

/-- Connecting a peer accounts for a user that has to go, or it reads the key for the first engineer. -/
theorem proceeds_connect (p : Pair) (m : Moment) (role : Role) (transport : Transport) (peer : Peer) :
    p.Proceeds (p.connect m role transport peer).1 ∨
      role = .engineer ∧ p.slots.engineerCount = 0 ∧ p.Reads (p.connect m role transport peer).1 m := by
  cases haccept : p.slots.accept role transport peer m.now with
  | error refusal =>
    rw [connect_of_refused haccept]
    exact .inl (p.proceeds_logRefusal refusal transport peer)
  | ok a =>
    obtain ⟨finished, hcases, hconnect⟩ := connect_of_accept haccept
    have hopened : p.Proceeds (p.opened a) := .same rfl rfl rfl rfl
    rw [hconnect]
    by_cases hfirst : role = .engineer ∧ p.slots.engineerCount = 0
    · obtain ⟨rfl, hcount⟩ := hfirst
      rw [if_pos ⟨rfl, hcount⟩]
      obtain ⟨_, rfl⟩ | ⟨s, hs, _⟩ := hcases
      · obtain ⟨es, heq⟩ := ((p.opened a).reloadKey m).logConnected_eq .engineer transport peer
        rw [heq]
        rcases (p.opened a).proceeds_or_reads m with hread | hread
        · exact .inl ((hopened.trans hread).trans (.same rfl rfl rfl rfl))
        · exact .inr ⟨rfl, hcount, hread.port, hread.store, hread.saved, hread.key⟩
      · rw [replaced_of_engineer haccept] at hs
        cases hs
    · left
      rw [if_neg hfirst]
      obtain ⟨es, heq⟩ := finished.logConnected_eq role transport peer
      have hfinished : p.Proceeds finished := by
        rcases hcases with ⟨_, rfl⟩ | ⟨s, _, rfl⟩
        · exact hopened
        · exact hopened.trans (proceeds_finishSlot _ s)
      rw [heq]
      exact hfinished.trans (.same rfl rfl rfl rfl)

/-! ## Moves -/

inductive Course (p : Pair) (b : Moment × Move) : Prop where
  | proceeds (h : p.Proceeds (p.act b))
  | changed (change : Service → Service) (hb : b.2 = .storeChange change)
  | reads (transport : Transport) (peer : Peer) (hb : b.2 = .connect .engineer transport peer)
      (first : p.slots.engineerCount = 0) (h : p.Reads (p.act b) b.1)
  | rotates {id : SlotId} {f : Frame} {s : Slot} {c : Pair} (hb : b.2 = .engineerFrame id f)
      (hs : p.slots.find? id = some s) (good : (s.gate.judge f p.key).1.isGood = true)
      (setup : f.msgId = MessageId.setupSigning) (h : p.Proceeds c)
      (heq : p.act b = c.rotateKey b.1 (SetupSigning.ofPayload f.payload))

theorem course_act (p : Pair) (b : Moment × Move) : p.Course b := by
  obtain ⟨m, move⟩ := b
  cases move with
  | connect role transport peer =>
    rcases p.proceeds_connect m role transport peer with h | ⟨rfl, hcount, hreads⟩
    · exact .proceeds h
    · exact .reads transport peer rfl hcount hreads
  | refuse peer => exact .proceeds (.same rfl rfl rfl rfl)
  | welcome peer => exact .proceeds (.same rfl rfl rfl rfl)
  | established id => exact .proceeds (p.proceeds_established m id)
  | arrival id count => exact .proceeds (.same rfl rfl rfl rfl)
  | userFrame f => exact .proceeds (p.proceeds_fromUser f)
  | engineerFrame id f =>
    rcases p.proceeds_fromEngineer m id f with h | ⟨s, c, hs, hgood, hsetup, h, heq⟩
    · exact .proceeds h
    · exact .rotates rfl hs hgood hsetup h heq
  | disconnected id => exact .proceeds (p.proceeds_closeSlot id)
  | sweep => exact .proceeds (p.proceeds_sweep m)
  | quit =>
    obtain ⟨finished, h, heq⟩ := p.proceeds_shutdown
    refine .proceeds ?_
    rw [act, heq]
    exact (h.trans finished.proceeds_saveClock).trans (.same rfl rfl rfl rfl)
  | storeChange change => exact .changed change rfl

end Pair

end GatedRelay
