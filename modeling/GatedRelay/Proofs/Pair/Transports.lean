import GatedRelay.Proofs.Pair.Leaving
import GatedRelay.Proofs.Pair.Reach
import GatedRelay.Proofs.Slot.Outbox
import GatedRelay.Proofs.Slot.Transports

/-!
# Pairs with other streams

A pair names the transport of a stream in its log and makes no other use of it once the peer's slot is open.  So a pair
in which some slots are on other streams goes on in the same way, move by move, and logs the same but for the names.
Letting a peer in depends on its transport in two places only, its slot and its line in the log (`connect_eq`).
-/

set_option autoImplicit false

namespace GatedRelay

/-! ## Effects -/

def LogEntry.plain : LogEntry → LogEntry
  | connected role transport peer => connected role transport.plain peer
  | closed role transport => closed role transport.plain
  | refused refusal transport => refused refusal transport.plain
  | entry => entry

namespace Effect

def plain : Effect → Effect
  | logged entry => logged entry.plain
  | e => e

def Rewired (es es' : List Effect) : Prop := es'.map plain = es.map plain

theorem Rewired.cons {es es' : List Effect} (h : Rewired es es') {e e' : Effect} (he : e'.plain = e.plain) :
    Rewired (e :: es) (e' :: es') := by
  rw [Rewired, List.map_cons, List.map_cons, he, h]

theorem Rewired.length_eq {es es' : List Effect} (h : Rewired es es') : es'.length = es.length := by
  simpa only [List.length_map] using congrArg List.length h

end Effect

theorem Outboxes.applyEach_rewired {es es' : List Effect} (h : Effect.Rewired es es') (capacity : Nat) (o : Outboxes) :
    o.applyEach capacity es' = o.applyEach capacity es := by
  have hplain (es : List Effect) : (es.map Effect.plain).foldl (apply capacity) o = es.foldl (apply capacity) o := by
    rw [List.foldl_map]
    congr 1
    funext o e
    cases e <;> rfl
  rw [applyEach, ← hplain, h, hplain, applyEach]

theorem Outboxes.applyEach_append_logged (es : List Effect) (entries : List LogEntry) (capacity : Nat) (o : Outboxes) :
    o.applyEach capacity (es ++ entries.map .logged) = o.applyEach capacity es :=
  List.foldl_append.trans (applyEach_logged (by simp) capacity _)

namespace Pair

/-! ## Pairs with other streams -/

theorem unseen_rewired : Unseen SlotTable.Rewired Effect.Rewired where
  find? h id := by
    have hfound := congrArg (Option.map fun s : Slot => (s.id, s.gate, s.lastNotice)) (h.find? id)
    rwa [Option.map_map, Option.map_map] at hfound
  user? h := by
    have hfound := congrArg (Option.map fun s : Slot => (s.id, s.isOpen)) h.user?
    rwa [Option.map_map, Option.map_map] at hfound
  gate h id gate := h.modify id fun _ => rfl
  notice h id now := h.modify id fun _ => rfl
  reset h := h.resetGates
  cons h _ := h.cons rfl

abbrev Rewired (p q : Pair) : Prop := DiffersBy SlotTable.Rewired Effect.Rewired p q

def finishAny (p : Pair) (gone : Option Slot) : Pair := gone.elim p p.finishSlot

theorem booked_finishAny (p : Pair) (gone : Option Slot) : p.Booked (p.finishAny gone) := by
  cases gone with
  | none => exact .refl p
  | some s => exact p.booked_finishSlot s

theorem closeSlot_eq (p : Pair) (id : SlotId) :
    p.closeSlot id = finishAny { p with slots := (p.slots.close id).1 } (p.slots.close id).2 := by
  unfold closeSlot SlotTable.close
  cases p.slots.find? id with
  | none => rfl
  | some s => rfl

section Operations

variable {p q : Pair} (h : p.Rewired q)

include h

theorem Rewired.logAs {entry entry' : LogEntry} (hentry : entry'.plain = entry.plain) :
    (p.log entry).Rewired (q.log entry') := by
  obtain ⟨t, past, rfl, hslots, hpast⟩ := h
  exact ⟨t, _, rfl, hslots, hpast.cons (congrArg Effect.logged hentry)⟩

theorem Rewired.finishSlot {s s' : Slot} (hs : s'.plain = s.plain) : (p.finishSlot s).Rewired (q.finishSlot s') := by
  obtain ⟨transport, htransport, rfl⟩ := Slot.eq_of_plain hs
  have haccount : q.account { s with transport := transport } = p.account s := by
    rw [account, account, h.recordPort]
  have hleave : (p.leave s).Rewired (q.leave { s with transport := transport }) := by
    unfold leave
    rw [haccount]
    refine DiffersBy.post unseen_rewired (Rewired.logAs (h.emit unseen_rewired _) ?_) _
    exact congrArg (LogEntry.closed s.role) htransport
  rw [finishSlot_eq, finishSlot_eq, h.slots.engineerCount]
  exact hleave.saveIf unseen_rewired _

theorem Rewired.finishEach {closed closed' : List Slot} (hclosed : closed'.map Slot.plain = closed.map Slot.plain) :
    (closed.foldl Pair.finishSlot p).Rewired (closed'.foldl Pair.finishSlot q) := by
  induction closed generalizing closed' p q with
  | nil =>
    obtain rfl := List.map_eq_nil_iff.mp hclosed
    exact h
  | cons s rest ih =>
    obtain ⟨s', rest', rfl, hs, hrest⟩ := List.map_eq_cons_iff.mp hclosed
    exact ih (h.finishSlot hs) hrest

theorem Rewired.finishAny {gone gone' : Option Slot} (hgone : gone'.map Slot.plain = gone.map Slot.plain) :
    (p.finishAny gone).Rewired (q.finishAny gone') := by
  cases gone with
  | none =>
    obtain rfl := Option.map_eq_none_iff.mp hgone
    exact h
  | some s =>
    obtain ⟨s', rfl, hs⟩ := Option.map_eq_some_iff.mp hgone
    exact h.finishSlot hs

theorem Rewired.closeSlot (id : SlotId) : (p.closeSlot id).Rewired (q.closeSlot id) := by
  obtain ⟨hgone, hclosed⟩ := h.slots.close id
  rw [closeSlot_eq, closeSlot_eq]
  exact Rewired.finishAny (h.withSlots hclosed) hgone

theorem Rewired.closeSlots (ids : List SlotId) : (p.closeSlots ids).Rewired (q.closeSlots ids) := by
  induction ids generalizing p q with
  | nil => exact h
  | cons id rest ih => exact ih (h.closeSlot id)

theorem Rewired.sweep (m : Moment) : (p.sweep m).Rewired (q.sweep m) := by
  have hclosed := h.closeSlots (p.slots.expired m.now p.idleTimeout)
  unfold Pair.sweep
  simp only [h.idleTimeout, h.slots.expired, hclosed.slots.engineerCount]
  split
  · rw [hclosed.key]
    exact hclosed.withKey _
  · exact hclosed

theorem Rewired.shutdown : p.shutdown.Rewired q.shutdown := by
  obtain ⟨hclosed, hempty⟩ := h.slots.closeEach p.slots.ids
  unfold Pair.shutdown Pair.shutdownIn
  rw [h.slots.ids]
  exact ((Rewired.finishEach (h.withSlots hempty) hclosed).saveClock unseen_rewired).withLive false

theorem Rewired.recipients (f : Frame) : (q.recipients f).map Slot.plain = (p.recipients f).map Slot.plain := by
  have hcomm (slots : List Slot) (P : Slot → Bool) (hP : ∀ s, P s.plain = P s) :
      (slots.filter P).map Slot.plain = (slots.map Slot.plain).filter P := by
    rw [List.filter_map]
    congr 2
    funext s
    exact (hP s).symm
  rw [Pair.recipients, Pair.recipients, hcomm _ _ fun _ => rfl, hcomm _ _ fun _ => rfl, h.slots.engineers]

theorem Rewired.userFrame (f : Frame) : (p.fromUser f).Rewired (q.fromUser f) := by
  have hrecipients := h.recipients f
  have hqueued (message : Bytes) : (q.recipients f).map (fun s => Effect.queued s.id message) =
      (p.recipients f).map fun s => Effect.queued s.id message := by
    have hids := congrArg (List.map fun s : Slot => Effect.queued s.id message) hrecipients
    rwa [List.map_map, List.map_map] at hids
  refine h.fromUser f ?_ ?_
  · rw [← List.map_eq_nil_iff, hrecipients, List.map_eq_nil_iff]
  · rw [hqueued, Effect.Rewired, List.map_append, List.map_append, h.history]

end Operations

/-! ## Letting a peer in -/

def readIf (p : Pair) (m : Moment) (c : Prop) [Decidable c] : Pair := if c then p.reloadKey m else p

/-- A pair makes room for a peer, however that may come: all that is done to admit it, but for its slot and its line in
the log. -/
def makeRoom (p : Pair) (m : Moment) (role : Role) : Except Refusal Pair :=
  match p.slots.makeRoom role with
  | .error refusal => .error refusal
  | .ok (room, gone) =>
    let q := ({ p with slots := room } : Pair).emit (.opened p.slots.nextId)
    .ok ((q.finishAny gone).readIf m (role = .engineer ∧ p.slots.engineerCount = 0))

def enter (p : Pair) (m : Moment) (role : Role) (transport : Transport) (peer : Peer) : Pair :=
  ({ p with slots := p.slots.enter role transport peer m.now } : Pair).logConnected role transport peer

theorem enter_eq (p : Pair) (m : Moment) (role : Role) (transport : Transport) (peer : Peer) :
    ∃ entries : List LogEntry, p.enter m role transport peer =
      { p with slots := p.slots.enter role transport peer m.now, history := entries.map .logged ++ p.history } := by
  unfold enter logConnected
  split
  · exact ⟨[], rfl⟩
  · exact ⟨[.connected role transport peer], rfl⟩

theorem finishAny_withSlots (p : Pair) {t : SlotTable} {gone : Option Slot}
    (ht : gone ≠ none → t.engineerCount = p.slots.engineerCount) :
    finishAny { p with slots := t } gone = { p.finishAny gone with slots := t } := by
  cases gone with
  | none => rfl
  | some s =>
    simp only [finishAny, Option.elim_some]
    rw [finishSlot_eq, finishSlot_eq, ht (Option.some_ne_none s), leave_withSlots, saveIf_withSlots]

theorem readIf_withSlots (p : Pair) (t : SlotTable) (m : Moment) (c : Prop) [Decidable c] :
    readIf { p with slots := t } m c = { p.readIf m c with slots := t } := by
  have hload : ({ p with slots := t } : Pair).store.load (recordPort { p with slots := t }) =
      p.store.load p.recordPort := rfl
  unfold readIf reloadKey
  rw [hload]
  split
  · split
    · rfl
    · rfl
  · rfl

theorem booked_readIf (p : Pair) (m : Moment) (c : Prop) [Decidable c] :
    ∃ key, Booked { p with key := key } (p.readIf m c) := by
  unfold readIf
  split
  · exact p.booked_reloadKey m
  · exact ⟨p.key, .refl p⟩

/-- What is done to admit a peer does not depend on its transport, except for its slot and its line in the log. -/
theorem connect_eq (p : Pair) (m : Moment) (role : Role) (transport : Transport) (peer : Peer) :
    p.connect m role transport peer =
      match p.makeRoom m role with
      | .error refusal => (p.logRefusal refusal transport peer, none)
      | .ok q => (q.enter m role transport peer, some p.slots.nextId) := by
  unfold connect SlotTable.accept makeRoom
  cases hroom : p.slots.makeRoom role with
  | error refusal => rfl
  | ok found =>
    obtain ⟨room, gone⟩ := found
    let opened : Pair := ({ p with slots := room } : Pair).emit (.opened p.slots.nextId)
    let finished : Pair := (opened.finishAny gone).readIf m (role = .engineer ∧ p.slots.engineerCount = 0)
    let t : SlotTable := room.enter role transport peer m.now
    have hcount : gone ≠ none → t.engineerCount = opened.slots.engineerCount := by
      intro hgone
      cases role with
      | user => exact room.engineerCount_enter_user transport peer m.now
      | engineer => exact absurd (SlotTable.makeRoom_engineer hroom).2 hgone
    have hslots : finished.slots = room := by
      obtain ⟨_, hread⟩ := (opened.finishAny gone).booked_readIf m (role = .engineer ∧ p.slots.engineerCount = 0)
      exact hread.slots.trans (opened.booked_finishAny gone).slots
    have hentered : ((finishAny { opened with slots := t } gone).readIf m
        (role = .engineer ∧ p.slots.engineerCount = 0)).logConnected role transport peer =
          finished.enter m role transport peer := by
      rw [opened.finishAny_withSlots hcount, readIf_withSlots, enter, hslots]
    cases gone with
    | none => exact congrArg (·, some p.slots.nextId) hentered
    | some s => exact congrArg (·, some p.slots.nextId) hentered

theorem booked_makeRoom {p q : Pair} {m : Moment} {role : Role} (h : p.makeRoom m role = .ok q) :
    ∃ room key, room.Within p.slots ∧
      Booked { p with slots := room, key := key, history := .opened p.slots.nextId :: p.history } q := by
  unfold makeRoom at h
  cases hroom : p.slots.makeRoom role with
  | error refusal =>
    rw [hroom] at h
    cases h
  | ok found =>
    obtain ⟨room, gone⟩ := found
    rw [hroom] at h
    obtain rfl := Except.ok.inj h
    let opened : Pair := ({ p with slots := room } : Pair).emit (.opened p.slots.nextId)
    obtain ⟨key, hread⟩ := (opened.finishAny gone).booked_readIf m (role = .engineer ∧ p.slots.engineerCount = 0)
    exact ⟨room, key, SlotTable.within_makeRoom hroom, ((opened.booked_finishAny gone).withKey key).trans hread⟩

/-- A peer whose handshake is reported at once has the slot that it would have had without one, and its line in the
log. -/
theorem established_enter {p : Pair} (h : p.slots.WellFormed) {m m' : Moment} (hnow : m'.now = m.now) (role : Role)
    (transport : Transport) (peer : Peer) :
    (p.enter m role transport peer).established m' p.slots.nextId =
      ({ p with slots := p.slots.enterOpen role transport peer m.now } : Pair).log
        (.connected role transport peer) := by
  have hfind := h.find?_enter role transport peer m.now
  have hslots : (p.enter m role transport peer).slots = p.slots.enter role transport peer m.now :=
    (booked_logConnected _ role transport peer).slots
  rw [established, hslots, hfind]
  cases hhandshake : transport.hasHandshake with
  | false =>
    have hopen : (p.slots.newSlot role transport peer m.now).state.canEnter .established = false := by
      simp [SlotTable.newSlot, hhandshake, SlotState.canEnter]
    simp only [hopen, enter, logConnected, hhandshake, SlotTable.enter_eq_enterOpen hhandshake]
    rfl
  | true =>
    have hnew : (p.slots.newSlot role transport peer m.now).state.canEnter .established = true := by
      simp [SlotTable.newSlot, hhandshake, SlotState.canEnter]
    simp only [hnew, if_true, hnow, h.modify_enter hhandshake, enter, logConnected, hhandshake]
    rfl

theorem received_plain (s : Slot) (now count : Nat) : (received s now count).plain = received s.plain now count := by
  have hcounted (s : Slot) : ((s.touch now).count count).plain = (s.plain.touch now).count count := rfl
  simp only [received, hcounted, apply_ite Slot.plain, Slot.plain_advance]
  rfl

section Admission

variable {p q : Pair} (h : p.Rewired q)

include h

theorem Rewired.readIf (m : Moment) (c : Prop) [Decidable c] : (p.readIf m c).Rewired (q.readIf m c) := by
  unfold Pair.readIf
  split
  · exact h.reloadKey unseen_rewired m
  · exact h

theorem Rewired.makeRoom (m : Moment) (role : Role) :
    (∃ refusal, p.makeRoom m role = .error refusal ∧ q.makeRoom m role = .error refusal) ∨
      ∃ r r', p.makeRoom m role = .ok r ∧ q.makeRoom m role = .ok r' ∧ r.Rewired r' := by
  unfold Pair.makeRoom
  rcases h.slots.makeRoom role with ⟨refusal, hp, hq⟩ | ⟨room, room', gone, gone', hp, hq, hroom, hgone⟩
  · rw [hp, hq]
    exact .inl ⟨refusal, rfl, rfl⟩
  · right
    rw [hp, hq]
    refine ⟨_, _, rfl, rfl, ?_⟩
    have hopened := (h.withSlots hroom).emit unseen_rewired (.opened p.slots.nextId)
    rw [h.slots.engineerCount, h.slots.nextId]
    exact (Rewired.finishAny hopened hgone).readIf m _

theorem Rewired.room_of_room {m : Moment} {role : Role} {r : Pair} (hroom : p.makeRoom m role = .ok r) :
    ∃ r', q.makeRoom m role = .ok r' ∧ r.Rewired r' := by
  rcases h.makeRoom m role with ⟨refusal, hp, _⟩ | ⟨r₀, r', hp, hq, hrewired⟩
  · rw [hroom] at hp
    cases hp
  · obtain rfl := Except.ok.inj (hp.symm.trans hroom)
    exact ⟨r', hq, hrewired⟩

theorem Rewired.logRefusal (refusal : Refusal) {transport transport' : Transport} (hudp : transport ≠ .udp)
    (hudp' : transport' ≠ .udp) (peer : Peer) :
    (p.logRefusal refusal transport peer).Rewired (q.logRefusal refusal transport' peer) := by
  rw [Pair.logRefusal, if_neg fun hrefused => hudp hrefused.1, Pair.logRefusal, if_neg fun hrefused => hudp' hrefused.1]
  refine h.logAs (congrArg (LogEntry.refused refusal) ?_)
  rw [Transport.plain_of_ne_udp hudp, Transport.plain_of_ne_udp hudp']

theorem Rewired.connect (m : Moment) (role : Role) (transport : Transport) (peer : Peer) :
    (q.connect m role transport peer).2 = (p.connect m role transport peer).2 ∧
      (p.connect m role transport peer).1.Rewired (q.connect m role transport peer).1 := by
  rw [connect_eq, connect_eq]
  rcases h.makeRoom m role with ⟨refusal, hp, hq⟩ | ⟨r, r', hp, hq, hroom⟩
  · rw [hp, hq]
    exact ⟨rfl, DiffersBy.logRefusal unseen_rewired h refusal transport peer⟩
  · rw [hp, hq, h.slots.nextId]
    refine ⟨rfl, ?_⟩
    have hentered := hroom.withSlots (hroom.slots.enter role transport peer m.now)
    exact hentered.logConnected unseen_rewired role transport peer

theorem Rewired.established (m : Moment) (id : SlotId) : (p.established m id).Rewired (q.established m id) := by
  unfold Pair.established
  rcases Slot.plain_cases (h.slots.find? id) with ⟨hp, hq⟩ | ⟨s, transport, htransport, hp, hq⟩
  · rw [hp, hq]
    exact h
  · simp only [hp, hq]
    split
    · refine Rewired.logAs (h.withSlots (h.slots.modify id fun s => ?_)) ?_
      · exact congrArg (·.touch m.now) (s.plain_advance .established)
      · exact congrArg (LogEntry.connected s.role · s.peer) htransport
    · exact h

/-! ## Moves -/

theorem Rewired.act (b : Moment × Move) : (p.act b).Rewired (q.act b) := by
  obtain ⟨m, move⟩ := b
  cases move with
  | connect role transport peer => exact (h.connect m role transport peer).2
  | refuse peer =>
    simp only [Pair.act, h.refused]
    exact h.withRefused _
  | welcome peer =>
    simp only [Pair.act, h.refused]
    exact h.withRefused _
  | established id => exact h.established m id
  | arrival id count => exact h.withSlots (h.slots.modify id fun s => received_plain s m.now count)
  | userFrame f => exact h.userFrame f
  | engineerFrame id f => exact h.fromEngineer unseen_rewired m id f
  | disconnected id => exact h.closeSlot id
  | sweep => exact h.sweep m
  | quit => exact h.shutdown
  | storeChange change =>
    simp only [Pair.act, h.store]
    exact h.withStore _

theorem Rewired.batch (id : SlotId) (frames : List Frame) : q.batch id frames = p.batch id frames := by
  unfold Pair.batch
  rcases Slot.plain_cases (h.slots.find? id) with ⟨hp, hq⟩ | ⟨s, transport, _, hp, hq⟩
  · rw [hp, hq]
  · rw [hp, hq]

theorem Rewired.moves (m : Moment) (e : Event) : q.moves m e = p.moves m e := by
  have hlive : q.liveMoves m e = p.liveMoves m e := by
    cases e with
    | frames id frames => exact h.batch id frames
    | datagram role peer frames =>
      obtain ⟨hid, hconnected⟩ := h.connect m role .udp peer
      simp only [Pair.liveMoves, h.refused, h.slots.hasRoom]
      rcases Slot.plain_cases (h.slots.findUdp? role peer) with ⟨hp, hq⟩ | ⟨s, transport, _, hp, hq⟩
      · simp only [hp, hq]
        split
        · rfl
        · rcases hp : p.connect m role .udp peer with ⟨p', id⟩
          rcases hq : q.connect m role .udp peer with ⟨q', id'⟩
          rw [hp, hq] at hid hconnected
          obtain rfl : id' = id := hid
          cases id' with
          | none => rfl
          | some id => exact congrArg (.connect role .udp peer :: .welcome peer :: ·) (hconnected.batch id frames)
      · simp only [hp, hq]
        exact h.batch s.id frames
    | _ => rfl
  unfold Pair.moves
  rw [hlive, h.live]

theorem Rewired.step (m : Moment) (e : Event) : (p.step m e).Rewired (q.step m e) := by
  rw [← replay_moves, ← replay_moves, h.moves]
  generalize p.moves m e = moves
  induction moves generalizing p q with
  | nil => exact h
  | cons b rest ih => exact ih (h.act b)

end Admission

theorem Rewired.effectsSince {p q p' q' : Pair} (h : p.Rewired q) (h' : p'.Rewired q') :
    Effect.Rewired (p'.effectsSince p) (q'.effectsSince q) := by
  rw [Effect.Rewired, Pair.effectsSince, Pair.effectsSince, List.map_reverse, List.map_reverse, List.map_take,
    List.map_take, h.history.length_eq, h'.history.length_eq, h'.history]

theorem wellFormed_step {p : Pair} (h : p.slots.WellFormed) (m : Moment) (e : Event) :
    (p.step m e).slots.WellFormed := by
  rw [← replay_moves]
  generalize p.moves m e = moves
  induction moves generalizing p with
  | nil => exact h
  | cons b rest ih => exact ih (wellFormed_act h b)

end Pair

end GatedRelay
