import GatedRelay.Proofs.Pair.Transports
import GatedRelay.Proofs.Pair.Withholding

/-!
# By which stream a peer comes does not show

A stream may begin with a handshake, and then its slot is not open until the handshake is done.  If that is reported at
once, the slot is the one that a stream without a handshake would have been given (`established_enter`), but for the
name of its transport.  So two sessions in which the peers come by different streams show the same after every action,
except that a slot that has just been opened may be open in one of them only (`transports_unobservable`).
-/

set_option autoImplicit false

namespace GatedRelay

namespace Pair

theorem Rewired.sentTo {p q : Pair} (h : p.Rewired q) (id : SlotId) : q.sentTo id = p.sentTo id := by
  have hplain (p : Pair) : Pair.sentTo { p with history := p.history.map Effect.plain } id = p.sentTo id := by
    rw [Pair.sentTo, Pair.sentTo, List.filterMap_map]
    congr 2
    funext e
    cases e <;> rfl
  rw [← hplain q, ← hplain p, h.history]
  rfl

/-! ## Steps -/

theorem step_of_live {p : Pair} (h : p.live = true) (m : Moment) (e : Event) : p.step m e = p.handle m e := if_pos h

theorem step_connect {p r : Pair} (hlive : p.live = true) {m : Moment} {role : Role} (hroom : p.makeRoom m role = .ok r)
    (transport : Transport) (peer : Peer) :
    p.step m (.connect role transport peer) = r.enter m role transport peer := by
  rw [step_of_live hlive, handle, connect_eq, hroom]

theorem history_makeRoom {p r : Pair} {m : Moment} {role : Role} (h : p.makeRoom m role = .ok r) :
    ∃ es, r.history = (es ++ [.opened p.slots.nextId]) ++ p.history := by
  obtain ⟨_, _, _, hbooked⟩ := booked_makeRoom h
  obtain ⟨es, hes, _⟩ := hbooked.history
  exact ⟨es, by rw [hes, List.append_assoc]; rfl⟩

theorem effectsSince_of_logged {p r q : Pair} {es : List Effect} (hr : r.history = es ++ p.history)
    {entries : List LogEntry} (hq : q.history = entries.map .logged ++ r.history) :
    q.effectsSince p = r.effectsSince p ++ entries.reverse.map .logged := by
  rw [hr, ← List.append_assoc] at hq
  rw [effectsSince_of_append hq, effectsSince_of_append hr, List.reverse_append, List.map_reverse]

theorem sentTo_logged (p : Pair) (entries : List LogEntry) (t : SlotTable) (id : SlotId) :
    Pair.sentTo { p with slots := t, history := entries.map .logged ++ p.history } id = p.sentTo id := by
  simp [Pair.sentTo, List.filterMap_append, List.filterMap_map]

end Pair

/-! ## What shows -/

structure Slot.Resembles (opening : Prop) (s s' : Slot) : Prop where
  id : s'.id = s.id
  role : s'.role = s.role
  peer : s'.peer = s.peer
  trust : s'.trust = s.trust
  messages : s'.messages = s.messages
  state : ¬opening → s'.state = s.state

def Pair.states (p : Pair) : List SlotState := p.slots.slots.map (·.state)

theorem Slot.Resembles.of_plain {opening : Prop} {s s' : Slot} (h : s'.plain = s.plain) : s.Resembles opening s' := by
  obtain ⟨transport, _, rfl⟩ := Slot.eq_of_plain h
  exact ⟨rfl, rfl, rfl, rfl, rfl, fun _ => rfl⟩

namespace Session

/-- Two sessions go through the same actions, but for the streams by which peers come: each peer is admitted by both and
its handshake is reported at once, or it is refused.  After a handshake that takes time it would be idle later. -/
inductive Rewires : Session → List Action → List Action → Prop where
  | nil (s : Session) : Rewires s [] []
  | same {s : Session} {a : Action} {as bs : List Action} (h : Rewires (s.step a).1 as bs) :
      Rewires s (a :: as) (a :: bs)
  | admitted {s : Session} {m m' : Moment} {role : Role} {transport transport' : Transport} {peer : Peer} {id : SlotId}
      {capacity capacity' : Nat} {as bs : List Action} (hudp : transport ≠ .udp) (hudp' : transport' ≠ .udp)
      (hopened : .opened id ∈ s.effects m (.connect role transport peer)) (hnow : m'.now = m.now)
      (h : Rewires ((s.happen m (.connect role transport peer) capacity).happen m' (.established id) capacity') as bs) :
      Rewires s
        (.event m (.connect role transport peer) capacity :: .event m' (.established id) capacity' :: as)
        (.event m (.connect role transport' peer) capacity :: .event m' (.established id) capacity' :: bs)
  | refused {s : Session} {m : Moment} {role : Role} {transport transport' : Transport} {peer : Peer} {capacity : Nat}
      {as bs : List Action} (hudp : transport ≠ .udp) (hudp' : transport' ≠ .udp)
      (hnone : ∀ id, .opened id ∉ s.effects m (.connect role transport peer))
      (h : Rewires (s.happen m (.connect role transport peer) capacity) as bs) :
      Rewires s (.event m (.connect role transport peer) capacity :: as)
        (.event m (.connect role transport' peer) capacity :: bs)

structure Rewired (s t : Session) : Prop where
  pair : s.pair.Rewired t.pair
  wellFormed : s.pair.slots.WellFormed
  outboxes : t.outboxes = s.outboxes

structure Resembles (opening : SlotId → Prop) (s t : Session) : Prop where
  slots : List.Forall₂ (fun a b : Slot => a.Resembles (opening a.id) b) s.pair.slots.slots t.pair.slots.slots
  key : t.pair.key = s.pair.key
  store : t.pair.store = s.pair.store
  record : t.pair.record? = s.pair.record?
  sentTo : ∀ id, t.pair.sentTo id = s.pair.sentTo id
  outboxes : t.outboxes = s.outboxes

theorem Resembles.mono {opening later : SlotId → Prop} {s t : Session} (h : s.Resembles opening t)
    (hlater : ∀ id, opening id → later id) : s.Resembles later t where
  slots := h.slots.imp fun a _ hab => { hab with state := fun hnot => hab.state fun hopen => hnot (hlater a.id hopen) }
  key := h.key
  store := h.store
  record := h.record
  sentTo := h.sentTo
  outboxes := h.outboxes

theorem Resembles.states {opening : SlotId → Prop} {s t : Session} (h : s.Resembles opening t)
    (hnone : ∀ id, ¬opening id) : t.pair.states = s.pair.states := by
  have hstates : List.Forall₂ Eq s.pair.states t.pair.states := by
    rw [Pair.states, Pair.states, List.forall₂_map_left_iff, List.forall₂_map_right_iff]
    exact h.slots.imp fun _ _ hab => (hab.state (hnone _)).symm
  rw [List.forall₂_eq_eq_eq] at hstates
  exact hstates.symm

section Steps

variable {s t : Session} (h : s.Rewired t)

include h

theorem Rewired.resembles (opening : SlotId → Prop) : s.Resembles opening t where
  slots := h.pair.slots.forall₂.imp fun _ _ hab => .of_plain hab
  key := h.pair.key
  store := h.pair.store
  record := by rw [Pair.record?, Pair.record?, h.pair.store, h.pair.recordPort]
  sentTo := h.pair.sentTo
  outboxes := h.outboxes

theorem Rewired.resembles_enter (m : Moment) (role : Role) (transport transport' : Transport) (peer : Peer) :
    Resembles (· = s.pair.slots.nextId) ⟨s.pair.enter m role transport peer, s.outboxes⟩
      ⟨t.pair.enter m role transport' peer, t.outboxes⟩ := by
  have hsame := h.resembles (· = s.pair.slots.nextId)
  obtain ⟨entries, hs⟩ := s.pair.enter_eq m role transport peer
  obtain ⟨entries', ht⟩ := t.pair.enter_eq m role transport' peer
  rw [hs, ht]
  refine ⟨?_, hsame.key, hsame.store, hsame.record, ?_, hsame.outboxes⟩
  · refine List.rel_append hsame.slots (.cons ?_ .nil)
    exact ⟨h.pair.slots.nextId, rfl, rfl, rfl, rfl, fun hnew => absurd rfl hnew⟩
  · intro id
    rw [Pair.sentTo_logged, Pair.sentTo_logged]
    exact hsame.sentTo id

theorem Rewired.after {p q : Pair} (hpair : p.Rewired q) (hp : p.slots.WellFormed) (capacity : Nat) :
    Rewired ⟨p, s.outboxes.applyEach capacity (p.effectsSince s.pair)⟩
      ⟨q, t.outboxes.applyEach capacity (q.effectsSince t.pair)⟩ where
  pair := hpair
  wellFormed := hp
  outboxes := by
    rw [h.outboxes]
    exact Outboxes.applyEach_rewired (h.pair.effectsSince hpair) capacity s.outboxes

theorem Rewired.step (a : Action) : (t.step a).2 = (s.step a).2 ∧ (s.step a).1.Rewired (t.step a).1 := by
  cases a with
  | event m e capacity => exact ⟨rfl, h.after (h.pair.step m e) (Pair.wellFormed_step h.wellFormed m e) capacity⟩
  | take id =>
    refine ⟨?_, h.pair, h.wellFormed, ?_⟩
    · simp only [Session.step, h.outboxes]
    · simp only [Session.step, h.outboxes]
  | abandon id =>
    refine ⟨rfl, h.pair, h.wellFormed, ?_⟩
    simp only [Session.step, h.outboxes]

end Steps

/-! ## Admissions -/

section Admission

variable {s : Session} {m : Moment} {role : Role} {transport : Transport} {peer : Peer}

theorem room_of_opened {id : SlotId} (h : .opened id ∈ s.effects m (.connect role transport peer)) :
    s.pair.live = true ∧ id = s.pair.slots.nextId ∧ ∃ r, s.pair.makeRoom m role = .ok r := by
  have hlive : s.pair.live = true := by
    by_contra hdead
    have hstep : s.pair.step m (.connect role transport peer) = s.pair := if_neg hdead
    rw [effects, hstep, Pair.effectsSince_of_append (List.nil_append _).symm] at h
    cases h
  have hopens : s.pair.Opens (m, .connect role transport peer) id := by
    rw [effects, Pair.step_of_live hlive] at h
    exact h
  refine ⟨hlive, Pair.id_of_opens hopens, ?_⟩
  cases hroom : s.pair.slots.makeRoom role with
  | ok found => exact ⟨_, by rw [Pair.makeRoom, hroom]⟩
  | error refusal =>
    cases Pair.origin_of_mem_outgo hopens with
    | quiet hquiet => exact hquiet.elim
    | admission hb ha =>
      cases hb
      rw [SlotTable.accept, hroom] at ha
      cases ha
    | engineer hb => cases hb

theorem effects_connect (hlive : s.pair.live = true) {r : Pair} (hroom : s.pair.makeRoom m role = .ok r)
    (transport : Transport) (peer : Peer) :
    ∃ entries : List LogEntry,
      s.effects m (.connect role transport peer) = r.effectsSince s.pair ++ entries.map .logged := by
  obtain ⟨es, hes⟩ := Pair.history_makeRoom hroom
  obtain ⟨entries, hentered⟩ := r.enter_eq m role transport peer
  refine ⟨entries.reverse, ?_⟩
  rw [effects, Pair.step_connect hlive hroom]
  exact Pair.effectsSince_of_logged hes (by rw [hentered])

theorem opened_of_room (hlive : s.pair.live = true) {r : Pair} (hroom : s.pair.makeRoom m role = .ok r)
    (transport : Transport) (peer : Peer) :
    .opened s.pair.slots.nextId ∈ s.effects m (.connect role transport peer) := by
  obtain ⟨entries, heffects⟩ := effects_connect hlive hroom transport peer
  obtain ⟨es, hes⟩ := Pair.history_makeRoom hroom
  rw [heffects, Pair.effectsSince_of_append hes]
  simp

theorem happen_connect (hlive : s.pair.live = true) {r : Pair} (hroom : s.pair.makeRoom m role = .ok r)
    (transport : Transport) (peer : Peer) (capacity : Nat) :
    s.happen m (.connect role transport peer) capacity =
      ⟨r.enter m role transport peer, s.outboxes.applyEach capacity (r.effectsSince s.pair)⟩ := by
  obtain ⟨entries, heffects⟩ := effects_connect hlive hroom transport peer
  rw [happen, heffects, Outboxes.applyEach_append_logged, Pair.step_connect hlive hroom]

theorem happen_established {r : Pair} (hlive : r.live = true) (hwf : r.slots.WellFormed) {m' : Moment}
    (hnow : m'.now = m.now) (o : Outboxes) (capacity : Nat) :
    happen ⟨r.enter m role transport peer, o⟩ m' (.established r.slots.nextId) capacity =
      ⟨({ r with slots := r.slots.enterOpen role transport peer m.now } : Pair).log
        (.connected role transport peer), o⟩ := by
  let s : Session := ⟨r.enter m role transport peer, o⟩
  let q : Pair :=
    ({ r with slots := r.slots.enterOpen role transport peer m.now } : Pair).log (.connected role transport peer)
  have hentered : s.pair.live = true := (Pair.booked_logConnected _ role transport peer).live.trans hlive
  have hstep : s.pair.step m' (.established r.slots.nextId) = q :=
    (Pair.step_of_live hentered m' _).trans (Pair.established_enter hwf hnow role transport peer)
  -- The line in the log is written by one of the two events.
  have hlogged : ∃ entries : List LogEntry, q.history = entries.map .logged ++ s.pair.history := by
    simp only [s, Pair.enter, Pair.logConnected]
    split
    · exact ⟨[.connected role transport peer], rfl⟩
    · exact ⟨[], rfl⟩
  obtain ⟨entries, hentries⟩ := hlogged
  have heffects : s.effects m' (.established r.slots.nextId) = [] ++ entries.reverse.map .logged := by
    rw [effects, hstep, Pair.effectsSince_of_append hentries, List.map_reverse]
    rfl
  rw [happen, heffects, Outboxes.applyEach_append_logged, hstep]
  rfl

end Admission

section Streams

variable {s t : Session} (h : s.Rewired t) {m : Moment} {role : Role} {transport transport' : Transport} {peer : Peer}
  (hudp : transport ≠ .udp) (hudp' : transport' ≠ .udp)

include h hudp hudp'

/-- Sessions that admit a peer over different streams differ by how far its slot has come, until its handshake is
reported. -/
theorem Rewired.admitted {id : SlotId} (hopened : .opened id ∈ s.effects m (.connect role transport peer)) {m' : Moment}
    (hnow : m'.now = m.now) (capacity capacity' : Nat) :
    (s.happen m (.connect role transport peer) capacity).Resembles (· = id)
        (t.happen m (.connect role transport' peer) capacity) ∧
      ((s.happen m (.connect role transport peer) capacity).happen m' (.established id) capacity').Rewired
        ((t.happen m (.connect role transport' peer) capacity).happen m' (.established id) capacity') := by
  obtain ⟨hlive, rfl, r, hp⟩ := room_of_opened hopened
  obtain ⟨r', hq, hroom⟩ := h.pair.room_of_room hp
  obtain ⟨room, key, hwithin, hbooked⟩ := Pair.booked_makeRoom hp
  have hslots : r.slots = room := hbooked.slots
  have hwf : r.slots.WellFormed := hslots ▸ h.wellFormed.within hwithin
  have hid : s.pair.slots.nextId = r.slots.nextId := hslots ▸ hwithin.next.symm
  have hlater : r.live = true := hbooked.live.trans hlive
  have hplain : transport'.plain = transport.plain := by
    rw [Transport.plain_of_ne_udp hudp, Transport.plain_of_ne_udp hudp']
  have hafter := h.after hroom hwf capacity
  rw [happen_connect hlive hp, happen_connect (h.pair.live.trans hlive) hq, hid]
  refine ⟨hafter.resembles_enter m role transport transport' peer, ?_⟩
  rw [happen_established hlater hwf hnow, ← hroom.slots.nextId,
    happen_established (hroom.live.trans hlater) (hroom.slots.wellFormed hwf) hnow]
  refine ⟨?_, hwf.enterOpen role transport peer m.now, hafter.outboxes⟩
  exact Pair.Rewired.logAs (hroom.withSlots (hroom.slots.enterOpen hplain role peer m.now))
    (congrArg (LogEntry.connected role · peer) hplain)

theorem Rewired.refused (hnone : ∀ id, .opened id ∉ s.effects m (.connect role transport peer)) (capacity : Nat) :
    (s.happen m (.connect role transport peer) capacity).Rewired
      (t.happen m (.connect role transport' peer) capacity) := by
  refine h.after ?_ (Pair.wellFormed_step h.wellFormed m _) capacity
  by_cases hlive : s.pair.live = true
  · rw [Pair.step_of_live hlive, Pair.step_of_live (h.pair.live.trans hlive)]
    simp only [Pair.handle, Pair.connect_eq]
    rcases h.pair.makeRoom m role with ⟨refusal, hp, hq⟩ | ⟨r, r', hp, hq, hroom⟩
    · rw [hp, hq]
      exact h.pair.logRefusal refusal hudp hudp' peer
    · exact absurd (opened_of_room hlive hp transport peer) (hnone _)
  · have hstep : s.pair.step m (.connect role transport peer) = s.pair := if_neg hlive
    have hstep' : t.pair.step m (.connect role transport' peer) = t.pair := if_neg (h.pair.live ▸ hlive)
    rw [hstep, hstep']
    exact h.pair

end Streams

/-- The slot was opened by the last of some actions, for a peer that came by a stream. -/
def JustOpened (s : Session) (as : List Action) (id : SlotId) : Prop :=
  ∃ before m role transport peer capacity, transport ≠ .udp ∧
    as = before ++ [.event m (.connect role transport peer) capacity] ∧
    .opened id ∈ (s.run before).1.effects m (.connect role transport peer)

theorem JustOpened.cons {s : Session} {a : Action} {as : List Action} {id : SlotId}
    (h : (s.step a).1.JustOpened as id) : s.JustOpened (a :: as) id := by
  obtain ⟨before, m, role, transport, peer, capacity, hudp, rfl, hopened⟩ := h
  exact ⟨a :: before, m, role, transport, peer, capacity, hudp, rfl, hopened⟩

theorem Rewires.resembles {s t : Session} {as bs : List Action} (h : s.Rewires as bs) (hst : s.Rewired t) (n : Nat) :
    (t.run (bs.take n)).2 = (s.run (as.take n)).2 ∧
      (s.run (as.take n)).1.Resembles (s.JustOpened (as.take n)) (t.run (bs.take n)).1 := by
  induction h generalizing t n with
  | nil =>
    rw [List.take_nil]
    exact ⟨rfl, hst.resembles _⟩
  | @same _ a _ _ _ ih =>
    cases n with
    | zero => exact ⟨rfl, hst.resembles _⟩
    | succ n =>
      obtain ⟨hgiven, hstep⟩ := hst.step a
      obtain ⟨hmessages, hsame⟩ := ih hstep n
      exact ⟨congrArg₂ List.cons hgiven hmessages, hsame.mono fun _ hlast => .cons hlast⟩
  | @admitted s m _ role transport _ peer id capacity capacity' _ _ hudp hudp' hopened hnow _ ih =>
    obtain ⟨hopening, hopen⟩ := hst.admitted hudp hudp' hopened hnow capacity capacity'
    rcases n with _ | _ | n
    · exact ⟨rfl, hst.resembles _⟩
    · refine ⟨rfl, hopening.mono ?_⟩
      rintro _ rfl
      exact ⟨[], m, role, transport, peer, capacity, hudp, rfl, hopened⟩
    · obtain ⟨hmessages, hsame⟩ := ih hopen n
      exact ⟨congrArg ([] :: [] :: ·) hmessages, hsame.mono fun _ hlast => .cons (.cons hlast)⟩
  | @refused _ _ _ _ _ _ capacity _ _ hudp hudp' hnone _ ih =>
    cases n with
    | zero => exact ⟨rfl, hst.resembles _⟩
    | succ n =>
      obtain ⟨hmessages, hsame⟩ := ih (hst.refused hudp hudp' hnone capacity) n
      exact ⟨congrArg ([] :: ·) hmessages, hsame.mono fun _ hlast => .cons hlast⟩

/-- After any number of actions nobody can tell by which streams the peers have come: the slots have the same ids, trust
and tallies, and the same states unless one has just been opened, they have been sent the same messages, of which the
peers have taken the same, and the key and what is stored are the same. -/
theorem transports_unobservable (c : Pair.Setup) {as bs : List Action} (h : Rewires ⟨c.pair, {}⟩ as bs) (n : Nat) :
    (run ⟨c.pair, {}⟩ (bs.take n)).2 = (run ⟨c.pair, {}⟩ (as.take n)).2 ∧
      (run ⟨c.pair, {}⟩ (as.take n)).1.Resembles (JustOpened ⟨c.pair, {}⟩ (as.take n))
        (run ⟨c.pair, {}⟩ (bs.take n)).1 := by
  have hstart : Rewired ⟨c.pair, {}⟩ ⟨c.pair, {}⟩ :=
    ⟨⟨_, _, rfl, rfl, rfl⟩, ⟨List.nodup_nil, fun s hs => absurd hs List.not_mem_nil⟩, rfl⟩
  exact h.resembles hstart n

/-- A user and an engineer, who takes the user's heartbeat, and another engineer, who is refused. -/
def heartbeatOver (transport : Transport) : List Action :=
  [.event ⟨0, 0⟩ (.connect .user transport "user") 4, .event ⟨0, 0⟩ (.established 1) 4,
    .event ⟨1, 0⟩ (.connect .engineer transport "engineer") 4, .event ⟨1, 0⟩ (.established 2) 4,
    .event ⟨2, 0⟩ (.connect .engineer transport "another") 4, .event ⟨3, 0⟩ (.frames 1 [Pair.heartbeat]) 4, .take 2]

/-- The user's slot is not open before its handshake is reported.  Then all goes as it does without a handshake. -/
theorem transports_unobservable_heartbeat :
    Rewires ⟨Pair.Setup.recorded.pair, {}⟩ (heartbeatOver .tcp) (heartbeatOver .secureWebSocket) ∧
      (run ⟨Pair.Setup.recorded.pair, {}⟩ ((heartbeatOver .secureWebSocket).take 1)).1.pair.states = [.new] ∧
      (run ⟨Pair.Setup.recorded.pair, {}⟩ (heartbeatOver .secureWebSocket)).1.pair.states = [.active, .established] ∧
      (run ⟨Pair.Setup.recorded.pair, {}⟩ (heartbeatOver .secureWebSocket)).2.map List.length =
        [0, 0, 0, 0, 0, 0, 1] := by
  have hrefused : (run ⟨Pair.Setup.recorded.pair, {}⟩ ((heartbeatOver .tcp).take 4)).1.effects ⟨2, 0⟩
      (.connect .engineer .tcp "another") = [.logged (.refused .engineerLimit .tcp)] := by decide +kernel
  have hnone (id : SlotId) : .opened id ∉ (run ⟨Pair.Setup.recorded.pair, {}⟩ ((heartbeatOver .tcp).take 4)).1.effects
      ⟨2, 0⟩ (.connect .engineer .tcp "another") := by simp [hrefused]
  have hrewires : Rewires ⟨Pair.Setup.recorded.pair, {}⟩ (heartbeatOver .tcp) (heartbeatOver .secureWebSocket) := by
    refine .admitted (by decide) (by decide) ?_ rfl (.admitted (by decide) (by decide) ?_ rfl
      (.refused (by decide) (by decide) hnone (.same (.same (.nil _)))))
    · decide +kernel
    · decide +kernel
  obtain ⟨hmessages, hsame⟩ := transports_unobservable Pair.Setup.recorded hrewires 7
  have hlast (id : SlotId) : ¬JustOpened ⟨Pair.Setup.recorded.pair, {}⟩ ((heartbeatOver .tcp).take 7) id := by
    rintro ⟨before, _, _, _, _, _, _, heq, _⟩
    have htake := congrArg List.getLast? heq
    rw [List.getLast?_concat] at htake
    cases htake
  refine ⟨hrewires, by decide +kernel, ?_, ?_⟩
  · exact (hsame.states hlast).trans (by decide +kernel)
  · exact (congrArg (List.map List.length) hmessages).trans (by decide +kernel)

end Session

end GatedRelay
