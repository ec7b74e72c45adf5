import GatedRelay.Proofs.Pair.Leaving
import GatedRelay.Proofs.Pair.Seats

/-!
# The order of the slots does not show

A table of slots may be gone through in any order, and in another one the next time.  Every move takes two orders of one
table to two orders of one table, with the same key and the same store, and has the same effects on each slot.  By
induction a run in which the slots change places before any move cannot be told from one in which they never do: the
peers take the same messages (`slot_order_unobservable`).
-/

set_option autoImplicit false

namespace GatedRelay

namespace Pair

section Operations

variable {p q : Pair} (h : p.Shuffled q)

include h

theorem Shuffled.finishSlot (s : Slot) : (p.finishSlot s).Shuffled (q.finishSlot s) := by
  rw [finishSlot_eq, finishSlot_eq, h.slots.engineerCount]
  exact (h.leave s).saveIf unseen_shuffled _

theorem Shuffled.closeSlot (id : SlotId) : (p.closeSlot id).Shuffled (q.closeSlot id) := by
  obtain ⟨hsame, hclosed⟩ := h.slots.close id
  unfold Pair.closeSlot
  cases hp : p.slots.close id with
  | mk t gone =>
    cases hq : q.slots.close id with
    | mk t' gone' =>
      rw [hp, hq] at hsame hclosed
      obtain rfl : gone' = gone := hsame
      cases gone' with
      | none => exact h
      | some s => exact Shuffled.finishSlot (h.withSlots hclosed) s

theorem Shuffled.closeSlots {ids ids' : List SlotId} (hids : ids'.Perm ids) :
    (p.closeSlots ids).Shuffled (q.closeSlots ids') := by
  refine Shuffled.foldl (fun _ _ => True) (fun _ _ h => h) (fun id h => h.closeSlot id) ?_ hids.symm ?_ h
  · intro p x y hp _
    exact closeSlot_comm hp x y
  · exact List.pairwise_of_forall fun _ _ => trivial

theorem Shuffled.finishEach {closed closed' : List Slot} (hclosed : closed'.Perm closed)
    (hids : closed.Pairwise fun s s' => s.id ≠ s'.id) :
    (closed.foldl Pair.finishSlot p).Shuffled (closed'.foldl Pair.finishSlot q) := by
  refine Shuffled.foldl (fun s s' => s.id ≠ s'.id) (fun _ _ h => h.symm) (fun s h => h.finishSlot s) ?_ hclosed.symm hids h
  intro p s s' hp hne
  simp only [finishSlot_eq, slots_saveIf, slots_leave]
  exact leave_swap hp hne (or_comm)

theorem Shuffled.sweep (m : Moment) : (p.sweep m).Shuffled (q.sweep m) := by
  have hclosed := h.closeSlots (h.slots.expired m.now p.idleTimeout)
  unfold Pair.sweep
  simp only [h.idleTimeout, hclosed.slots.engineerCount]
  split
  · rw [hclosed.key]
    exact hclosed.withKey _
  · exact hclosed

theorem Shuffled.shutdownIn {ids : List SlotId} (hids : ids.Perm q.slots.ids) :
    p.shutdown.Shuffled (q.shutdownIn ids) := by
  obtain ⟨hempty, hclosed⟩ := h.slots.closeEach_ids hids
  have hapart : (p.slots.closeEach p.slots.ids).2.Pairwise fun s s' => s.id ≠ s'.id := by
    rw [h.slots.orderly.wellFormed.closeEach_ids, List.pairwise_map]
    refine (List.pairwise_map.mp h.slots.orderly.wellFormed.nodup).imp fun {s s'} hne => ?_
    rwa [((Slot.Continues.refl s).advance .closed).id, ((Slot.Continues.refl s').advance .closed).id]
  have hfinished := Shuffled.finishEach (h.withSlots hempty) hclosed hapart
  exact (hfinished.saveClock unseen_shuffled).withLive false

theorem Shuffled.connect (m : Moment) (role : Role) (transport : Transport) (peer : Peer) :
    (q.connect m role transport peer).2 = (p.connect m role transport peer).2 ∧
      (p.connect m role transport peer).1.Shuffled (q.connect m role transport peer).1 := by
  rcases h.slots.accept role transport peer m.now with ⟨refusal, hp, hq⟩ | ⟨room, room', gone, hp, hq, hroom⟩
  · rw [connect_of_refused hp, connect_of_refused hq]
    exact ⟨rfl, h.logRefusal unseen_shuffled refusal transport peer⟩
  · have hopened := (h.withSlots hroom).emit unseen_shuffled (.opened p.slots.nextId)
    have hadmitted {p₁ q₁ : Pair} (h₁ : p₁.Shuffled q₁) : Shuffled
        ((if role = .engineer ∧ p.slots.engineerCount = 0 then p₁.reloadKey m else p₁).logConnected role transport peer)
        ((if role = .engineer ∧ p.slots.engineerCount = 0 then q₁.reloadKey m else q₁).logConnected role transport
          peer) := by
      refine DiffersBy.logConnected unseen_shuffled ?_ role transport peer
      split
      · exact h₁.reloadKey unseen_shuffled m
      · exact h₁
    unfold Pair.connect
    rw [hp, hq]
    simp only [h.slots.engineerCount, true_and]
    cases gone with
    | none => exact hadmitted hopened
    | some s => exact hadmitted (Shuffled.finishSlot hopened s)

theorem Shuffled.established (m : Moment) (id : SlotId) : (p.established m id).Shuffled (q.established m id) := by
  unfold Pair.established
  rw [h.slots.find? id]
  split
  · exact h
  · split
    · refine (h.withSlots (h.slots.modify id fun s => ?_)).log unseen_shuffled _
      exact ((Slot.Continues.refl s).advance .established).seat
    · exact h

theorem Shuffled.recipients (f : Frame) : (q.recipients f).Perm (p.recipients f) := h.slots.engineers.filter _

theorem Shuffled.userFrame (f : Frame) : (p.fromUser f).Shuffled (q.fromUser f) := by
  have hrecipients := h.recipients f
  have hids : ((p.recipients f).map (·.id)).Nodup :=
    h.slots.orderly.wellFormed.nodup.sublist ((List.filter_sublist.trans List.filter_sublist).map _)
  refine h.fromUser f ?_ (Effect.Interleaved.append (.of_perm ?_ ?_) h.history)
  · rw [← List.length_eq_zero_iff, ← List.length_eq_zero_iff, hrecipients.length_eq]
  · exact (List.reverse_perm _).trans ((hrecipients.map _).trans (List.reverse_perm _).symm)
  · rw [List.map_reverse, List.nodup_reverse, List.map_map]
    have hslots := hids.map fun _ _ => Option.some.inj
    rwa [List.map_map] at hslots

/-- No move shows in which order the slots stand. -/
theorem Shuffled.act (b : Moment × Move) : (p.act b).Shuffled (q.act b) := by
  obtain ⟨m, move⟩ := b
  cases move with
  | connect role transport peer => exact (h.connect m role transport peer).2
  | refuse peer =>
    simp only [Pair.act, h.refused]
    exact h.withRefused _
  | welcome peer =>
    simp only [Pair.act, h.refused]
    exact h.withRefused _
  | established id => exact h.established m id
  | arrival id count => exact h.withSlots (h.slots.modify id fun s => (received_continues s m.now count).1.seat)
  | userFrame f => exact h.userFrame f
  | engineerFrame id f => exact h.fromEngineer unseen_shuffled m id f
  | disconnected id => exact h.closeSlot id
  | sweep => exact h.sweep m
  | quit => exact h.shutdownIn (.refl _)
  | storeChange change =>
    simp only [Pair.act, h.store]
    exact h.withStore _

theorem Shuffled.batch (id : SlotId) (frames : List Frame) : q.batch id frames = p.batch id frames := by
  unfold Pair.batch
  rw [h.slots.find? id]

/-- An event comes to the same moves, for datagrams if no peer has two slots for them in one role. -/
theorem Shuffled.moves (hdistinct : p.slots.Distinct) (m : Moment) (e : Event) : q.moves m e = p.moves m e := by
  have hlive : q.liveMoves m e = p.liveMoves m e := by
    cases e with
    | frames id frames => exact h.batch id frames
    | datagram role peer frames =>
      have hudp : q.slots.findUdp? role peer = p.slots.findUdp? role peer := by
        apply find?_perm h.slots.perm
        intro a ha b hb hfound hfound'
        simp only [Bool.and_eq_true, decide_eq_true_eq] at hfound hfound'
        obtain ⟨⟨hrole, hudp⟩, hpeer⟩ := hfound
        obtain ⟨⟨hrole', hudp'⟩, hpeer'⟩ := hfound'
        exact hdistinct.eq ha hb hudp hudp' (hrole.trans hrole'.symm) (hpeer.trans hpeer'.symm)
      obtain ⟨hid, hconnected⟩ := h.connect m role .udp peer
      simp only [Pair.liveMoves, hudp, h.refused, h.slots.hasRoom]
      split
      · exact h.batch _ frames
      · split
        · rfl
        · cases hp : p.connect m role .udp peer with
          | mk p' id =>
            cases hq : q.connect m role .udp peer with
            | mk q' id' =>
              rw [hp, hq] at hid hconnected
              obtain rfl : id' = id := hid
              cases id' with
              | none => rfl
              | some id => exact congrArg (.connect role .udp peer :: .welcome peer :: ·) (hconnected.batch id frames)
    | _ => rfl
  unfold Pair.moves
  rw [h.live, hlive]

end Operations

/-! ## Runs -/

def withOrder (p : Pair) (slots : List Slot) : Pair := { p with slots := { p.slots with slots := slots } }

/-- What a pair may come to by some moves if its slots change places at any time. -/
inductive Unordered : Pair → List (Moment × Move) → Pair → Prop where
  | done (p : Pair) : Unordered p [] p
  | reorder {p q : Pair} {moves : List (Moment × Move)} {slots : List Slot} (hslots : slots.Perm p.slots.slots)
      (h : Unordered (p.withOrder slots) moves q) : Unordered p moves q
  | move {p q : Pair} {b : Moment × Move} {rest : List (Moment × Move)} (h : Unordered (p.act b) rest q) :
      Unordered p (b :: rest) q

theorem unordered_replay (p : Pair) (moves : List (Moment × Move)) : p.Unordered moves (p.replay moves) := by
  induction moves generalizing p with
  | nil => exact .done p
  | cons b rest ih => exact .move (ih (p.act b))

theorem Shuffled.withOrder {p q : Pair} (h : p.Shuffled q) {slots : List Slot} (hslots : slots.Perm q.slots.slots) :
    p.Shuffled (q.withOrder slots) :=
  h.trans ⟨_, _, rfl, .of_perm h.symm.slots.orderly hslots, .refl _⟩

theorem Unordered.shuffled {p p' q : Pair} {moves : List (Moment × Move)} (h : p'.Unordered moves q)
    (hp : p.Shuffled p') : (p.replay moves).Shuffled q := by
  induction h generalizing p with
  | done => exact hp
  | reorder hslots _ ih => exact ih (hp.withOrder hslots)
  | @move p' _ b _ _ ih => exact ih (hp.act b)

theorem Unordered.history {p q : Pair} {moves : List (Moment × Move)} (h : p.Unordered moves q) :
    ∃ es, q.history = es ++ p.history := by
  induction h with
  | done => exact ⟨[], rfl⟩
  | reorder _ _ ih => exact ih
  | @move p _ b _ _ ih =>
    obtain ⟨es, hes, _⟩ := p.history_act b
    obtain ⟨es', hes'⟩ := ih
    exact ⟨es' ++ es, by rw [hes', hes, List.append_assoc]⟩

/-! ## Sweeping and stopping -/

theorem slots_sweep {p : Pair} (h : p.slots.WellFormed) (m : Moment) :
    (p.sweep m).slots.slots = p.slots.slots.filter fun s => s.idleFor m.now < p.idleTimeout := by
  obtain ⟨q, key, hq, hsweep, _⟩ := p.sweep_cases m
  rw [hsweep]
  simp only [hq.slots]
  exact h.slots_without_expired m.now p.idleTimeout

theorem onSlot_sweep {p : Pair} (h : p.slots.WellFormed) (m : Moment) {id : SlotId}
    (hid : id ∈ (p.sweep m).slots.ids) : Effect.onSlot id ((p.sweep m).effectsSince p) = [] := by
  obtain ⟨due, hsettles, hshares⟩ := settles_sweep h m
  obtain ⟨es, hes, hreleases⟩ := hsettles.history
  obtain ⟨q, key, hq, hsweep, _⟩ := p.sweep_cases m
  obtain ⟨es', hes', hquiet⟩ := hq.history
  have hsame : es = es' := by
    rw [hsweep] at hes
    exact List.append_cancel_right (hes.symm.trans hes')
  have hnodup := (hshares.map Share.id).nodup_iff.mpr (by rw [SlotTable.map_id_shares]; exact h.nodup)
  rw [List.map_append, SlotTable.map_id_shares] at hnodup
  have hkept : id ∉ Effect.releases es := by
    rw [hreleases, List.mem_reverse]
    exact fun hdue => (List.nodup_append.mp hnodup).2.2 id hid id hdue rfl
  rw [effectsSince_of_append hes, Effect.onSlot, List.filter_reverse, List.reverse_eq_nil_iff]
  exact Effect.onSlot_of_quiet (hsame ▸ hquiet) hkept

theorem history_shutdownIn (p : Pair) (ids : List SlotId) :
    ∃ es, (p.shutdownIn ids).history = es ++ p.history ∧
      Effect.releases es = (((p.slots.closeEach ids).2.map Slot.share).map Share.id).reverse := by
  let emptied : Pair := { p with slots := (p.slots.closeEach ids).1 }
  have hfinished := emptied.settles_finishEach (p.slots.closeEach ids).2
  exact (hfinished.then (settles_saveClock _)).history

theorem releases_shutdownIn {p : Pair} (h : p.slots.WellFormed) {ids : List SlotId} (hids : ids.Perm p.slots.ids) :
    Effect.releases ((p.shutdownIn ids).effectsSince p) = ids := by
  obtain ⟨es, hes, hreleases⟩ := p.history_shutdownIn ids
  have hshares : ((p.slots.closeEach ids).2.map Slot.share).map Share.id = ids := by
    rw [List.map_map]
    exact h.map_id_closeEach (hids.nodup_iff.mpr h.nodup) fun _ hid => hids.subset hid
  rw [hshares] at hreleases
  rw [effectsSince_of_append hes, Effect.releases, List.filterMap_reverse, ← Effect.releases, hreleases,
    List.reverse_reverse]

theorem slots_shutdownIn (p : Pair) {ids : List SlotId} (hids : ids.Perm p.slots.ids) :
    (p.shutdownIn ids).slots.slots = [] := by
  have hslots : (p.shutdownIn ids).slots = p.slots.without ids := by
    have hsaved := (booked_finishEach { p with slots := (p.slots.closeEach ids).1 } (p.slots.closeEach ids).2).trans
      (booked_saveClock _)
    exact hsaved.slots.trans (p.slots.closeEach_fst ids)
  rw [hslots, SlotTable.without, List.filter_eq_nil_iff]
  intro s hs
  simpa using hids.symm.subset (List.mem_map_of_mem hs)

end Pair

/-! ## Sessions -/

namespace Session

/-- What a session may come to by some actions, and what every one of them may give, if the slots of the pair change
places at any time. -/
inductive Unordered : Session → List Action → Session → List (List Bytes) → Prop where
  | done (s : Session) : Unordered s [] s []
  | event {s t : Session} {m : Moment} {e : Event} {capacity : Nat} {p : Pair} {rest : List Action}
      {messages : List (List Bytes)} (hpair : s.pair.Unordered (s.pair.moves m e) p)
      (h : Unordered ⟨p, s.outboxes.applyEach capacity (p.effectsSince s.pair)⟩ rest t messages) :
      Unordered s (.event m e capacity :: rest) t ([] :: messages)
  | peer {s t : Session} {a : Action} {rest : List Action} {messages : List (List Bytes)}
      (ha : ∀ m e capacity, a ≠ .event m e capacity) (h : Unordered (s.step a).1 rest t messages) :
      Unordered s (a :: rest) t ((s.step a).2 :: messages)

def quitIn (s : Session) (ids : List SlotId) (capacity : Nat) : Session :=
  ⟨s.pair.shutdownIn ids, s.outboxes.applyEach capacity ((s.pair.shutdownIn ids).effectsSince s.pair)⟩

structure Shuffled (s t : Session) : Prop where
  pair : s.pair.Shuffled t.pair
  distinct : s.pair.slots.Distinct
  outboxes : ∀ id, t.outboxes.find? id = s.outboxes.find? id

section Steps

variable {s t : Session} (h : s.Shuffled t)

include h

theorem Shuffled.after {p q : Pair} (hpair : p.Shuffled q) (hdistinct : p.slots.Distinct)
    (hp : ∃ es, p.history = es ++ s.pair.history) (hq : ∃ es, q.history = es ++ t.pair.history) (capacity : Nat) :
    Shuffled ⟨p, s.outboxes.applyEach capacity (p.effectsSince s.pair)⟩
      ⟨q, t.outboxes.applyEach capacity (q.effectsSince t.pair)⟩ := by
  obtain ⟨es, hes⟩ := hp
  obtain ⟨es', hes'⟩ := hq
  have hpast := hpair.history
  rw [hes, hes'] at hpast
  have heffects := (hpast.of_append h.pair.history).reverse
  refine ⟨hpair, hdistinct, fun id => ?_⟩
  rw [Pair.effectsSince_of_append hes, Pair.effectsSince_of_append hes']
  exact Outboxes.find?_applyEach_of_onSlot (h.outboxes id) (heffects.same id) capacity

theorem Shuffled.event (m : Moment) {e : Event} (he : ∀ role peer, e ≠ .connect role .udp peer) (capacity : Nat)
    {q : Pair} (hq : t.pair.Unordered (t.pair.moves m e) q) :
    (s.happen m e capacity).Shuffled ⟨q, t.outboxes.applyEach capacity (q.effectsSince t.pair)⟩ := by
  have hlater := hq.history
  rw [h.pair.moves h.distinct] at hq
  have hpair := hq.shuffled h.pair
  have hhistory := s.pair.history_replay (s.pair.moves m e)
  rw [Pair.replay_moves] at hpair hhistory
  exact h.after hpair (Pair.distinct_step h.distinct m he) hhistory hlater capacity

theorem Shuffled.quitIn {ids : List SlotId} (hids : ids.Perm t.pair.slots.ids) (capacity : Nat) :
    (s.quitIn s.pair.slots.ids capacity).Shuffled (t.quitIn ids capacity) := by
  obtain ⟨es, hes, _⟩ := s.pair.history_shutdownIn s.pair.slots.ids
  obtain ⟨es', hes', _⟩ := t.pair.history_shutdownIn ids
  refine h.after (h.pair.shutdownIn hids) ?_ ⟨es, hes⟩ ⟨es', hes'⟩ capacity
  rw [SlotTable.Distinct, Pair.shutdown, s.pair.slots_shutdownIn (.refl _)]
  exact .nil

theorem Shuffled.peer {a : Action} (ha : ∀ m e capacity, a ≠ .event m e capacity) :
    (t.step a).2 = (s.step a).2 ∧ (s.step a).1.Shuffled (t.step a).1 := by
  cases a with
  | event m e capacity => exact absurd rfl (ha m e capacity)
  | take id =>
    refine ⟨?_, h.pair, h.distinct, fun id' => ?_⟩
    · simp only [step, Outboxes.take, h.outboxes id]
      split
      · rfl
      · rfl
    · simp only [step, Outboxes.find?_take, h.outboxes id']
  | abandon id =>
    refine ⟨rfl, h.pair, h.distinct, fun id' => ?_⟩
    simp only [step, Outboxes.find?_modify, h.outboxes id']

end Steps

theorem Unordered.shuffled {s s' t : Session} {actions : List Action} {messages : List (List Bytes)}
    (h : s'.Unordered actions t messages) (hs : s.Shuffled s')
    (hactions : ∀ m role peer capacity, .event m (.connect role .udp peer) capacity ∉ actions) :
    messages = (s.run actions).2 ∧ (s.run actions).1.Shuffled t := by
  induction h generalizing s with
  | done => exact ⟨rfl, hs⟩
  | @event _ _ m e capacity _ _ _ hpair _ ih =>
    have he : ∀ role peer, e ≠ .connect role .udp peer := by
      rintro role peer rfl
      exact hactions m role peer capacity List.mem_cons_self
    obtain ⟨hmessages, hrest⟩ := ih (hs.event m he capacity hpair) fun m role peer capacity hmem =>
      hactions m role peer capacity (List.mem_cons_of_mem _ hmem)
    exact ⟨congrArg ([] :: ·) hmessages, hrest⟩
  | peer ha _ ih =>
    obtain ⟨hgiven, hstep⟩ := hs.peer ha
    obtain ⟨hmessages, hrest⟩ := ih hstep fun m role peer capacity hmem =>
      hactions m role peer capacity (List.mem_cons_of_mem _ hmem)
    exact ⟨by rw [hgiven, hmessages]; rfl, hrest⟩

/-- Nobody can tell the sessions apart.  They have the same slots, whatever place they stand in, the same key and the same
store, and each slot has the same outbox. -/
structure SameUpToOrder (s t : Session) : Prop where
  slots : t.pair.slots.slots.Perm s.pair.slots.slots
  found : ∀ id, t.pair.slots.find? id = s.pair.slots.find? id
  outboxes : ∀ id, t.outboxes.find? id = s.outboxes.find? id
  pair : t.pair = { s.pair with
    slots := { s.pair.slots with slots := t.pair.slots.slots }
    history := t.pair.history }

theorem SameUpToOrder.record? {s t : Session} (h : s.SameUpToOrder t) : t.pair.record? = s.pair.record? := by
  rw [h.pair]
  rfl

theorem Shuffled.sameUpToOrder {s t : Session} (h : s.Shuffled t) : s.SameUpToOrder t where
  slots := h.pair.slots.perm
  found := h.pair.slots.find?
  outboxes := h.outboxes
  pair := by
    obtain ⟨_, _, heq, _, _⟩ := h.pair
    rw [← h.pair.slots.eq, heq]

theorem outboxes_sweep {s : Session} (h : s.pair.slots.WellFormed) (m : Moment) (capacity : Nat) {id : SlotId}
    (hid : id ∈ (s.pair.sweep m).slots.ids) :
    (s.happen m .sweep capacity).outboxes.find? id = s.outboxes.find? id := by
  have hnone : Effect.onSlot id (s.effects m .sweep) = Effect.onSlot id [] := by
    unfold effects Pair.step
    split
    · exact Pair.onSlot_sweep h m hid
    · rw [Pair.effectsSince_of_append (List.nil_append _).symm]
      rfl
  exact Outboxes.find?_applyEach_of_onSlot (o := s.outboxes) rfl hnone capacity

/-- Whatever order the slots of a pair stand in at any time, its peers take the same messages, and nobody can tell the
sessions apart.  A sweep leaves those slots alone that have not been idle for long enough, and takes the others away.  At
the end all slots are released, in any order, and it does not matter which of them is the last. -/
theorem slot_order_unobservable (c : Pair.Setup) {actions : List Action}
    (hactions : ∀ m role peer capacity, .event m (.connect role .udp peer) capacity ∉ actions) {t : Session}
    {messages : List (List Bytes)} (h : Unordered ⟨c.pair, {}⟩ actions t messages) :
    (messages = (run ⟨c.pair, {}⟩ actions).2 ∧ (run ⟨c.pair, {}⟩ actions).1.SameUpToOrder t) ∧
      (∀ m, (t.pair.sweep m).slots.slots =
          t.pair.slots.slots.filter (fun s => s.idleFor m.now < t.pair.idleTimeout) ∧
        ∀ capacity, ∀ id ∈ (t.pair.sweep m).slots.ids,
          (t.happen m .sweep capacity).outboxes.find? id = t.outboxes.find? id) ∧
      ∀ ids, ids.Perm t.pair.slots.ids →
        (t.pair.shutdownIn ids).slots.slots = [] ∧
        Effect.releases ((t.pair.shutdownIn ids).effectsSince t.pair) = ids ∧
        ∀ capacity, ((run ⟨c.pair, {}⟩ actions).1.quitIn (run ⟨c.pair, {}⟩ actions).1.pair.slots.ids
          capacity).SameUpToOrder (t.quitIn ids capacity) := by
  have hempty : c.pair.slots.Orderly :=
    ⟨⟨List.nodup_nil, fun s hs => absurd hs List.not_mem_nil⟩, fun s hs => absurd hs List.not_mem_nil⟩
  have hstart : Shuffled ⟨c.pair, {}⟩ ⟨c.pair, {}⟩ := ⟨.refl hempty, .nil, fun _ => rfl⟩
  obtain ⟨hmessages, hsame⟩ := h.shuffled hstart hactions
  have hwf := hsame.pair.symm.slots.orderly.wellFormed
  refine ⟨⟨hmessages, hsame.sameUpToOrder⟩, ?_, ?_⟩
  · intro m
    exact ⟨Pair.slots_sweep hwf m, fun capacity id hid => outboxes_sweep hwf m capacity hid⟩
  · intro ids hids
    refine ⟨t.pair.slots_shutdownIn hids, Pair.releases_shutdownIn hwf hids, fun capacity => ?_⟩
    exact (hsame.quitIn hids capacity).sameUpToOrder

def heartbeatForTwo : List Action :=
  [.event ⟨0, 0⟩ (.connect .user .tcp "user") 4, .event ⟨1, 0⟩ (.connect .engineer .tcp "first") 4,
    .event ⟨2, 0⟩ (.connect .engineer .tcp "second") 4, .event ⟨3, 0⟩ (.frames 1 [Pair.heartbeat]) 4, .take 2, .take 3]

def twoEngineers : Pair.Setup := { Pair.Setup.recorded with maxEngineers := 2 }

/-- The slots stand in the opposite order when the user's heartbeat arrives, and the user's is the last to be finished.
Both engineers take the heartbeat, and the record counts it. -/
theorem slot_order_unobservable_reversed :
    (∀ m role peer capacity, .event m (.connect role .udp peer) capacity ∉ heartbeatForTwo) ∧
      ∃ t messages, Unordered ⟨twoEngineers.pair, {}⟩ heartbeatForTwo t messages ∧ t.pair.slots.ids = [3, 2, 1] ∧
        messages.map List.length = [0, 0, 0, 0, 1, 1] ∧
        (t.pair.shutdownIn [2, 3, 1]).record?.map (·.tallies) = some ⟨1, 0, 1⟩ := by
  have hactions : ∀ m role peer capacity, .event m (.connect role .udp peer) capacity ∉ heartbeatForTwo := by
    simp [heartbeatForTwo]
  have hreversed : ∃ t messages, Unordered ⟨twoEngineers.pair, {}⟩ heartbeatForTwo t messages ∧
      t.pair.slots.ids = [3, 2, 1] := by
    refine ⟨_, _, .event (Pair.unordered_replay _ _) (.event (Pair.unordered_replay _ _)
      (.event (Pair.unordered_replay _ _) (.event (.reorder (List.reverse_perm _) (Pair.unordered_replay _ _))
        (.peer nofun (.peer nofun (.done _)))))), ?_⟩
    decide +kernel
  obtain ⟨t, messages, hrun, hids⟩ := hreversed
  obtain ⟨⟨hmessages, _⟩, _, hstopped⟩ := slot_order_unobservable twoEngineers hactions hrun
  have hperm : [2, 3, 1].Perm t.pair.slots.ids := by
    rw [hids]
    decide
  obtain ⟨_, _, hsame⟩ := hstopped [2, 3, 1] hperm
  refine ⟨hactions, t, messages, hrun, hids, ?_, ?_⟩
  · rw [hmessages]
    decide +kernel
  · have hrecord : (t.pair.shutdownIn [2, 3, 1]).record? =
        (run ⟨twoEngineers.pair, {}⟩ heartbeatForTwo).1.pair.shutdown.record? := (hsame 4).record?
    rw [hrecord]
    decide +kernel

end Session

end GatedRelay
