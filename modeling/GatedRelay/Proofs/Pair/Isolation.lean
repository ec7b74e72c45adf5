import GatedRelay.Proofs.Pair.Sending

/-!
# A slow peer is on its own

Two courses of a pair have the same events and differ at one slot: in the capacity of its outbox, in when its peer takes
messages, and in whether the peer goes away.  What is queued to that slot may be lost in one of them and not in the
other.  Nobody else notices (`peers_isolated`).
-/

set_option autoImplicit false

namespace GatedRelay

namespace Outboxes

theorem receive_fst (o : Outboxes) (id : SlotId) (count : Nat) :
    (o.receive id count).1 = (Outbox.waiting (o.find? id)).take count := by
  unfold receive
  cases o.find? id with
  | none => exact List.take_nil.symm
  | some b => rfl

theorem find?_receive (o : Outboxes) (id slot : SlotId) (count : Nat) :
    (o.receive slot count).2.find? id =
      if slot = id then (o.find? id).map fun b => { b with queue := b.queue.drop count } else o.find? id := by
  unfold receive
  cases hb : o.find? slot with
  | none =>
    by_cases hid : slot = id
    · subst hid
      simp [hb]
    · simp [hid]
  | some b =>
    simp only [find?_modify]
    by_cases hid : slot = id
    · subst hid
      simp [hb]
    · simp [hid]

/-- The capacity of new outboxes does not matter to a slot that is not opened. -/
theorem foldl_applyAt_of_not_opened {id : SlotId} {es : List Effect} (h : Effect.opened id ∉ es)
    (capacity capacity' : Nat) (b : Option Outbox) :
    es.foldl (applyAt capacity' id) b = es.foldl (applyAt capacity id) b := by
  induction es generalizing b with
  | nil => rfl
  | cons e rest ih =>
    rw [List.mem_cons, not_or] at h
    have hfirst : applyAt capacity' id b e = applyAt capacity id b e := by
      cases e with
      | opened slot =>
        have hne : slot ≠ id := fun heq => h.1 (heq ▸ rfl)
        simp only [applyAt, if_neg hne]
      | queued | released | logged => rfl
    rw [List.foldl_cons, List.foldl_cons, hfirst]
    exact ih h.2 _

end Outboxes

namespace Wired

/-! ## Courses that differ at one slot -/

inductive Action.OfPeer (slot : SlotId) : Action → Prop where
  | receive (count : Nat) : OfPeer slot (.receive slot count)
  | abandon : OfPeer slot (.abandon slot)

/-- The same events in both courses, and the same actions of the peers of all other slots in between. -/
inductive DifferAt (slot : SlotId) : Pair → List Action → List Action → Prop where
  | nil (p : Pair) : DifferAt slot p [] []
  | event {p : Pair} {m : Moment} {e : Event} {capacity capacity' : Nat} {as bs : List Action}
      (hcapacity : capacity' = capacity ∨ ∀ id, Effect.opened id ∈ (p.step m e).effectsSince p → id = slot)
      (h : DifferAt slot (p.step m e) as bs) :
      DifferAt slot p (.event m e capacity :: as) (.event m e capacity' :: bs)
  | peer {p : Pair} {id : SlotId} {a : Action} {as bs : List Action} (ha : a.OfPeer id) (h : DifferAt slot p as bs) :
      DifferAt slot p (a :: as) (a :: bs)
  | left {p : Pair} {a : Action} {as bs : List Action} (ha : a.OfPeer slot) (h : DifferAt slot p as bs) :
      DifferAt slot p (a :: as) bs
  | right {p : Pair} {a : Action} {as bs : List Action} (ha : a.OfPeer slot) (h : DifferAt slot p as bs) :
      DifferAt slot p as (a :: bs)

def pairs (w : Wired) : List Action → List Pair
  | [] => []
  | a :: rest =>
    (match a with
      | .event .. => [(w.step a).1.pair]
      | _ => []) ++ (w.step a).1.pairs rest

/-- What the peer of a slot gets each time it takes messages. -/
def receipts (w : Wired) (id : SlotId) : List Action → List (List Bytes)
  | [] => []
  | a :: rest =>
    (match a with
      | .receive slot _ => if slot = id then [(w.step a).2] else []
      | _ => []) ++ (w.step a).1.receipts id rest

structure Beside (slot : SlotId) (v w : Wired) : Prop where
  pair : w.pair = v.pair
  outboxes : ∀ id, id ≠ slot → w.outboxes.find? id = v.outboxes.find? id

variable {slot id : SlotId} {v w : Wired} {a : Action}

theorem Beside.refl (slot : SlotId) (w : Wired) : w.Beside slot w := ⟨rfl, fun _ _ => rfl⟩

theorem Beside.symm (h : v.Beside slot w) : w.Beside slot v :=
  ⟨h.pair.symm, fun id hid => (h.outboxes id hid).symm⟩

/-! ## One action -/

theorem find?_happen (w : Wired) (capacity : Nat) (m : Moment) (e : Event) (id : SlotId) :
    (w.happen capacity m e).outboxes.find? id =
      ((w.pair.step m e).effectsSince w.pair).foldl (Outboxes.applyAt capacity id) (w.outboxes.find? id) := by
  have hsession := congrArg Session.outboxes (toSession_happen capacity w m e)
  rw [hsession]
  exact Outboxes.find?_applyEach capacity w.outboxes _ id

theorem Beside.happen (h : v.Beside slot w) {m : Moment} {e : Event} {capacity capacity' : Nat}
    (hcapacity : capacity' = capacity ∨ ∀ id, Effect.opened id ∈ (v.pair.step m e).effectsSince v.pair → id = slot) :
    (v.happen capacity m e).Beside slot (w.happen capacity' m e) := by
  constructor
  · rw [(carries_happen capacity' w m e).pair, (carries_happen capacity v m e).pair, h.pair]
  · intro id hid
    rw [find?_happen, find?_happen, h.pair, h.outboxes id hid]
    rcases hcapacity with rfl | hopened
    · rfl
    · exact Outboxes.foldl_applyAt_of_not_opened (fun hmem => hid (hopened id hmem)) capacity capacity' _

theorem pair_step_of_peer (w : Wired) (ha : a.OfPeer id) : (w.step a).1.pair = w.pair := by
  cases ha with
  | receive | abandon => rfl

theorem find?_step_of_peer (w : Wired) (ha : a.OfPeer slot) (hne : id ≠ slot) :
    (w.step a).1.outboxes.find? id = w.outboxes.find? id := by
  cases ha with
  | receive count => exact (w.outboxes.find?_receive id slot count).trans (if_neg hne.symm)
  | abandon => exact (w.outboxes.find?_modify id slot _).trans (if_neg hne.symm)

theorem Beside.left (h : v.Beside slot w) (ha : a.OfPeer slot) : (v.step a).1.Beside slot w := by
  constructor
  · rw [pair_step_of_peer v ha, h.pair]
  · intro id hid
    rw [find?_step_of_peer v ha hid, h.outboxes id hid]

theorem Beside.right (h : v.Beside slot w) (ha : a.OfPeer slot) : v.Beside slot (w.step a).1 := (h.symm.left ha).symm

theorem Beside.peer (h : v.Beside slot w) (ha : a.OfPeer id) : (v.step a).1.Beside slot (w.step a).1 := by
  constructor
  · rw [pair_step_of_peer v ha, pair_step_of_peer w ha, h.pair]
  · intro id' hid'
    cases ha with
    | receive count =>
      simp only [step, Outboxes.find?_receive, h.outboxes id' hid']
    | abandon =>
      simp only [step, Outboxes.find?_modify, h.outboxes id' hid']

theorem Beside.snd_step (h : v.Beside slot w) (ha : a.OfPeer id) (hne : id ≠ slot) : (w.step a).2 = (v.step a).2 := by
  cases ha with
  | receive count => simp only [step, Outboxes.receive_fst, h.outboxes id hne]
  | abandon => rfl

/-! ## Whole courses -/

theorem pairs_of_peer (w : Wired) (ha : a.OfPeer id) (rest : List Action) :
    w.pairs (a :: rest) = (w.step a).1.pairs rest := by
  cases ha with
  | receive | abandon => rfl

theorem receipts_of_peer (w : Wired) (ha : a.OfPeer slot) (hne : id ≠ slot) (rest : List Action) :
    w.receipts id (a :: rest) = (w.step a).1.receipts id rest := by
  cases ha with
  | receive count =>
    simp only [receipts, if_neg hne.symm]
    rfl
  | abandon => rfl

/-- From states that differ at one slot, courses that differ at this slot lead through the same pairs.  The peers of all
other slots take the same messages each time, and the same are left for them. -/
theorem peers_isolated (h : v.Beside slot w) {as bs : List Action} (hdiffer : DifferAt slot v.pair as bs) :
    w.pairs bs = v.pairs as ∧ (∀ id, id ≠ slot → w.receipts id bs = v.receipts id as) ∧
      (v.run as).1.Beside slot (w.run bs).1 := by
  generalize hp : v.pair = p at hdiffer
  -- The induction is on the pair of courses; `Beside` is what both states keep.
  induction hdiffer generalizing v w with
  | nil => exact ⟨rfl, fun _ _ => rfl, h⟩
  | @event p m e capacity capacity' as bs hcapacity _ ih =>
    subst hp
    have hnext := h.happen hcapacity
    obtain ⟨hpairs, hreceipts, hend⟩ := ih hnext (carries_happen capacity v m e).pair
    refine ⟨?_, hreceipts, hend⟩
    exact congrArg₂ (fun p later => [p] ++ later) hnext.pair hpairs
  | @peer p id a as bs ha _ ih =>
    obtain ⟨hpairs, hreceipts, hend⟩ := ih (h.peer ha) ((pair_step_of_peer v ha).trans hp)
    refine ⟨?_, ?_, hend⟩
    · rw [pairs_of_peer w ha, pairs_of_peer v ha, hpairs]
    · intro other hother
      -- At the slot itself the two peers may take different messages, but it is not the other one.
      by_cases hid : id = slot
      · subst hid
        rw [receipts_of_peer w ha hother, receipts_of_peer v ha hother, hreceipts other hother]
      · simp only [receipts, h.snd_step ha hid, hreceipts other hother]
  | @left p a as bs ha _ ih =>
    obtain ⟨hpairs, hreceipts, hend⟩ := ih (h.left ha) ((pair_step_of_peer v ha).trans hp)
    refine ⟨?_, ?_, hend⟩
    · rw [pairs_of_peer v ha, hpairs]
    · intro other hother
      rw [receipts_of_peer v ha hother, hreceipts other hother]
  | @right p a as bs ha _ ih =>
    obtain ⟨hpairs, hreceipts, hend⟩ := ih (h.right ha) hp
    refine ⟨?_, ?_, hend⟩
    · rw [pairs_of_peer w ha, hpairs]
    · intro other hother
      rw [receipts_of_peer w ha hother, hreceipts other hother]

def twoEngineers : Wired := ⟨⟨{ Pair.Setup.offline none with maxEngineers := 2 }.pair, {}⟩, []⟩

/-- A user and two engineers.  The first engineer has an outbox of this capacity and does these things; the second one
and the user take what the others have sent. -/
def unevenRun (capacity : Nat) (first : List Action) : List Action :=
  .event ⟨0, 0⟩ (.connect .user .tcp "user") 4 ::
    .event ⟨1, 0⟩ (.connect .engineer .tcp "engineer") capacity :: (first ++
      [.event ⟨2, 0⟩ (.connect .engineer .tcp "another engineer") 4, .event ⟨3, 0⟩ (.frames 1 [Pair.heartbeat]) 4,
        .event ⟨4, 0⟩ (.frames 2 [Pair.heartbeat]) 4, .receive 3 1, .receive 1 1])

theorem differAt_unevenRun : DifferAt 2 twoEngineers.pair (unevenRun 64 []) (unevenRun 0 [.abandon 2]) := by
  let p := twoEngineers.pair.step ⟨0, 0⟩ (.connect .user .tcp "user")
  have heffects : (p.step ⟨1, 0⟩ (.connect .engineer .tcp "engineer")).effectsSince p =
      [.opened 2, .logged .keyNotLoaded, .logged (.connected .engineer .tcp "engineer")] := rfl
  have hopened (id : SlotId)
      (h : Effect.opened id ∈ (p.step ⟨1, 0⟩ (.connect .engineer .tcp "engineer")).effectsSince p) : id = 2 := by
    rw [heffects] at h
    simpa using h
  exact .event (.inl rfl) (.event (.inr hopened) (.right .abandon (.event (.inl rfl) (.event (.inl rfl)
    (.event (.inl rfl) (.peer (.receive 1) (.peer (.receive 1) (.nil _))))))))

theorem peers_isolated_unevenRun :
    twoEngineers.Beside 2 twoEngineers ∧
      DifferAt 2 twoEngineers.pair (unevenRun 64 []) (unevenRun 0 [.abandon 2]) ∧
      twoEngineers.pairs (unevenRun 0 [.abandon 2]) = twoEngineers.pairs (unevenRun 64 []) ∧
      twoEngineers.receipts 3 (unevenRun 0 [.abandon 2]) = [[Pair.heartbeat.bytes]] ∧
      twoEngineers.receipts 1 (unevenRun 0 [.abandon 2]) = [[Pair.heartbeat.withoutSignature.bytes]] := by
  obtain ⟨hpairs, hreceipts, _⟩ := peers_isolated (.refl 2 twoEngineers) differAt_unevenRun
  refine ⟨.refl 2 twoEngineers, differAt_unevenRun, hpairs, ?_, ?_⟩
  · rw [hreceipts 3 (by decide)]
    rfl
  · rw [hreceipts 1 (by decide)]
    rfl

end Wired

end GatedRelay
