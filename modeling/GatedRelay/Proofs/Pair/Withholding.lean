import GatedRelay.Pair.Session
import GatedRelay.Proofs.Pair.Gating
import GatedRelay.Proofs.Pair.History
import GatedRelay.Proofs.Slot.Outbox
import Mathlib.Data.List.Forall2

/-!
# What is withheld does not show

Two sessions take the same course, except that the user sends other frames in the places of frames that are not
heartbeats.  They end with the same pair, and no peer that was never accepted can tell them apart: it is queued the same
messages.  Of the frames in question only their number counts, for each costs the key a tick.
-/

set_option autoImplicit false

namespace GatedRelay

def Frame.Interchangeable (f g : Frame) : Prop :=
  f = g ∨ f.msgId ≠ MessageId.heartbeat ∧ g.msgId ≠ MessageId.heartbeat

inductive Event.Interchanged (p : Pair) : Event → Event → Prop where
  | same (e : Event) : Interchanged p e e
  | frames {id : SlotId} {fs gs : List Frame} (hrole : ∀ s, p.slots.find? id = some s → s.role = .user)
      (h : List.Forall₂ Frame.Interchangeable fs gs) : Interchanged p (.frames id fs) (.frames id gs)
  | datagram (peer : Peer) {fs gs : List Frame} (h : List.Forall₂ Frame.Interchangeable fs gs) :
      Interchanged p (.datagram .user peer fs) (.datagram .user peer gs)

inductive Move.Interchanged : Moment × Move → Moment × Move → Prop where
  | same (b : Moment × Move) : Interchanged b b
  | userFrame (m : Moment) {f g : Frame} (hf : f.msgId ≠ MessageId.heartbeat) (hg : g.msgId ≠ MessageId.heartbeat) :
      Interchanged (m, .userFrame f) (m, .userFrame g)

def Move.sender? : Move → Option SlotId
  | .engineerFrame id _ => some id
  | _ => none

inductive Effect.Alike (P : SlotId → Prop) : Effect → Effect → Prop where
  | same (e : Effect) : Alike P e e
  | queued {id : SlotId} (h : P id) (message message' : Bytes) : Alike P (.queued id message) (.queued id message')

namespace Pair

/-! ## Moves of interchanged events -/

theorem batch_interchanged {p : Pair} {id : SlotId} (hrole : ∀ s, p.slots.find? id = some s → s.role = .user)
    (m : Moment) {fs gs : List Frame} (h : List.Forall₂ Frame.Interchangeable fs gs) :
    List.Forall₂ Move.Interchanged ((p.batch id fs).map (m, ·)) ((p.batch id gs).map (m, ·)) := by
  cases hs : p.slots.find? id with
  | none =>
    simp only [batch, hs]
    exact .nil
  | some s =>
    simp only [batch, hs, hrole s hs, List.map_cons, List.map_map, h.length_eq]
    refine .cons (.same _) ?_
    rw [List.forall₂_map_left_iff, List.forall₂_map_right_iff]
    apply h.imp
    rintro f g (rfl | ⟨hf, hg⟩)
    · exact .same _
    · exact .userFrame m hf hg

theorem liveMoves_interchanged {p : Pair} (hwf : p.slots.WellFormed) (m : Moment) {e e' : Event}
    (h : e.Interchanged p e') :
    List.Forall₂ Move.Interchanged ((p.liveMoves m e).map (m, ·)) ((p.liveMoves m e').map (m, ·)) := by
  have hrefl (moves : List (Moment × Move)) : List.Forall₂ Move.Interchanged moves moves :=
    List.forall₂_same.mpr fun b _ => .same b
  cases h with
  | same => exact hrefl _
  | frames hrole hframes => exact batch_interchanged hrole m hframes
  | datagram peer hframes =>
    simp only [liveMoves]
    cases hudp : p.slots.findUdp? .user peer with
    | some s =>
      have hrole : s.role = .user := by
        have hfound := List.find?_some hudp
        simp only [Bool.and_eq_true, decide_eq_true_eq] at hfound
        exact hfound.1.1
      have hs := hwf.find?_of_mem (List.mem_of_find?_eq_some hudp)
      refine batch_interchanged (fun s' hs' => ?_) m hframes
      obtain rfl := Option.some.inj (hs.symm.trans hs')
      exact hrole
    | none =>
      simp only
      split
      · exact .nil
      · rcases hconnect : p.connect m .user .udp peer with ⟨q, _ | id⟩
        · exact hrefl _
        · obtain ⟨s, hs, hrole⟩ := slot_of_connect hwf hconnect
          refine .cons (.same _) (.cons (.same _) (batch_interchanged (fun s' hs' => ?_) m hframes))
          obtain rfl := Option.some.inj (hs.symm.trans hs')
          exact hrole

theorem moves_interchanged {p : Pair} (hwf : p.slots.WellFormed) (m : Moment) {e e' : Event}
    (h : e.Interchanged p e') : List.Forall₂ Move.Interchanged (p.moves m e) (p.moves m e') := by
  have hstore : e.concernsStore = e'.concernsStore := by
    cases h with
    | same => rfl
    | frames => rfl
    | datagram => rfl
  unfold moves
  rw [hstore]
  split
  · exact liveMoves_interchanged hwf m h
  · exact .nil

/-! ## Two runs -/

structure Alike (P : SlotId → Prop) (p q : Pair) : Prop where
  bare : q.bare = p.bare
  history : List.Forall₂ (Effect.Alike P) p.history q.history

variable {P : SlotId → Prop} {p q : Pair}

theorem Alike.eq (h : Alike P p q) : q = { p with history := q.history } := by
  have hq := q.bare_onto
  rw [h.bare] at hq
  exact hq.symm

theorem Alike.act_same (h : Alike P p q) (b : Moment × Move) : Alike P (p.act b) (q.act b) := by
  rw [p.act_eq_onto, q.act_eq_onto, h.bare]
  exact ⟨rfl, List.rel_append (List.forall₂_same.mpr fun e _ => .same e) h.history⟩

/-- Frames other than heartbeats go to the authenticated engineers, and cost a tick whatever they are. -/
theorem Alike.act_userFrame (h : Alike P p q) (m : Moment) {f g : Frame} (hf : f.msgId ≠ MessageId.heartbeat)
    (hg : g.msgId ≠ MessageId.heartbeat)
    (hP : ∀ s ∈ p.slots.slots, s.role = .engineer → s.trust = .authenticated → P s.id) :
    Alike P (p.act (m, .userFrame f)) (q.act (m, .userFrame g)) := by
  have hq := h.eq
  have hhistory := h.history
  generalize q.history = past at hq hhistory
  subst hq
  have hrecipients : recipients { p with history := past } g = p.recipients f := by
    simp [recipients, hf, hg]
  have hsource : (noteSource { p with history := past } g).userSource = (p.noteSource f).userSource := by
    simp [noteSource, hf, hg]
  -- Signing moves the clock on even if the frame is of a version that cannot be signed.
  have hkey : (outgoing p.key g).1 = (outgoing p.key f).1 := by
    cases p.key with
    | none => rfl
    | some k => rfl
  simp only [act, fromUser_eq, hrecipients, hsource, hkey]
  refine ⟨rfl, List.rel_append (List.rel_reverse ?_) hhistory⟩
  rw [List.forall₂_map_left_iff, List.forall₂_map_right_iff]
  apply List.forall₂_same.mpr
  intro s hs
  obtain ⟨⟨hmem, hrole⟩, _, hheartbeat | htrust⟩ := mem_recipients.mp hs
  · exact absurd hheartbeat hf
  · exact .queued (hP s hmem hrole htrust) _ _

theorem Alike.act (h : Alike P p q) {b b' : Moment × Move} (hb : Move.Interchanged b b')
    (hP : ∀ s ∈ p.slots.slots, s.role = .engineer → s.trust = .authenticated → P s.id) :
    Alike P (p.act b) (q.act b') := by
  cases hb with
  | same => exact h.act_same b
  | userFrame m hf hg => exact h.act_userFrame m hf hg hP

theorem Alike.effectsSince {p' q' : Pair} (h : Alike P p q) (h' : Alike P p' q') :
    List.Forall₂ (Effect.Alike P) (p'.effectsSince p) (q'.effectsSince q) := by
  unfold Pair.effectsSince
  rw [← h.history.length_eq, ← h'.history.length_eq]
  exact List.rel_reverse (List.forall₂_take _ h'.history)

theorem Alike.replay {c : Setup} {moves later later' : List (Moment × Move)}
    (hlater : List.Forall₂ Move.Interchanged later later') (h : Alike P (c.pair.replay moves) q)
    (hP : ∀ front, front <+: moves ++ later → ∀ s ∈ (c.pair.replay front).slots.slots, s.role = .engineer →
      s.trust = .authenticated → P s.id) :
    Alike P (c.pair.replay (moves ++ later)) (q.replay later') := by
  induction hlater generalizing moves q with
  | nil =>
    rw [List.append_nil]
    exact h
  | @cons b b' rest rest' hb _ ih =>
    have hstep := h.act hb (hP moves (List.prefix_append moves _))
    rw [← replay_snoc] at hstep
    rw [List.append_cons] at hP ⊢
    exact ih hstep hP

theorem Alike.step {c : Setup} {moves : List (Moment × Move)} (h : Alike P (c.pair.replay moves) q) (m : Moment)
    {e e' : Event} (he : e.Interchanged (c.pair.replay moves) e')
    (hP : ∀ front, front <+: moves ++ (c.pair.replay moves).moves m e → ∀ s ∈ (c.pair.replay front).slots.slots,
      s.role = .engineer → s.trust = .authenticated → P s.id) :
    Alike P ((c.pair.replay moves).step m e) (q.step m e') := by
  have hmoves := moves_interchanged (wellFormed_replay c moves) m he
  have hsame : q.moves m e' = (c.pair.replay moves).moves m e' := by
    rw [q.moves_bare, h.bare, ← moves_bare]
  rw [← hsame] at hmoves
  rw [← replay_moves, ← replay_moves, ← replay_append]
  exact h.replay hmoves hP

/-- The messages that have been queued to a slot, oldest first. -/
def sentTo (p : Pair) (id : SlotId) : List Bytes :=
  (p.history.filterMap fun
    | .queued slot message => if slot = id then some message else none
    | _ => none).reverse

theorem Alike.sentTo (h : Alike P p q) {id : SlotId} (hid : ¬P id) : q.sentTo id = p.sentTo id := by
  have hhistory := h.history
  unfold Pair.sentTo
  generalize p.history = es at hhistory ⊢
  generalize q.history = es' at hhistory ⊢
  congr 1
  induction hhistory with
  | nil => rfl
  | cons he _ ih =>
    cases he with
    | same e => simp only [List.filterMap_cons, ih]
    | @queued slot hslot message message' =>
      have hne : slot ≠ id := fun heq => hid (heq ▸ hslot)
      simp only [List.filterMap_cons, hne, if_false, ih]

def WasUser (p : Pair) (moves : List (Moment × Move)) (id : SlotId) : Prop :=
  ∃ front s, front <+: moves ∧ s ∈ (p.replay front).slots.slots ∧ s.id = id ∧ s.role = .user

/-- The id of a user is nobody else's, before or after. -/
theorem role_of_wasUser {c : Setup} {moves front : List (Moment × Move)} {id : SlotId} (h : c.pair.WasUser moves id)
    (hfront : front <+: moves) {s : Slot} (hs : s ∈ (c.pair.replay front).slots.slots) (hid : s.id = id) :
    s.role = .user := by
  obtain ⟨front', user, hfront', huser, hid', hrole⟩ := h
  rcases List.prefix_or_prefix_of_prefix hfront' hfront with hpart | hpart
  · obtain ⟨later, rfl⟩ := hpart
    exact (role_of_id huser hs (hid.trans hid'.symm)).trans hrole
  · obtain ⟨later, rfl⟩ := hpart
    exact (role_of_id hs huser (hid'.trans hid.symm)).symm.trans hrole

theorem not_acceptedIn_of_wasUser {c : Setup} {events : List (Moment × Event)} {id : SlotId}
    (h : c.pair.WasUser (c.pair.trace events) id) : ¬c.pair.AcceptedIn (c.pair.trace events) id := by
  rintro ⟨front, ⟨m, move⟩, hfront, _, f, _, hmove, _⟩
  obtain rfl := hmove
  obtain ⟨s, hs, hrole, _⟩ := slot_of_engineerFrame hfront
  obtain ⟨hmem, hid⟩ := SlotTable.mem_of_find? hs
  rw [role_of_wasUser h ((List.prefix_append front _).trans hfront) hmem hid] at hrole
  cases hrole

end Pair

/-! ## Two sessions -/

namespace Session

def events : List Action → List (Moment × Event)
  | [] => []
  | .event m e _ :: rest => (m, e) :: events rest
  | _ :: rest => events rest

inductive Interchanged : Session → List Action → List Action → Prop where
  | nil (s : Session) : Interchanged s [] []
  | event {s : Session} {m : Moment} {e e' : Event} {capacity : Nat} {as bs : List Action}
      (he : e.Interchanged s.pair e') (h : Interchanged (s.happen m e capacity) as bs) :
      Interchanged s (.event m e capacity :: as) (.event m e' capacity :: bs)
  | take {s : Session} {id : SlotId} {as bs : List Action} (h : Interchanged (s.step (.take id)).1 as bs) :
      Interchanged s (.take id :: as) (.take id :: bs)
  | abandon {s : Session} {id : SlotId} {as bs : List Action} (h : Interchanged (s.step (.abandon id)).1 as bs) :
      Interchanged s (.abandon id :: as) (.abandon id :: bs)

structure Alike (P : SlotId → Prop) (s t : Session) : Prop where
  pair : s.pair.Alike P t.pair
  outboxes : ∀ id, ¬P id → t.outboxes.find? id = s.outboxes.find? id

theorem applyAt_alike {P : SlotId → Prop} {es es' : List Effect} (h : List.Forall₂ (Effect.Alike P) es es')
    {id : SlotId} (hid : ¬P id) (capacity : Nat) (b : Option Outbox) :
    es'.foldl (Outboxes.applyAt capacity id) b = es.foldl (Outboxes.applyAt capacity id) b := by
  induction h generalizing b with
  | nil => rfl
  | cons he _ ih =>
    rw [List.foldl_cons, List.foldl_cons, ih]
    cases he with
    | same => rfl
    | @queued slot hslot message message' =>
      have hne : slot ≠ id := fun heq => hid (heq ▸ hslot)
      simp only [Outboxes.applyAt, hne, if_false]

theorem Interchanged.alike {c : Pair.Setup} {P : SlotId → Prop} {s t : Session} {as bs : List Action}
    (h : s.Interchanged as bs) {moves : List (Moment × Move)} (hs : s.pair = c.pair.replay moves) (hst : s.Alike P t)
    (hP : ∀ front, front <+: moves ++ s.pair.trace (events as) → ∀ s' ∈ (c.pair.replay front).slots.slots,
      s'.role = .engineer → s'.trust = .authenticated → P s'.id) :
    (s.run as).1.Alike P (t.run bs).1 := by
  induction h generalizing t moves with
  | nil => exact hst
  | @event s m e e' capacity as bs he _ ih =>
    -- The moves of the event are the next part of the trace, so `hP` covers them.
    have hpair := hst.pair
    rw [events, Pair.trace, ← List.append_assoc] at hP
    have hstep : Pair.Alike P (s.pair.step m e) (t.pair.step m e') := by
      rw [hs] at he hpair hP ⊢
      exact hpair.step m he fun front hfront => hP front (hfront.trans (List.prefix_append _ _))
    have hafter : (s.happen m e capacity).pair = c.pair.replay (moves ++ s.pair.moves m e) := by
      rw [Pair.replay_append, ← hs, Pair.replay_moves]
      rfl
    refine ih hafter ⟨hstep, ?_⟩ hP
    intro id hid
    change (t.outboxes.applyEach capacity (t.effects m e')).find? id =
      (s.outboxes.applyEach capacity (s.effects m e)).find? id
    rw [Outboxes.find?_applyEach, Outboxes.find?_applyEach, hst.outboxes id hid]
    exact applyAt_alike (hpair.effectsSince hstep) hid capacity _
  | @take s slot as bs _ ih =>
    refine ih hs ⟨hst.pair, ?_⟩ hP
    intro id hid
    change (t.outboxes.take slot).2.find? id = (s.outboxes.take slot).2.find? id
    rw [Outboxes.find?_take, Outboxes.find?_take, hst.outboxes id hid]
  | @abandon s slot as bs _ ih =>
    refine ih hs ⟨hst.pair, ?_⟩ hP
    intro id hid
    change (t.outboxes.modify slot (·.abandon)).find? id = (s.outboxes.modify slot (·.abandon)).find? id
    rw [Outboxes.find?_modify, Outboxes.find?_modify, hst.outboxes id hid]

/-- Interchanging withheld frames leaves the pair as it is.  To the user, and to every engineer without an accepted
frame, the same messages are queued, and the same wait. -/
theorem withheld (c : Pair.Setup) {as bs : List Action} (h : Interchanged ⟨c.pair, {}⟩ as bs) :
    (run ⟨c.pair, {}⟩ bs).1.pair =
        { (run ⟨c.pair, {}⟩ as).1.pair with history := (run ⟨c.pair, {}⟩ bs).1.pair.history } ∧
      ∀ id, ¬c.pair.AcceptedIn (c.pair.trace (events as)) id ∨ c.pair.WasUser (c.pair.trace (events as)) id →
        (run ⟨c.pair, {}⟩ bs).1.pair.sentTo id = (run ⟨c.pair, {}⟩ as).1.pair.sentTo id ∧
          (run ⟨c.pair, {}⟩ bs).1.outboxes.find? id = (run ⟨c.pair, {}⟩ as).1.outboxes.find? id := by
  have hstart : Alike (c.pair.AcceptedIn (c.pair.trace (events as))) ⟨c.pair, {}⟩ ⟨c.pair, {}⟩ :=
    ⟨⟨rfl, .nil⟩, fun _ _ => rfl⟩
  have hpair : (⟨c.pair, {}⟩ : Session).pair = c.pair.replay [] := rfl
  have halike := h.alike hpair hstart fun front hfront s hs hrole htrust =>
    Pair.acceptedIn_of_authenticated hfront hs hrole htrust
  refine ⟨halike.pair.eq, ?_⟩
  intro id hid
  have hnot : ¬c.pair.AcceptedIn (c.pair.trace (events as)) id := by
    rcases hid with hnot | huser
    · exact hnot
    · exact Pair.not_acceptedIn_of_wasUser huser
  exact ⟨halike.pair.sentTo hnot, halike.outboxes id hnot⟩

/-! ## A run with a silent engineer -/

def silentSetup : Pair.Setup := { Pair.Setup.offline (some ⟨Block.zero 32, 0⟩) with maxEngineers := 2 }

abbrev silentStart : Session := ⟨silentSetup.pair, {}⟩

def signedHeartbeat (link : UInt8) (clock : UInt64) : Frame :=
  Pair.heartbeat.sign Pair.version_heartbeat ⟨Block.zero 32, link, clock⟩

/-- One engineer signs a heartbeat and another is silent.  Then the user sends a frame that is withheld from the silent
one, and a heartbeat. -/
def silentRun (f : Frame) : List Action :=
  [.event ⟨0, 0⟩ (.connect .user .tcp "user") 64, .event ⟨1, 0⟩ (.connect .engineer .tcp "engineer") 64,
    .event ⟨2, 0⟩ (.connect .engineer .tcp "silent") 64, .event ⟨3, 0⟩ (.frames 2 [signedHeartbeat 1 1]) 64,
    .event ⟨4, 0⟩ (.frames 1 [f, Pair.heartbeat]) 64]

def remark : Frame := StatusText.frame 1 1 StatusText.critical "text"

def otherRemark : Frame := StatusText.frame 2 1 StatusText.critical "another text"

theorem interchanged_silentRun : Interchanged silentStart (silentRun remark) (silentRun otherRemark) := by
  have hframes : List.Forall₂ Frame.Interchangeable [remark, Pair.heartbeat] [otherRemark, Pair.heartbeat] :=
    .cons (.inr ⟨by decide, by decide⟩) (.cons (.inl rfl) .nil)
  let before : Session := (silentStart.run ((silentRun remark).take 4)).1
  -- The last event before checks a signature, so the state is evaluated and not unfolded.
  have huser : (before.pair.slots.find? 1).map (·.role) = some .user := by decide +kernel
  have hrole (s : Slot) (hs : before.pair.slots.find? 1 = some s) : s.role = .user := by
    rw [hs] at huser
    exact Option.some.inj huser
  have hlast : Interchanged before [.event ⟨4, 0⟩ (.frames 1 [remark, Pair.heartbeat]) 64]
      [.event ⟨4, 0⟩ (.frames 1 [otherRemark, Pair.heartbeat]) 64] := .event (.frames hrole hframes) (.nil _)
  exact .event (.same _) (.event (.same _) (.event (.same _) (.event (.same _) hlast)))

theorem not_acceptedIn_silentRun :
    ¬silentSetup.pair.AcceptedIn (silentSetup.pair.trace (events (silentRun remark))) 3 := by
  intro h
  obtain ⟨b, hb, f, hmove⟩ := h.exists_mem
  have hsenders : ∀ b ∈ silentSetup.pair.trace (events (silentRun remark)), b.2.sender? ≠ some 3 := by decide +kernel
  exact hsenders b hb (congrArg Move.sender? hmove)

/-- The frame in question reaches the first engineer.  The silent one is sent the heartbeat alone, with the timestamp 3,
since either frame has cost the key a tick. -/
theorem withheld_silentRun :
    Interchanged silentStart (silentRun remark) (silentRun otherRemark) ∧
      (silentStart.run (silentRun remark)).1.pair.sentTo 2 ≠
        (silentStart.run (silentRun otherRemark)).1.pair.sentTo 2 ∧
      (silentStart.run (silentRun otherRemark)).1.pair =
        { (silentStart.run (silentRun remark)).1.pair with
          history := (silentStart.run (silentRun otherRemark)).1.pair.history } ∧
      (silentStart.run (silentRun otherRemark)).1.pair.sentTo 3 = [(signedHeartbeat 0 3).bytes] ∧
      (silentStart.run (silentRun otherRemark)).1.outboxes.find? 3 =
        (silentStart.run (silentRun remark)).1.outboxes.find? 3 := by
  obtain ⟨hpair, hseen⟩ := withheld silentSetup interchanged_silentRun
  obtain ⟨hsent, houtbox⟩ := hseen 3 (.inl not_acceptedIn_silentRun)
  have hheartbeat : (silentStart.run (silentRun remark)).1.pair.sentTo 3 = [(signedHeartbeat 0 3).bytes] := by
    decide +kernel
  exact ⟨interchanged_silentRun, by decide +kernel, hpair, hsent.trans hheartbeat, houtbox⟩

end Session

end GatedRelay
