import GatedRelay.Proofs.Recent
import GatedRelay.Proofs.Pair.History
import GatedRelay.Proofs.Pair.Reach

/-!
# Peers that have been refused

A datagram of a peer that has been refused is dropped without a try as long as there is no room in its role.  That saves
a try that would fail, with one exception: the memory does not know in which role a peer was refused, nor does room
depend on the policy.  A user who would take the place of another one is dropped too, once its peer has been refused as
an engineer (`unaffected_unless_misjudged`).
-/

set_option autoImplicit false

namespace GatedRelay

def Effect.IsRefusal : Effect → Bool
  | logged (.refused ..) => true
  | _ => false

namespace Pair

/-- All that a pair is and has done, apart from the refused peers that it remembers and the refusals that it logged. -/
def apart (p : Pair) : Pair := { p with refused := .empty, history := p.history.filter fun e => !e.IsRefusal }

def forgetting (p : Pair) : Pair := { p with refused := .empty }

structure Drops (p : Pair) (role : Role) (peer : Peer) : Prop where
  live : p.live = true
  new : p.slots.findUdp? role peer = none
  remembered : p.refused.contains peer = true
  full : p.slots.hasRoom role = false

/-- The peer is dropped without a try, though it would take the place of the user. -/
def Misjudges (p : Pair) (role : Role) (peer : Peer) : Prop :=
  p.Drops role peer ∧ role = .user ∧ p.slots.policy = .replaceExisting

end Pair

/-! ## Who is refused -/

namespace SlotTable

theorem accept_eq_error_iff (t : SlotTable) (role : Role) (transport : Transport) (peer : Peer) (now : Nat) :
    (∃ refusal, t.accept role transport peer now = .error refusal) ↔
      t.hasRoom role = false ∧ ¬(role = .user ∧ t.policy = .replaceExisting) := by
  cases role with
  | engineer =>
    by_cases hfull : t.maxEngineers ≤ t.engineerCount
    · simp [accept, makeRoom, hasRoom, hfull]
    · simp [accept, makeRoom, hasRoom, hfull]
  | user =>
    cases huser : t.user? with
    | none => simp [accept, makeRoom, hasRoom, huser]
    | some s =>
      cases hpolicy : t.policy with
      | replaceExisting => simp [accept, makeRoom, hasRoom, huser, hpolicy]
      | rejectNew => simp [accept, makeRoom, hasRoom, huser, hpolicy]

theorem refusal_of_engineer {t : SlotTable} {transport : Transport} {peer : Peer} {now : Nat} {refusal : Refusal}
    (h : t.accept .engineer transport peer now = .error refusal) : refusal = .engineerLimit := by
  by_cases hfull : t.maxEngineers ≤ t.engineerCount
  · simp only [accept, makeRoom, hfull, if_true, Except.error.injEq] at h
    exact h.symm
  · simp [accept, makeRoom, hfull] at h

end SlotTable

namespace Pair

def tryDatagram (p : Pair) (m : Moment) (role : Role) (peer : Peer) (frames : List Frame) : Pair :=
  match p.connect m role .udp peer with
  | (q, none) => { q with refused := q.refused.use peer () }
  | (q, some id) => { q with refused := q.refused.erase peer }.handleFrames m id frames

section Datagram

variable {p : Pair} {m : Moment} {role : Role} {peer : Peer} {frames : List Frame}

theorem step_of_dead (h : p.live = false) : p.step m (.datagram role peer frames) = p := by
  simp [step, h]

theorem step_of_known {s : Slot} (hlive : p.live = true) (h : p.slots.findUdp? role peer = some s) :
    p.step m (.datagram role peer frames) = p.handleFrames m s.id frames := by
  simp only [step, hlive, if_true, handle, datagram, h]

theorem step_of_drops (h : p.Drops role peer) : p.step m (.datagram role peer frames) = p := by
  simp only [step, h.live, if_true, handle, datagram, h.new, h.remembered, h.full, Bool.not_false, Bool.and_self]

theorem step_of_tried (hlive : p.live = true) (hnew : p.slots.findUdp? role peer = none) (h : ¬p.Drops role peer) :
    p.step m (.datagram role peer frames) = p.tryDatagram m role peer frames := by
  have htried : ¬(p.refused.contains peer && !p.slots.hasRoom role) = true := by
    rw [Bool.and_eq_true, Bool.not_eq_true']
    exact fun hdrop => h ⟨hlive, hnew, hdrop.1, hdrop.2⟩
  simp only [step, hlive, if_true, handle, datagram, hnew]
  rw [if_neg htried]
  rfl

/-- A peer that is dropped without a try would be admitted only in place of the user. -/
theorem drops_accepted_iff (m : Moment) :
    (p.Drops role peer ∧ ∃ a, p.slots.accept role .udp peer m.now = .ok a) ↔ p.Misjudges role peer := by
  have herror := p.slots.accept_eq_error_iff role .udp peer m.now
  refine and_congr_right fun hdrops => ?_
  constructor
  · rintro ⟨a, haccept⟩
    rw [haccept] at herror
    by_contra hnot
    obtain ⟨_, hrefused⟩ := herror.mpr ⟨hdrops.full, hnot⟩
    cases hrefused
  · intro hreplaces
    cases haccept : p.slots.accept role .udp peer m.now with
    | error refusal => exact absurd hreplaces (herror.mp ⟨refusal, haccept⟩).2
    | ok a => exact ⟨a, rfl⟩

theorem not_drops_forgetting : ¬p.forgetting.Drops role peer := fun h => Bool.false_ne_true h.remembered

/-! ## The memory in a step -/

theorem apart_forgetting : p.forgetting.apart = p.apart := rfl

theorem apart_logRefusal (refusal : Refusal) (transport : Transport) :
    (p.logRefusal refusal transport peer).apart = p.apart := by
  unfold logRefusal
  split
  · rfl
  · rfl

theorem apart_tryDatagram_of_refused {refusal : Refusal}
    (h : p.slots.accept role .udp peer m.now = .error refusal) :
    (p.tryDatagram m role peer frames).apart = p.apart := by
  rw [tryDatagram, connect_of_refused h]
  exact apart_logRefusal refusal .udp

theorem connect_of_ok {a : Admission} (h : p.slots.accept role .udp peer m.now = .ok a) :
    ∃ q, p.connect m role .udp peer = (q, some a.id) ∧
      p.forgetting.connect m role .udp peer = (q.forgetting, some a.id) := by
  obtain ⟨_, _, hconnect⟩ := connect_of_accept h
  refine ⟨_, hconnect, ?_⟩
  have hforgetting := p.connect_remembering .empty [] h
  rw [remembering_nil, remembering_nil, hconnect] at hforgetting
  exact hforgetting

theorem tryDatagram_of_connect {q : Pair} {id : SlotId} (h : p.connect m role .udp peer = (q, some id)) :
    p.tryDatagram m role peer frames = { q with refused := q.refused.erase peer }.handleFrames m id frames := by
  rw [tryDatagram, h]

theorem nextId_tryDatagram {a : Admission} (h : p.slots.accept role .udp peer m.now = .ok a) :
    p.slots.nextId < (p.tryDatagram m role peer frames).slots.nextId := by
  obtain ⟨_, hconnect, _⟩ := connect_of_ok h
  rcases p.connect_cases m role .udp peer with ⟨hnone, _⟩ | ⟨a, q, key, ha, hq, hbooked, _⟩
  · rw [hconnect] at hnone
    cases hnone
  · obtain ⟨_, gone, htable, _⟩ := SlotTable.accept_eq_ok ha
    have hopened : q.slots.nextId = p.slots.nextId + 1 := by
      rw [hbooked.slots, htable]
      rfl
    have hlater := nextId_replay { q with refused := q.refused.erase peer } ((q.batch a.id frames).map (m, ·))
    rw [tryDatagram_of_connect hq, ← replay_batch]
    exact Nat.lt_of_lt_of_le (Nat.lt_of_lt_of_eq (Nat.lt_succ_self _) hopened.symm) hlater

theorem apart_handleFrames (q : Pair) (refused : Recent Peer Unit 256) (id : SlotId) :
    (Pair.handleFrames { q with refused := refused } m id frames).apart = (q.handleFrames m id frames).apart := by
  have hsame := q.handleFrames_remembering refused [] m id frames
  rw [remembering_nil, remembering_nil] at hsame
  rw [hsame]
  rfl

theorem apart_tryDatagram_forgetting :
    (p.forgetting.tryDatagram m role peer frames).apart = (p.tryDatagram m role peer frames).apart := by
  cases haccept : p.slots.accept role .udp peer m.now with
  | error refusal =>
    have hforgetting : p.forgetting.slots.accept role .udp peer m.now = .error refusal := haccept
    rw [apart_tryDatagram_of_refused haccept, apart_tryDatagram_of_refused hforgetting, apart_forgetting]
  | ok a =>
    obtain ⟨q, hconnect, hforgetting⟩ := connect_of_ok haccept
    rw [tryDatagram_of_connect hconnect, tryDatagram_of_connect hforgetting]
    exact (apart_handleFrames q _ a.id).trans (apart_handleFrames q _ a.id).symm

/-- The memory decides nothing but for the peers that it misjudges. -/
theorem apart_step_iff : (p.step m (.datagram role peer frames)).apart =
    (p.forgetting.step m (.datagram role peer frames)).apart ↔ ¬p.Misjudges role peer := by
  by_cases hdrops : p.Drops role peer
  · have htried : p.forgetting.step m (.datagram role peer frames) = p.forgetting.tryDatagram m role peer frames :=
      step_of_tried hdrops.live hdrops.new not_drops_forgetting
    rw [step_of_drops hdrops, htried, apart_tryDatagram_forgetting, ← drops_accepted_iff m]
    cases haccept : p.slots.accept role .udp peer m.now with
    | error refusal =>
      rw [apart_tryDatagram_of_refused haccept]
      simp
    | ok a =>
      have hnext : p.slots.nextId < (p.tryDatagram m role peer frames).slots.nextId := nextId_tryDatagram haccept
      -- The try gives out an id, which the pair that drops the datagram still has.
      refine iff_of_false (fun heq => ?_) (fun hnot => hnot ⟨hdrops, a, rfl⟩)
      have hsame : p.slots.nextId = (p.tryDatagram m role peer frames).slots.nextId :=
        congrArg (·.slots.nextId) heq
      exact absurd hsame (Nat.ne_of_lt hnext)
  · refine iff_of_true ?_ fun h => hdrops h.1
    cases hlive : p.live with
    | false =>
      have hforgetting : p.forgetting.live = false := hlive
      rw [step_of_dead hlive, step_of_dead hforgetting, apart_forgetting]
    | true =>
      have hforgetting : p.forgetting.live = true := hlive
      cases hknown : p.slots.findUdp? role peer with
      | some s =>
        have hknown' : p.forgetting.slots.findUdp? role peer = some s := hknown
        rw [step_of_known hlive hknown, step_of_known hforgetting hknown']
        exact (apart_handleFrames p .empty s.id).symm
      | none =>
        have hnew : p.forgetting.slots.findUdp? role peer = none := hknown
        rw [step_of_tried hlive hknown hdrops, step_of_tried hforgetting hnew not_drops_forgetting,
          apart_tryDatagram_forgetting]

end Datagram

/-! ## The memory in a run -/

/-- Only a refusal is remembered, and only until the peer is admitted. -/
theorem refused_act (p : Pair) (b : Moment × Move) : (p.act b).refused =
    match b.2 with
    | .refuse peer => p.refused.use peer ()
    | .welcome peer => p.refused.erase peer
    | _ => p.refused := by
  obtain ⟨m, move⟩ := b
  cases move with
  | connect role transport peer =>
    rcases p.connect_cases m role transport peer with ⟨_, hq⟩ | ⟨a, q, key, _, hconnect, hq, _⟩
    · exact hq.refused
    · simp only [act, hconnect]
      exact hq.refused
  | refuse peer => rfl
  | welcome peer => rfl
  | _ => exact p.refused_act_of_not_admission rfl

theorem remembered_act {p : Pair} {b : Moment × Move} {peer : Peer} (h : (p.act b).refused.contains peer = true) :
    p.refused.contains peer = true ∨ b.2 = .refuse peer := by
  rw [refused_act, Recent.contains, Option.isSome_iff_exists] at h
  obtain ⟨v, h⟩ := h
  rw [Recent.contains, Option.isSome_iff_exists]
  split at h
  · rename_i peer' hb
    by_cases hsame : peer = peer'
    · exact .inr (hsame ▸ hb)
    · exact .inl ⟨v, Recent.find?_of_find?_use h hsame⟩
  · exact .inl ⟨v, Recent.find?_of_find?_erase h⟩
  · exact .inl ⟨v, h⟩

theorem remembered_replay {p : Pair} {moves : List (Moment × Move)} {peer : Peer}
    (h : (p.replay moves).refused.contains peer = true) :
    p.refused.contains peer = true ∨ ∃ m, (m, .refuse peer) ∈ moves := by
  induction moves using List.reverseRecOn with
  | nil => exact .inl h
  | append_singleton moves b ih =>
    rw [replay_snoc] at h
    rcases remembered_act h with hbefore | hb
    · exact (ih hbefore).imp_right fun ⟨m, hmem⟩ => ⟨m, List.mem_append_left [b] hmem⟩
    · exact .inr ⟨b.1, by rw [← hb]; exact List.mem_append_right moves List.mem_cons_self⟩

theorem datagram_of_refuse {p : Pair} {m : Moment} {e : Event} {peer : Peer} (h : .refuse peer ∈ p.liveMoves m e) :
    ∃ role frames refusal, e = .datagram role peer frames ∧
      p.slots.accept role .udp peer m.now = .error refusal := by
  have hbatch {q : Pair} {id : SlotId} {frames : List Frame} : .refuse peer ∉ q.batch id frames := by
    intro hmem
    rcases mem_batch hmem with heq | ⟨f, heq | heq⟩ <;> cases heq
  cases e with
  | frames id frames => exact absurd h hbatch
  | datagram role peer' frames =>
    simp only [liveMoves] at h
    split at h
    · exact absurd h hbatch
    · split at h
      · cases h
      · cases haccept : p.slots.accept role .udp peer' m.now with
        | error refusal =>
          rw [connect_of_refused haccept] at h
          obtain rfl : peer = peer' := by simpa using h
          exact ⟨role, frames, refusal, rfl, haccept⟩
        | ok a =>
          obtain ⟨q, hconnect, _⟩ := connect_of_ok haccept
          rw [hconnect] at h
          simp [hbatch] at h
  | _ => simp [liveMoves] at h

theorem remembered_step {p : Pair} {m : Moment} {e : Event} {peer : Peer}
    (h : (p.step m e).refused.contains peer = true) :
    p.refused.contains peer = true ∨ ∃ role frames refusal, e = .datagram role peer frames ∧
      p.slots.accept role .udp peer m.now = .error refusal := by
  rw [← replay_moves] at h
  refine (remembered_replay h).imp_right ?_
  rintro ⟨m', hmem⟩
  obtain ⟨move, hmove, heq⟩ := mem_moves hmem
  obtain ⟨rfl, rfl⟩ := Prod.mk.inj heq
  exact datagram_of_refuse hmove

theorem refusal_of_remembered {c : Setup} {events : List (Moment × Event)} {peer : Peer}
    (h : (c.pair.run events).refused.contains peer = true) :
    ∃ before m role frames refusal, before ++ [(m, .datagram role peer frames)] <+: events ∧
      (c.pair.run before).slots.accept role .udp peer m.now = .error refusal := by
  induction events using List.reverseRecOn with
  | nil => cases h
  | append_singleton events e ih =>
    obtain ⟨m, e⟩ := e
    have hstep : c.pair.run (events ++ [(m, e)]) = (c.pair.run events).step m e := by
      rw [run, List.foldl_append]
      rfl
    rw [hstep] at h
    rcases remembered_step h with hbefore | ⟨role, frames, refusal, rfl, hrefused⟩
    · obtain ⟨before, m', role, frames, refusal, hpart, hrefused⟩ := ih hbefore
      exact ⟨before, m', role, frames, refusal, hpart.trans (List.prefix_append _ _), hrefused⟩
    · exact ⟨events, m, role, frames, refusal, List.prefix_refl _, hrefused⟩

/-- A peer that is misjudged was refused before as an engineer, for which there was no room. -/
theorem refused_of_misjudges {c : Setup} {events : List (Moment × Event)} {role : Role} {peer : Peer}
    (h : (c.pair.run events).Misjudges role peer) :
    ∃ before m frames, before ++ [(m, .datagram .engineer peer frames)] <+: events ∧
      (c.pair.run before).slots.accept .engineer .udp peer m.now = .error .engineerLimit := by
  obtain ⟨hdrops, _, hpolicy⟩ := h
  obtain ⟨before, m, role, frames, refusal, hpart, hrefused⟩ := refusal_of_remembered hdrops.remembered
  refine ⟨before, m, frames, ?_⟩
  cases role with
  | engineer =>
    obtain rfl := SlotTable.refusal_of_engineer hrefused
    exact ⟨hpart, hrefused⟩
  | user =>
    have hreplaces : (c.pair.run before).slots.policy = .replaceExisting := by
      rw [policy_run, ← policy_run c events, hpolicy]
    have herror := ((c.pair.run before).slots.accept_eq_error_iff .user .udp peer m.now).mp ⟨refusal, hrefused⟩
    exact absurd ⟨rfl, hreplaces⟩ herror.2

/-- What is remembered of refused peers makes a difference exactly to a user who would take the place of another one
and is dropped because its peer was refused as an engineer before. -/
theorem unaffected_unless_misjudged (c : Setup) (events : List (Moment × Event)) (m : Moment) (role : Role)
    (peer : Peer) (frames : List Frame) :
    (((c.pair.run events).step m (.datagram role peer frames)).apart =
        ((c.pair.run events).forgetting.step m (.datagram role peer frames)).apart ↔
      ¬(c.pair.run events).Misjudges role peer) ∧
    (((c.pair.run events).Drops role peer ∧ ∃ a, (c.pair.run events).slots.accept role .udp peer m.now = .ok a) ↔
      (c.pair.run events).Misjudges role peer) ∧
    ((c.pair.run events).Misjudges role peer →
      ∃ before m' frames', before ++ [(m', .datagram .engineer peer frames')] <+: events ∧
        (c.pair.run before).slots.accept .engineer .udp peer m'.now = .error .engineerLimit) :=
  ⟨apart_step_iff, drops_accepted_iff m, refused_of_misjudges⟩

/-! ## An engineer that comes back as a user -/

def Setup.replacing : Setup := { Setup.offline none with policy := .replaceExisting }

def refusedRun : List (Moment × Event) :=
  [(⟨0, 0⟩, .connect .user .tcp "user"), (⟨1, 0⟩, .connect .engineer .tcp "engineer"),
    (⟨2, 0⟩, .datagram .engineer "peer" [])]

theorem misjudges_refusedRun : (Setup.replacing.pair.run refusedRun).Misjudges .user "peer" :=
  ⟨⟨rfl, rfl, rfl, rfl⟩, rfl, rfl⟩

theorem unaffected_unless_misjudged_refusedRun :
    (Setup.replacing.pair.run refusedRun).Misjudges .user "peer" ∧
      ∃ before m frames, before ++ [(m, .datagram .engineer "peer" frames)] <+: refusedRun ∧
        (Setup.replacing.pair.run before).slots.accept .engineer .udp "peer" m.now = .error .engineerLimit :=
  ⟨misjudges_refusedRun, (unaffected_unless_misjudged Setup.replacing refusedRun ⟨3, 0⟩ .user "peer" []).2.2
    misjudges_refusedRun⟩

/-- The peer is admitted in place of the user, unless its refusal is remembered. -/
theorem kept_refusedRun :
    ((Setup.replacing.pair.run refusedRun).step ⟨3, 0⟩ (.datagram .user "peer" [])).slots.user?.map (·.peer) =
        some "user" ∧
      ((Setup.replacing.pair.run refusedRun).forgetting.step ⟨3, 0⟩ (.datagram .user "peer" [])).slots.user?.map
        (·.peer) = some "peer" ∧
      ∃ a, (Setup.replacing.pair.run refusedRun).slots.accept .user .udp "peer" 3 = .ok a :=
  ⟨rfl, rfl, _, rfl⟩

end Pair

end GatedRelay
