import GatedRelay.Proofs.Pair.Reach
import GatedRelay.Proofs.Slot.Registered
import Mathlib.Data.List.Pairwise

/-!
# One slot for one datagram peer

A datagram is for the slot of its peer, and a peer is only admitted for it if it has none.  So if datagram peers are
admitted in no other way, no two of their slots have the same role and peer.
-/

set_option autoImplicit false

namespace GatedRelay

/-- The seats are not both taken over datagrams by one peer in one role. -/
def Seat.Apart (a b : Seat) : Prop :=
  ¬(a.transport = .udp ∧ b.transport = .udp ∧ a.role = b.role ∧ a.peer = b.peer)

namespace SlotTable

variable {t t' : SlotTable} {role : Role} {transport : Transport} {peer : Peer}

def Distinct (t : SlotTable) : Prop := (t.slots.map Slot.seat).Pairwise Seat.Apart

theorem Distinct.within (h : t.Distinct) (ht : t'.Within t) : t'.Distinct := h.sublist ht.seats

theorem findUdp?_eq_none_iff :
    t.findUdp? role peer = none ↔ ∀ s ∈ t.slots, ¬(s.role = role ∧ s.transport = .udp ∧ s.peer = peer) := by
  simp [findUdp?, List.find?_eq_none]

theorem Distinct.enter (h : t.Distinct) (hnew : transport = .udp → t.findUdp? role peer = none) (now : Nat) :
    (t.enter role transport peer now).Distinct := by
  rw [Distinct, slots_enter, List.map_append, List.pairwise_append]
  refine ⟨h, List.pairwise_singleton _ _, ?_⟩
  intro a ha b hb
  obtain ⟨s, hs, rfl⟩ := List.mem_map.mp ha
  obtain rfl := List.mem_singleton.mp hb
  rintro ⟨hudp, htransport, hrole, hpeer⟩
  exact findUdp?_eq_none_iff.mp (hnew htransport) s hs ⟨hrole, hudp, hpeer⟩

theorem Distinct.eq (h : t.Distinct) {s s' : Slot} (hs : s ∈ t.slots) (hs' : s' ∈ t.slots) (hudp : s.transport = .udp)
    (hudp' : s'.transport = .udp) (hrole : s.role = s'.role) (hpeer : s.peer = s'.peer) : s = s' := by
  have hpairwise : t.slots.Pairwise fun a b => a.seat.Apart b.seat := List.pairwise_map.mp h
  have hsymm : Std.Symm fun a b : Slot => a.seat.Apart b.seat :=
    ⟨fun a b hab hba => hab ⟨hba.2.1, hba.1, hba.2.2.1.symm, hba.2.2.2.symm⟩⟩
  by_contra hne
  exact hpairwise.forall hs hs' hne ⟨hudp, hudp', hrole, hpeer⟩

end SlotTable

namespace Pair

theorem distinct_act {p : Pair} (h : p.slots.Distinct) {b : Moment × Move}
    (hb : ∀ role peer, b.2 = .connect role .udp peer → p.slots.findUdp? role peer = none) :
    (p.act b).slots.Distinct := by
  rcases p.table_act b with hwithin | ⟨gone, role, transport, peer, hmove, htable⟩
  · exact h.within hwithin
  · rw [htable]
    refine (h.within (SlotTable.within_without _ gone)).enter ?_ b.1.now
    rintro rfl
    rw [SlotTable.findUdp?_eq_none_iff]
    intro s hs
    exact SlotTable.findUdp?_eq_none_iff.mp (hb role peer hmove) s (SlotTable.mem_without.mp hs).1

theorem distinct_replay {p : Pair} (h : p.slots.Distinct) {moves : List (Moment × Move)}
    (hmoves : ∀ b ∈ moves, ∀ role peer, b.2 ≠ .connect role .udp peer) : (p.replay moves).slots.Distinct := by
  induction moves generalizing p with
  | nil => exact h
  | cons b rest ih =>
    refine ih (distinct_act h ?_) fun b' hb' => hmoves b' (List.mem_cons_of_mem b hb')
    intro role peer hmove
    exact absurd hmove (hmoves b List.mem_cons_self role peer)

theorem distinct_batch {p : Pair} (h : p.slots.Distinct) (m : Moment) (id : SlotId) (frames : List Frame) :
    (p.replay ((p.batch id frames).map (m, ·))).slots.Distinct := by
  apply distinct_replay h
  intro b hb role peer hmove
  obtain ⟨move, hmem, rfl⟩ := List.mem_map.mp hb
  rcases mem_batch hmem with rfl | ⟨f, rfl | rfl⟩ <;> cases hmove

theorem distinct_liveMoves {p : Pair} (h : p.slots.Distinct) (m : Moment) {e : Event}
    (he : ∀ role peer, e ≠ .connect role .udp peer) : (p.replay ((p.liveMoves m e).map (m, ·))).slots.Distinct := by
  cases e with
  | connect role transport peer =>
    apply distinct_replay h
    intro b hb role' peer' hmove
    obtain rfl := List.mem_singleton.mp hb
    cases hmove
    exact he role peer rfl
  | frames id frames => exact distinct_batch h m id frames
  | datagram role peer frames =>
    simp only [liveMoves]
    cases hudp : p.slots.findUdp? role peer with
    | some s => exact distinct_batch h m s.id frames
    | none =>
      -- The peer has no slot, so it may be given one.
      have hconnect : (p.act (m, .connect role .udp peer)).slots.Distinct := by
        apply distinct_act h
        intro role' peer' hmove
        cases hmove
        exact hudp
      simp only
      split
      · exact h
      · split
        · exact distinct_replay hconnect (by simp)
        · rename_i q id hq
          have hact : p.act (m, .connect role .udp peer) = q := congrArg Prod.fst hq
          rw [hact] at hconnect
          have hbatch := distinct_batch (p := { q with refused := q.refused.erase peer }) hconnect m id frames
          rw [List.map_cons, replay_cons, hact]
          exact hbatch
  | _ => exact distinct_replay h (by simp [liveMoves])

theorem distinct_step {p : Pair} (h : p.slots.Distinct) (m : Moment) {e : Event}
    (he : ∀ role peer, e ≠ .connect role .udp peer) : (p.step m e).slots.Distinct := by
  rw [← replay_moves, moves]
  split
  · exact distinct_liveMoves h m he
  · exact h

theorem distinct_run {p : Pair} (h : p.slots.Distinct) {events : List (Moment × Event)}
    (hevents : ∀ e ∈ events, ∀ role peer, e.2 ≠ .connect role .udp peer) : (p.run events).slots.Distinct := by
  induction events generalizing p with
  | nil => exact h
  | cons e rest ih =>
    refine ih (distinct_step h e.1 (hevents e List.mem_cons_self)) ?_
    exact fun e' he' => hevents e' (List.mem_cons_of_mem e he')

/-- The state of a slot register is in step after every run of its operations, which is also what a slot table goes
through.  In a pair whose datagram peers are admitted for their datagrams only, each has at most one slot in a role. -/
theorem slots_in_step (c : Setup) {ops : List SlotOp}
    (hlasts : (SlotRegister.start c.maxEngineers c.policy).Lasts ops) {events : List (Moment × Event)}
    (hevents : ∀ e ∈ events, ∀ role peer, e.2 ≠ .connect role .udp peer) :
    (SlotRegister.start c.maxEngineers c.policy).Upheld ops ∧
      ((SlotRegister.start c.maxEngineers c.policy).run ops = (c.pair.slots.run ops).register ∧
        (SlotRegister.start c.maxEngineers c.policy).results ops = c.pair.slots.results ops) ∧
      ∀ s ∈ (c.pair.run events).slots.slots, ∀ s' ∈ (c.pair.run events).slots.slots,
        s.transport = .udp → s'.transport = .udp → s.role = s'.role → s.peer = s'.peer → s = s' := by
  refine ⟨SlotRegister.upheld_start hlasts, ?_, ?_⟩
  · exact SlotTable.run_register (t := c.pair.slots) (SlotRegister.sound_start c.maxEngineers c.policy) hlasts
  · have hstart : c.pair.slots.Distinct := .nil
    intro s hs s' hs' hudp hudp' hrole hpeer
    exact (distinct_run hstart hevents).eq hs hs' hudp hudp' hrole hpeer

def lateClose : List SlotOp := [.accept .user .tcp "first" 0, .accept .user .tcp "second" 1, .close 1]

def oneDatagram : List (Moment × Event) := [(⟨0, 0⟩, .datagram .user "third" [])]

theorem slots_in_step_lateClose :
    (SlotRegister.start 1 .replaceExisting).Lasts lateClose ∧
      (∀ e ∈ oneDatagram, ∀ role peer, e.2 ≠ .connect role .udp peer) ∧
      ((SlotRegister.start 1 .replaceExisting).run lateClose).user = some 2 ∧
      ∃ s, (2, s) ∈ ((SlotRegister.start 1 .replaceExisting).run lateClose).entries ∧ s.role = .user := by
  have hlasts : (SlotRegister.start 1 .replaceExisting).Lasts lateClose :=
    (by decide : 2 + 1 < UInt64.size)
  have hevents : ∀ e ∈ oneDatagram, ∀ role peer, e.2 ≠ .connect role .udp peer := by simp [oneDatagram]
  obtain ⟨hupheld, _⟩ := slots_in_step { Setup.offline none with policy := .replaceExisting } hlasts hevents
  exact ⟨hlasts, hevents, rfl, (hupheld.sound.user_iff 2).mp rfl⟩

end Pair

end GatedRelay
