import GatedRelay.Proofs.Slot.Order
import Mathlib.Data.List.Forall2

/-!
# Tables whose streams are taken for one transport

A table finds datagram peers by their transport and asks of no other slot by which transport its peer has come.  So one
may take all streams for plain ones, which commutes with everything that is found in a table and with everything that is
done to it.  Only a new slot still knows whether its stream begins with a handshake.
-/

set_option autoImplicit false

namespace GatedRelay

def Transport.plain : Transport → Transport
  | udp => udp
  | tcp => tcp
  | webSocket => tcp
  | secureWebSocket => tcp

theorem Transport.plain_eq_udp_iff (transport : Transport) : transport.plain = .udp ↔ transport = .udp := by
  cases transport <;> simp [plain]

theorem Transport.plain_of_ne_udp {transport : Transport} (h : transport ≠ .udp) : transport.plain = .tcp := by
  cases transport with
  | udp => exact absurd rfl h
  | tcp | webSocket | secureWebSocket => rfl

def Slot.plain (s : Slot) : Slot := { s with transport := s.transport.plain }

theorem Slot.plain_advance (s : Slot) (next : SlotState) : (s.advance next).plain = s.plain.advance next := by
  unfold advance
  split
  · rw [if_pos ‹_›]
    rfl
  · rw [if_neg ‹_›]

theorem Slot.eq_of_plain {s s' : Slot} (h : s'.plain = s.plain) :
    ∃ transport : Transport, transport.plain = s.transport.plain ∧ s' = { s with transport := transport } := by
  cases s
  cases s'
  simp only [plain, Slot.mk.injEq] at h
  obtain ⟨rfl, rfl, htransport, rfl, rfl, rfl, rfl, rfl, rfl⟩ := h
  exact ⟨_, htransport, rfl⟩

theorem Slot.plain_cases {o o' : Option Slot} (h : o'.map Slot.plain = o.map Slot.plain) :
    (o = none ∧ o' = none) ∨ ∃ (s : Slot) (transport : Transport), transport.plain = s.transport.plain ∧
      o = some s ∧ o' = some { s with transport := transport } := by
  cases o with
  | none => exact .inl ⟨rfl, Option.map_eq_none_iff.mp h⟩
  | some s =>
    obtain ⟨s', rfl, hs⟩ := Option.map_eq_some_iff.mp h
    obtain ⟨transport, htransport, rfl⟩ := Slot.eq_of_plain hs
    exact .inr ⟨s, transport, htransport, rfl, rfl⟩

namespace SlotTable

def plain (t : SlotTable) : SlotTable := { t with slots := t.slots.map Slot.plain }

def Rewired (t t' : SlotTable) : Prop := t'.plain = t.plain

/-! ## What is found -/

section Found

variable (t : SlotTable)

theorem find?_plain (id : SlotId) : t.plain.find? id = (t.find? id).map Slot.plain := List.find?_map

theorem user?_plain : t.plain.user? = t.user?.map Slot.plain := List.find?_map

theorem engineers_plain : t.plain.engineers = t.engineers.map Slot.plain := List.filter_map

theorem ids_plain : t.plain.ids = t.ids := List.map_map

theorem findUdp?_plain (role : Role) (peer : Peer) :
    t.plain.findUdp? role peer = (t.findUdp? role peer).map Slot.plain := by
  have hudp : ((fun s : Slot => decide (s.role = role) && decide (s.transport = .udp) && decide (s.peer = peer)) ∘
      Slot.plain) = fun s => decide (s.role = role) && decide (s.transport = .udp) && decide (s.peer = peer) := by
    funext s
    have hsame : decide (s.plain.transport = .udp) = decide (s.transport = .udp) :=
      decide_eq_decide.mpr s.transport.plain_eq_udp_iff
    rw [Function.comp_apply, hsame]
    rfl
  rw [findUdp?, plain, List.find?_map, hudp]
  rfl

theorem expired_plain (now timeout : Nat) : t.plain.expired now timeout = t.expired now timeout := by
  rw [expired, plain, List.filter_map, List.map_map]
  rfl

end Found

section Fields

variable {t t' : SlotTable} (h : t.Rewired t')

include h

theorem Rewired.maxEngineers : t'.maxEngineers = t.maxEngineers := congrArg (·.maxEngineers) h

theorem Rewired.policy : t'.policy = t.policy := congrArg (·.policy) h

theorem Rewired.nextId : t'.nextId = t.nextId := congrArg (·.nextId) h

theorem Rewired.slots : t'.slots.map Slot.plain = t.slots.map Slot.plain := congrArg (·.slots) h

theorem Rewired.forall₂ : List.Forall₂ (fun s s' : Slot => s'.plain = s.plain) t.slots t'.slots := by
  have hslots : List.Forall₂ Eq (t.slots.map Slot.plain) (t'.slots.map Slot.plain) := by
    rw [List.forall₂_eq_eq_eq]
    exact h.slots.symm
  rw [List.forall₂_map_left_iff, List.forall₂_map_right_iff] at hslots
  exact hslots.imp fun _ _ heq => heq.symm

theorem Rewired.find? (id : SlotId) : (t'.find? id).map Slot.plain = (t.find? id).map Slot.plain := by
  rw [← find?_plain, ← find?_plain, h]

theorem Rewired.user? : t'.user?.map Slot.plain = t.user?.map Slot.plain := by
  rw [← user?_plain, ← user?_plain, h]

theorem Rewired.findUdp? (role : Role) (peer : Peer) :
    (t'.findUdp? role peer).map Slot.plain = (t.findUdp? role peer).map Slot.plain := by
  rw [← findUdp?_plain, ← findUdp?_plain, h]

theorem Rewired.engineers : t'.engineers.map Slot.plain = t.engineers.map Slot.plain := by
  rw [← engineers_plain, ← engineers_plain, h]

theorem Rewired.engineerCount : t'.engineerCount = t.engineerCount := by
  simpa only [SlotTable.engineerCount, List.length_map] using congrArg List.length h.engineers

theorem Rewired.ids : t'.ids = t.ids := by
  rw [← ids_plain, ← ids_plain t, h]

theorem Rewired.wellFormed (ht : t.WellFormed) : t'.WellFormed where
  nodup := by
    have hids : t'.slots.map (·.id) = t.slots.map (·.id) := h.ids
    rw [hids]
    exact ht.nodup
  lt_next s hs := by
    have hid : s.id ∈ t.ids := h.ids ▸ List.mem_map_of_mem hs
    obtain ⟨s₀, hs₀, heq⟩ := List.mem_map.mp hid
    rw [← heq, h.nextId]
    exact ht.lt_next s₀ hs₀

theorem Rewired.expired (now timeout : Nat) : t'.expired now timeout = t.expired now timeout := by
  rw [← expired_plain, ← expired_plain t, h]

theorem Rewired.hasRoom (role : Role) : t'.hasRoom role = t.hasRoom role := by
  cases role with
  | engineer => simp only [SlotTable.hasRoom, h.engineerCount, h.maxEngineers]
  | user => simpa only [SlotTable.hasRoom, Option.isNone_map] using congrArg Option.isNone h.user?

/-! ## What is done -/

theorem Rewired.withSlots {slots slots' : List Slot} (hslots : slots'.map Slot.plain = slots.map Slot.plain) :
    Rewired { t with slots := slots } { t' with slots := slots' } := by
  unfold Rewired plain
  simp only [h.maxEngineers, h.policy, h.nextId, hslots]

theorem Rewired.map {f : Slot → Slot} (hf : ∀ s, (f s).plain = f s.plain) :
    Rewired { t with slots := t.slots.map f } { t' with slots := t'.slots.map f } := by
  have hcomm (slots : List Slot) : (slots.map f).map Slot.plain = (slots.map Slot.plain).map f := by
    rw [List.map_map, List.map_map]
    exact List.map_congr_left fun s _ => hf s
  refine h.withSlots ?_
  rw [hcomm, hcomm, h.slots]

theorem Rewired.modify (id : SlotId) {f : Slot → Slot} (hf : ∀ s, (f s).plain = f s.plain) :
    (t.modify id f).Rewired (t'.modify id f) := by
  refine h.map fun s => ?_
  have hid : s.plain.id = s.id := rfl
  rw [hid]
  split
  · exact hf s
  · rfl

theorem Rewired.resetGates : t.resetGates.Rewired t'.resetGates := by
  refine h.map fun s => ?_
  have hrole : s.plain.role = s.role := rfl
  rw [hrole]
  split
  · rfl
  · rfl

theorem Rewired.without (ids : List SlotId) : (t.without ids).Rewired (t'.without ids) := by
  have hcomm (slots : List Slot) :
      (slots.filter (·.id ∉ ids)).map Slot.plain = (slots.map Slot.plain).filter (·.id ∉ ids) := by
    rw [List.filter_map]
    rfl
  refine h.withSlots ?_
  rw [hcomm, hcomm, h.slots]

theorem Rewired.close (id : SlotId) :
    (t'.close id).2.map Slot.plain = (t.close id).2.map Slot.plain ∧ (t.close id).1.Rewired (t'.close id).1 := by
  have hclosed (t : SlotTable) :
      (t.close id).2.map Slot.plain = ((t.find? id).map Slot.plain).map (·.advance .closed) := by
    rw [close_snd, Option.map_map, Option.map_map]
    congr 1
    funext s
    exact s.plain_advance .closed
  constructor
  · rw [hclosed, hclosed, h.find?]
  · rw [close_fst, close_fst]
    exact h.without [id]

theorem Rewired.closeEach (ids : List SlotId) :
    (t'.closeEach ids).2.map Slot.plain = (t.closeEach ids).2.map Slot.plain ∧
      (t.closeEach ids).1.Rewired (t'.closeEach ids).1 := by
  induction ids generalizing t t' with
  | nil => exact ⟨rfl, h⟩
  | cons id rest ih =>
    obtain ⟨hclosed, hrewired⟩ := h.close id
    obtain ⟨hlater, hall⟩ := ih hrewired
    refine ⟨?_, hall⟩
    have htoList (o : Option Slot) : o.toList.map Slot.plain = (o.map Slot.plain).toList := by cases o <;> rfl
    simp only [SlotTable.closeEach, List.map_append, htoList, hclosed, hlater]

theorem Rewired.append {s s' : Slot} (hs : s'.plain = s.plain) :
    Rewired { t with slots := t.slots ++ [s], nextId := t.nextId + 1 }
      { t' with slots := t'.slots ++ [s'], nextId := t'.nextId + 1 } := by
  unfold Rewired plain
  simp only [h.maxEngineers, h.policy, h.nextId, List.map_append, h.slots, List.map_cons, List.map_nil, hs]

theorem Rewired.enter (role : Role) (transport : Transport) (peer : Peer) (now : Nat) :
    (t.enter role transport peer now).Rewired (t'.enter role transport peer now) := by
  have hnew : t'.newSlot role transport peer now = t.newSlot role transport peer now := by
    rw [newSlot, newSlot, h.nextId]
  exact h.append (congrArg Slot.plain hnew)

theorem Rewired.makeRoom (role : Role) :
    (∃ refusal, t.makeRoom role = .error refusal ∧ t'.makeRoom role = .error refusal) ∨
      ∃ room room' gone gone', t.makeRoom role = .ok (room, gone) ∧ t'.makeRoom role = .ok (room', gone') ∧
        room.Rewired room' ∧ gone'.map Slot.plain = gone.map Slot.plain := by
  cases role with
  | engineer =>
    simp only [SlotTable.makeRoom, h.engineerCount, h.maxEngineers]
    split
    · exact .inl ⟨_, rfl, rfl⟩
    · exact .inr ⟨t, t', none, none, rfl, rfl, h, rfl⟩
  | user =>
    simp only [SlotTable.makeRoom, h.policy]
    rcases Slot.plain_cases h.user? with ⟨hp, hq⟩ | ⟨user, transport, _, hp, hq⟩
    · rw [hp, hq]
      exact .inr ⟨t, t', none, none, rfl, rfl, h, rfl⟩
    · rw [hp, hq]
      cases t.policy with
      | rejectNew => exact .inl ⟨_, rfl, rfl⟩
      | replaceExisting =>
        obtain ⟨hclosed, hroom⟩ := h.close user.id
        exact .inr ⟨_, _, _, _, rfl, rfl, hroom, hclosed⟩

end Fields

/-! ## Streams whose handshake is done -/

/-- Add a slot that is open at once, whatever its transport. -/
def enterOpen (t : SlotTable) (role : Role) (transport : Transport) (peer : Peer) (now : Nat) : SlotTable :=
  { t with
    slots := t.slots ++ [{ t.newSlot role transport peer now with state := .established }]
    nextId := t.nextId + 1 }

theorem Rewired.enterOpen {t t' : SlotTable} (h : t.Rewired t') {transport transport' : Transport}
    (htransport : transport'.plain = transport.plain) (role : Role) (peer : Peer) (now : Nat) :
    (t.enterOpen role transport peer now).Rewired (t'.enterOpen role transport' peer now) := by
  refine h.append ?_
  simp only [Slot.plain, newSlot, htransport, h.nextId]

theorem WellFormed.enterOpen {t : SlotTable} (h : t.WellFormed) (role : Role) (transport : Transport) (peer : Peer)
    (now : Nat) : (t.enterOpen role transport peer now).WellFormed := by
  refine (h.enter role transport peer now).within ⟨?_, rfl, rfl⟩
  rw [slots_enter, SlotTable.enterOpen, List.map_append, List.map_append]
  exact .refl _

theorem enter_eq_enterOpen {transport : Transport} (h : transport.hasHandshake = false) (t : SlotTable) (role : Role)
    (peer : Peer) (now : Nat) : t.enter role transport peer now = t.enterOpen role transport peer now := by
  simp [enter, enterOpen, newSlot, h]

theorem WellFormed.find?_enter {t : SlotTable} (h : t.WellFormed) (role : Role) (transport : Transport) (peer : Peer)
    (now : Nat) :
    (t.enter role transport peer now).find? t.nextId = some (t.newSlot role transport peer now) :=
  (h.enter role transport peer now).find?_of_mem (List.mem_append_right _ List.mem_cons_self)

/-- A handshake that is done at once leaves the slot that there would have been without one. -/
theorem WellFormed.modify_enter {t : SlotTable} (h : t.WellFormed) {transport : Transport}
    (hhandshake : transport.hasHandshake = true) (role : Role) (peer : Peer) (now : Nat) :
    (t.enter role transport peer now).modify t.nextId (fun s => (s.advance .established).touch now) =
      t.enterOpen role transport peer now := by
  have hold : t.slots.map (fun s => if s.id = t.nextId then (s.advance .established).touch now else s) = t.slots := by
    conv_rhs => rw [← List.map_id t.slots]
    apply List.map_congr_left
    intro s hs
    rw [if_neg (Nat.ne_of_lt (h.lt_next s hs))]
    rfl
  have hnew : ((t.newSlot role transport peer now).advance .established).touch now =
      { t.newSlot role transport peer now with state := .established } := by
    simp [newSlot, hhandshake, Slot.advance, SlotState.canEnter, Slot.touch]
  have hid : (t.newSlot role transport peer now).id = t.nextId := rfl
  rw [modify, slots_enter, List.map_append, hold, List.map_singleton, if_pos hid, hnew]
  rfl

theorem makeRoom_engineer {t room : SlotTable} {gone : Option Slot} (h : t.makeRoom .engineer = .ok (room, gone)) :
    room = t ∧ gone = none := by
  simp only [makeRoom] at h
  split at h
  · cases h
  · cases h
    exact ⟨rfl, rfl⟩

theorem within_makeRoom {t room : SlotTable} {role : Role} {gone : Option Slot}
    (h : t.makeRoom role = .ok (room, gone)) : room.Within t := by
  cases role with
  | engineer =>
    obtain ⟨rfl, _⟩ := makeRoom_engineer h
    exact .refl room
  | user =>
    simp only [makeRoom] at h
    split at h
    · cases h
      exact .refl t
    · cases h
    · rename_i user _ _
      have hclose := congrArg Prod.fst (Except.ok.inj h)
      rw [close_fst] at hclose
      obtain rfl : t.without [user.id] = room := hclose
      exact within_without t [user.id]

theorem engineerCount_enter_user (t : SlotTable) (transport : Transport) (peer : Peer) (now : Nat) :
    (t.enter .user transport peer now).engineerCount = t.engineerCount := by
  simp [engineerCount, engineers, slots_enter, newSlot]

end SlotTable

end GatedRelay
