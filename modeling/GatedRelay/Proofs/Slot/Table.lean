import GatedRelay.Slot.Table
import Mathlib.Data.List.Nodup

/-!
# Slot tables whose ids name their slots

A slot keeps its seat for good, and its state only advances.  In a well-formed table no two slots share an id and the
next id is new.  Every operation keeps this, so an id finds the one slot that bears it.  Closing slots is a filter on
the ids, whatever the order.
-/

set_option autoImplicit false

namespace GatedRelay

/-! ## Seats -/

structure Seat where
  id : SlotId
  role : Role
  transport : Transport
  peer : Peer

def Slot.seat (s : Slot) : Seat := ⟨s.id, s.role, s.transport, s.peer⟩

/-- The slot is the earlier one, with the same seat and not further back on its way. -/
structure Slot.Continues (s s₀ : Slot) : Prop where
  seat : s.seat = s₀.seat
  rank : s₀.state.rank ≤ s.state.rank

theorem Slot.Continues.id {s s₀ : Slot} (h : s.Continues s₀) : s.id = s₀.id := congrArg Seat.id h.seat

theorem Slot.Continues.role {s s₀ : Slot} (h : s.Continues s₀) : s.role = s₀.role := congrArg Seat.role h.seat

theorem Slot.Continues.refl (s : Slot) : s.Continues s := ⟨rfl, Nat.le_refl _⟩

theorem Slot.Continues.trans {s s₁ s₀ : Slot} (h : s.Continues s₁) (h₁ : s₁.Continues s₀) : s.Continues s₀ :=
  ⟨h.seat.trans h₁.seat, Nat.le_trans h₁.rank h.rank⟩

theorem Slot.Continues.advance {s s₀ : Slot} (h : s.Continues s₀) (next : SlotState) :
    (s.advance next).Continues s₀ := by
  unfold Slot.advance
  split
  · rename_i henter
    exact ⟨h.seat, Nat.le_trans h.rank (Nat.le_of_lt (SlotState.rank_lt_of_canEnter henter))⟩
  · exact h

namespace SlotTable

structure WellFormed (t : SlotTable) : Prop where
  nodup : (t.slots.map (·.id)).Nodup
  lt_next : ∀ s ∈ t.slots, s.id < t.nextId

theorem mem_of_find? {t : SlotTable} {id : SlotId} {s : Slot} (h : t.find? id = some s) :
    s ∈ t.slots ∧ s.id = id :=
  ⟨List.mem_of_find?_eq_some h, by simpa using List.find?_some h⟩

theorem WellFormed.eq_of_id {t : SlotTable} (h : t.WellFormed) {s₁ s₂ : Slot} (h₁ : s₁ ∈ t.slots)
    (h₂ : s₂ ∈ t.slots) (hid : s₁.id = s₂.id) : s₁ = s₂ :=
  List.inj_on_of_nodup_map h.nodup h₁ h₂ hid

theorem WellFormed.find?_of_mem {t : SlotTable} (h : t.WellFormed) {s : Slot} (hs : s ∈ t.slots) :
    t.find? s.id = some s := by
  cases hf : t.find? s.id with
  | none =>
    have := List.find?_eq_none.mp hf s hs
    simp at this
  | some s' =>
    obtain ⟨hmem, hid⟩ := mem_of_find? hf
    rw [h.eq_of_id hmem hs hid]

theorem mem_engineers {t : SlotTable} {s : Slot} : s ∈ t.engineers ↔ s ∈ t.slots ∧ s.role = .engineer := by
  simp [engineers]

theorem mem_of_user? {t : SlotTable} {s : Slot} (h : t.user? = some s) : s ∈ t.slots ∧ s.role = .user :=
  ⟨List.mem_of_find?_eq_some h, by simpa using List.find?_some h⟩

theorem engineerCount_eq_zero_iff {t : SlotTable} : t.engineerCount = 0 ↔ ∀ s ∈ t.slots, s.role ≠ .engineer := by
  rw [engineerCount, List.length_eq_zero_iff, List.eq_nil_iff_forall_not_mem]
  simp only [mem_engineers, not_and]

/-! ## Changing slots -/

theorem mem_modify {t : SlotTable} {id : SlotId} {f : Slot → Slot} {s : Slot} :
    s ∈ (t.modify id f).slots ↔ ∃ s₀ ∈ t.slots, (if s₀.id = id then f s₀ else s₀) = s :=
  List.mem_map

theorem modify_modify {t : SlotTable} {id : SlotId} {f g : Slot → Slot} (hf : ∀ s, (f s).id = s.id) :
    (t.modify id f).modify id g = t.modify id fun s => g (f s) := by
  simp only [modify, List.map_map, SlotTable.mk.injEq, true_and, and_true]
  apply List.map_congr_left
  intro s _
  by_cases h : s.id = id <;> simp [h, hf]

theorem map_map_ite_comm {slots : List Slot} {P Q : Slot → Prop} [DecidablePred P] [DecidablePred Q] {f g : Slot → Slot}
    (hf : ∀ s, Q (f s) ↔ Q s) (hg : ∀ s, P (g s) ↔ P s) (hfg : ∀ s, g (f s) = f (g s)) :
    (slots.map fun s => if P s then f s else s).map (fun s => if Q s then g s else s) =
      (slots.map fun s => if Q s then g s else s).map fun s => if P s then f s else s := by
  simp only [List.map_map]
  apply List.map_congr_left
  intro s _
  by_cases hp : P s <;> by_cases hq : Q s <;> simp [hp, hq, hf, hg, hfg]

theorem modify_comm {t : SlotTable} {id id' : SlotId} {f g : Slot → Slot} (hf : ∀ s, (f s).id = s.id)
    (hg : ∀ s, (g s).id = s.id) (hfg : ∀ s, g (f s) = f (g s)) :
    (t.modify id f).modify id' g = (t.modify id' g).modify id f := by
  simp only [modify, SlotTable.mk.injEq, true_and, and_true]
  exact map_map_ite_comm (fun s => by rw [hf]) (fun s => by rw [hg]) hfg

theorem resetGates_modify {t : SlotTable} {id : SlotId} {f : Slot → Slot} (hf : ∀ s, (f s).role = s.role)
    (hgate : ∀ s gate, f { s with gate := gate } = { f s with gate := gate }) :
    (t.modify id f).resetGates = t.resetGates.modify id f := by
  simp only [modify, resetGates, SlotTable.mk.injEq, true_and, and_true]
  refine map_map_ite_comm (fun s => by rw [hf]) (fun s => Iff.rfl) fun s => ?_
  exact (hgate s _).symm

theorem find?_modify {t : SlotTable} {id : SlotId} {f : Slot → Slot} (hf : ∀ s, (f s).id = s.id) (id' : SlotId) :
    (t.modify id f).find? id' = (t.find? id').map fun s => if s.id = id then f s else s := by
  have hid : ((fun s : Slot => decide (s.id = id')) ∘ fun s => if s.id = id then f s else s) =
      fun s => decide (s.id = id') := by
    funext s
    by_cases h : s.id = id <;> simp [h, hf]
  rw [find?, modify, List.find?_map, hid]
  rfl

theorem user?_modify {t : SlotTable} {id : SlotId} {f : Slot → Slot} (hf : ∀ s, (f s).role = s.role) :
    (t.modify id f).user? = t.user?.map fun s => if s.id = id then f s else s := by
  have hrole : ((fun s : Slot => decide (s.role = .user)) ∘ fun s => if s.id = id then f s else s) =
      fun s => decide (s.role = .user) := by
    funext s
    by_cases h : s.id = id <;> simp [h, hf]
  rw [user?, modify, List.find?_map, hrole]
  rfl

theorem engineerCount_map {t t' : SlotTable} {f : Slot → Slot} (h : t'.slots = t.slots.map f)
    (hf : ∀ s, (f s).role = s.role) : t'.engineerCount = 0 ↔ t.engineerCount = 0 := by
  simp only [engineerCount_eq_zero_iff, h, List.mem_map, forall_exists_index, and_imp, forall_apply_eq_imp_iff₂, hf]

theorem engineerCount_modify {t : SlotTable} {id : SlotId} {f : Slot → Slot} (hf : ∀ s, (f s).role = s.role) :
    (t.modify id f).engineerCount = 0 ↔ t.engineerCount = 0 :=
  engineerCount_map rfl fun s => by split <;> simp [hf]

theorem engineerCount_resetGates (t : SlotTable) : t.resetGates.engineerCount = 0 ↔ t.engineerCount = 0 :=
  engineerCount_map rfl fun s => by split <;> rfl

theorem seats_modify {t : SlotTable} {id : SlotId} {f : Slot → Slot} (hf : ∀ s, (f s).seat = s.seat) :
    (t.modify id f).slots.map Slot.seat = t.slots.map Slot.seat := by
  simp only [modify, List.map_map]
  apply List.map_congr_left
  intro s _
  by_cases h : s.id = id <;> simp [h, hf]

theorem seats_resetGates (t : SlotTable) : t.resetGates.slots.map Slot.seat = t.slots.map Slot.seat := by
  simp only [resetGates, List.map_map]
  apply List.map_congr_left
  intro s _
  by_cases h : s.role = .engineer <;> simp [h, Slot.seat]

theorem map_id_eq (t : SlotTable) : t.slots.map (·.id) = (t.slots.map Slot.seat).map Seat.id := by
  rw [List.map_map]
  rfl

theorem ids_of_seats {t t' : SlotTable} (h : t'.slots.map Slot.seat = t.slots.map Slot.seat) :
    t'.slots.map (·.id) = t.slots.map (·.id) := by
  rw [map_id_eq, map_id_eq, h]

/-! ## Closing slots -/

def without (t : SlotTable) (ids : List SlotId) : SlotTable := { t with slots := t.slots.filter (·.id ∉ ids) }

theorem mem_without {t : SlotTable} {ids : List SlotId} {s : Slot} :
    s ∈ (t.without ids).slots ↔ s ∈ t.slots ∧ s.id ∉ ids := by
  simp [without]

@[simp] theorem without_nil (t : SlotTable) : t.without [] = t := by
  simp [without]

theorem without_without (t : SlotTable) (ids₁ ids₂ : List SlotId) :
    (t.without ids₁).without ids₂ = t.without (ids₁ ++ ids₂) := by
  simp [without, List.filter_filter, Bool.and_comm]

theorem close_fst (t : SlotTable) (id : SlotId) : (t.close id).1 = t.without [id] := by
  unfold close
  split
  · rename_i hnone
    have hall := List.find?_eq_none.mp hnone
    have hfilter : t.slots.filter (fun s => decide (s.id ∉ [id])) = t.slots := by
      apply List.filter_eq_self.mpr
      intro s hs
      simpa using hall s hs
    rw [SlotTable.without, hfilter]
  · simp [SlotTable.without]

theorem closeEach_fst (t : SlotTable) (ids : List SlotId) : (t.closeEach ids).1 = t.without ids := by
  induction ids generalizing t with
  | nil => simp [closeEach]
  | cons id rest ih =>
    simp only [closeEach]
    rw [ih, close_fst, without_without]
    rfl

/-! ## Smaller tables -/

structure Within (t' t : SlotTable) : Prop where
  seats : List.Sublist (t'.slots.map Slot.seat) (t.slots.map Slot.seat)
  next : t'.nextId = t.nextId
  policy : t'.policy = t.policy

theorem Within.ids {t' t : SlotTable} (h : t'.Within t) :
    List.Sublist (t'.slots.map (·.id)) (t.slots.map (·.id)) := by
  rw [map_id_eq, map_id_eq]
  exact h.seats.map _

theorem Within.refl (t : SlotTable) : t.Within t := ⟨List.Sublist.refl _, rfl, rfl⟩

theorem Within.trans {t'' t' t : SlotTable} (h' : t''.Within t') (h : t'.Within t) : t''.Within t :=
  ⟨h'.seats.trans h.seats, h'.next.trans h.next, h'.policy.trans h.policy⟩

theorem within_modify (t : SlotTable) (id : SlotId) {f : Slot → Slot} (hf : ∀ s, (f s).seat = s.seat) :
    (t.modify id f).Within t where
  seats := by rw [seats_modify hf]
  next := rfl
  policy := rfl

theorem within_resetGates (t : SlotTable) : t.resetGates.Within t where
  seats := by rw [seats_resetGates]
  next := rfl
  policy := rfl

theorem within_without (t : SlotTable) (ids : List SlotId) : (t.without ids).Within t :=
  ⟨List.filter_sublist.map _, rfl, rfl⟩

theorem WellFormed.within {t' t : SlotTable} (h : t.WellFormed) (ht : t'.Within t) : t'.WellFormed where
  nodup := h.nodup.sublist ht.ids
  lt_next := by
    intro s hs
    obtain ⟨s₀, hs₀, hid⟩ := List.mem_map.mp (ht.ids.subset (List.mem_map_of_mem hs))
    rw [ht.next, ← hid]
    exact h.lt_next s₀ hs₀

/-- Where only users have gone, engineers are left if there were any. -/
theorem WellFormed.engineerCount_without {t : SlotTable} (h : t.WellFormed) {gone : List SlotId}
    (hgone : ∀ id ∈ gone, ∃ s ∈ t.slots, s.id = id ∧ s.role = .user) (hcount : (t.without gone).engineerCount = 0) :
    t.engineerCount = 0 := by
  rw [engineerCount_eq_zero_iff] at hcount ⊢
  intro s hs hrole
  refine hcount s (mem_without.mpr ⟨hs, fun hid => ?_⟩) hrole
  obtain ⟨user, huser, hsame, huserRole⟩ := hgone s.id hid
  rw [h.eq_of_id huser hs hsame, hrole] at huserRole
  cases huserRole

/-! ## Admitting peers -/

def newSlot (t : SlotTable) (role : Role) (transport : Transport) (peer : Peer) (now : Nat) : Slot where
  id := t.nextId
  role := role
  transport := transport
  peer := peer
  state := if transport.hasHandshake then .new else .established
  lastActivity := now

theorem slots_enter (t : SlotTable) (role : Role) (transport : Transport) (peer : Peer) (now : Nat) :
    (t.enter role transport peer now).slots = t.slots ++ [t.newSlot role transport peer now] := rfl

theorem WellFormed.enter {t : SlotTable} (h : t.WellFormed) (role : Role) (transport : Transport) (peer : Peer)
    (now : Nat) : (t.enter role transport peer now).WellFormed where
  nodup := by
    rw [slots_enter, List.map_append, List.nodup_append]
    refine ⟨h.nodup, by simp, ?_⟩
    intro id hid id' hid' heq
    obtain ⟨s, hs, rfl⟩ := List.mem_map.mp hid
    have hnew : id' = t.nextId := by simpa [newSlot] using hid'
    exact absurd (heq.trans hnew) (Nat.ne_of_lt (h.lt_next s hs))
  lt_next := by
    intro s hs
    rw [slots_enter, List.mem_append, List.mem_singleton] at hs
    change s.id < t.nextId + 1
    rcases hs with hs | rfl
    · exact Nat.lt_succ_of_lt (h.lt_next s hs)
    · exact Nat.lt_succ_self _

/-- A peer is admitted at the end of a table from which only a user has had to go. -/
theorem accept_eq_ok {t : SlotTable} {role : Role} {transport : Transport} {peer : Peer} {now : Nat}
    {a : Admission} (h : t.accept role transport peer now = .ok a) :
    a.id = t.nextId ∧ ∃ gone, a.table = (t.without gone).enter role transport peer now ∧
      ∀ id ∈ gone, ∃ s, t.user? = some s ∧ s.id = id := by
  unfold accept at h
  split at h
  · cases h
  · rename_i room replaced hroom
    cases h
    refine ⟨rfl, ?_⟩
    cases role with
    | engineer =>
      simp only [makeRoom] at hroom
      split at hroom
      · cases hroom
      · cases hroom
        exact ⟨[], by simp, by simp⟩
    | user =>
      simp only [makeRoom] at hroom
      split at hroom
      · cases hroom
        exact ⟨[], by simp, by simp⟩
      · cases hroom
      · rename_i s huser _
        have hclose := congrArg Prod.fst (Except.ok.inj hroom)
        rw [close_fst] at hclose
        exact ⟨[s.id], by rw [hclose], by simp [huser]⟩

end SlotTable

end GatedRelay
