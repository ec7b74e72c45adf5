import GatedRelay.Proofs.Slot.Table
import Mathlib.Data.List.Perm.Basic

/-!
# Tables in another order

A table finds a slot by what it has, its id or its role, and says nothing of where the slot stands.  As long as no two
slots have the same id or are both users, the order of the slots does not show in what is found, and every operation
leaves two orders of one table as two orders of one table.
-/

set_option autoImplicit false

namespace GatedRelay

theorem find?_perm {α : Type} {P : α → Bool} {xs ys : List α} (h : ys.Perm xs)
    (hone : ∀ a ∈ xs, ∀ b ∈ xs, P a = true → P b = true → a = b) : ys.find? P = xs.find? P := by
  cases hy : ys.find? P with
  | none =>
    symm
    rw [List.find?_eq_none] at hy ⊢
    exact fun a ha => hy a (h.mem_iff.mpr ha)
  | some b =>
    have hb := h.mem_iff.mp (List.mem_of_find?_eq_some hy)
    cases hx : xs.find? P with
    | none => exact absurd (List.find?_some hy) (List.find?_eq_none.mp hx b hb)
    | some a => rw [hone a (List.mem_of_find?_eq_some hx) b hb (List.find?_some hx) (List.find?_some hy)]

namespace SlotTable

structure Orderly (t : SlotTable) : Prop where
  wellFormed : t.WellFormed
  single : ∀ s ∈ t.slots, ∀ s' ∈ t.slots, s.role = .user → s'.role = .user → s = s'

theorem Orderly.within {t t' : SlotTable} (h : t.Orderly) (ht : t'.Within t) : t'.Orderly := by
  have hwf := h.wellFormed.within ht
  refine ⟨hwf, fun s hs s' hs' hrole hrole' => hwf.eq_of_id hs hs' ?_⟩
  obtain ⟨s₀, hs₀, hseat⟩ := List.mem_map.mp (ht.seats.subset (List.mem_map_of_mem hs))
  obtain ⟨s₀', hs₀', hseat'⟩ := List.mem_map.mp (ht.seats.subset (List.mem_map_of_mem hs'))
  have huser : s₀.role = .user := (congrArg Seat.role hseat).trans hrole
  have huser' : s₀'.role = .user := (congrArg Seat.role hseat').trans hrole'
  obtain rfl := h.single s₀ hs₀ s₀' hs₀' huser huser'
  exact congrArg Seat.id (hseat.symm.trans hseat')

structure Shuffled (t t' : SlotTable) : Prop where
  orderly : t.Orderly
  eq : t' = { t with slots := t'.slots }
  perm : t'.slots.Perm t.slots

variable {t t' : SlotTable}

theorem Orderly.refl (h : t.Orderly) : t.Shuffled t := ⟨h, rfl, .refl _⟩

theorem Shuffled.of_perm (h : t.Orderly) {slots : List Slot} (hperm : slots.Perm t.slots) :
    t.Shuffled { t with slots := slots } := ⟨h, rfl, hperm⟩

section Fields

variable (h : t.Shuffled t')

include h

theorem Shuffled.maxEngineers : t'.maxEngineers = t.maxEngineers := by rw [h.eq]

theorem Shuffled.policy : t'.policy = t.policy := by rw [h.eq]

theorem Shuffled.nextId : t'.nextId = t.nextId := by rw [h.eq]

theorem Shuffled.trans {t'' : SlotTable} (h' : t'.Shuffled t'') : t.Shuffled t'' := by
  refine ⟨h.orderly, ?_, h'.perm.trans h.perm⟩
  rw [h'.eq, h.eq]

theorem Shuffled.symm : t'.Shuffled t where
  orderly := by
    refine ⟨⟨(h.perm.map _).nodup_iff.mpr h.orderly.wellFormed.nodup, ?_⟩, ?_⟩
    · intro s hs
      rw [h.nextId]
      exact h.orderly.wellFormed.lt_next s (h.perm.mem_iff.mp hs)
    · intro s hs s' hs'
      exact h.orderly.single s (h.perm.mem_iff.mp hs) s' (h.perm.mem_iff.mp hs')
  eq := by rw [h.eq]
  perm := h.perm.symm

/-! ## What is found -/

theorem Shuffled.find? (id : SlotId) : t'.find? id = t.find? id := by
  apply find?_perm h.perm
  intro a ha b hb hida hidb
  simp only [decide_eq_true_eq] at hida hidb
  exact h.orderly.wellFormed.eq_of_id ha hb (hida.trans hidb.symm)

theorem Shuffled.user? : t'.user? = t.user? := by
  apply find?_perm h.perm
  intro a ha b hb hrole hrole'
  simp only [decide_eq_true_eq] at hrole hrole'
  exact h.orderly.single a ha b hb hrole hrole'

theorem Shuffled.engineers : t'.engineers.Perm t.engineers := h.perm.filter _

theorem Shuffled.engineerCount : t'.engineerCount = t.engineerCount := h.engineers.length_eq

theorem Shuffled.hasRoom (role : Role) : t'.hasRoom role = t.hasRoom role := by
  cases role with
  | engineer => simp only [SlotTable.hasRoom, h.engineerCount, h.maxEngineers]
  | user => simp only [SlotTable.hasRoom, h.user?]

theorem Shuffled.ids : t'.ids.Perm t.ids := h.perm.map _

theorem Shuffled.expired (now timeout : Nat) : (t'.expired now timeout).Perm (t.expired now timeout) :=
  (h.perm.filter _).map _

/-! ## What is done -/

theorem Shuffled.modify (id : SlotId) {f : Slot → Slot} (hf : ∀ s, (f s).seat = s.seat) :
    (t.modify id f).Shuffled (t'.modify id f) := by
  refine ⟨h.orderly.within (within_modify t id hf), ?_, h.perm.map _⟩
  rw [h.eq]
  rfl

theorem Shuffled.resetGates : t.resetGates.Shuffled t'.resetGates := by
  refine ⟨h.orderly.within (within_resetGates t), ?_, h.perm.map _⟩
  rw [h.eq]
  rfl

theorem Shuffled.without (ids : List SlotId) : (t.without ids).Shuffled (t'.without ids) := by
  refine ⟨h.orderly.within (within_without t ids), ?_, h.perm.filter _⟩
  rw [h.eq]
  rfl

theorem Shuffled.close (id : SlotId) : (t'.close id).2 = (t.close id).2 ∧ (t.close id).1.Shuffled (t'.close id).1 := by
  constructor
  · unfold SlotTable.close
    rw [h.find? id]
    cases t.find? id with
    | none => rfl
    | some s => rfl
  · rw [close_fst, close_fst]
    exact h.without [id]

theorem Shuffled.makeRoom (role : Role) :
    (∃ refusal, t.makeRoom role = .error refusal ∧ t'.makeRoom role = .error refusal) ∨
      ∃ room room' gone, t.makeRoom role = .ok (room, gone) ∧ t'.makeRoom role = .ok (room', gone) ∧
        room.Shuffled room' ∧ (role = .user → ∀ s ∈ room.slots, s.role ≠ .user) := by
  cases role with
  | engineer =>
    simp only [SlotTable.makeRoom, h.engineerCount, h.maxEngineers]
    split
    · exact .inl ⟨_, rfl, rfl⟩
    · exact .inr ⟨t, t', none, rfl, rfl, h, Role.noConfusion⟩
  | user =>
    simp only [SlotTable.makeRoom, h.user?, h.policy]
    cases huser : t.user? with
    | none =>
      refine .inr ⟨t, t', none, rfl, rfl, h, fun _ s hs => ?_⟩
      simpa using List.find?_eq_none.mp huser s hs
    | some user =>
      cases t.policy with
      | rejectNew => exact .inl ⟨_, rfl, rfl⟩
      | replaceExisting =>
        obtain ⟨hsame, hclosed⟩ := h.close user.id
        refine .inr ⟨(t.close user.id).1, (t'.close user.id).1, (t.close user.id).2, rfl, ?_, hclosed, ?_⟩
        · simp only [← hsame]
        · intro _ s hs hrole
          rw [close_fst, mem_without] at hs
          obtain ⟨huserMem, huserRole⟩ := mem_of_user? huser
          rw [h.orderly.single s hs.1 user huserMem hrole huserRole] at hs
          exact hs.2 List.mem_cons_self

theorem Shuffled.enter {role : Role} (hnone : role = .user → ∀ s ∈ t.slots, s.role ≠ .user) (transport : Transport)
    (peer : Peer) (now : Nat) :
    (t.enter role transport peer now).Shuffled (t'.enter role transport peer now) where
  orderly := by
    refine ⟨h.orderly.wellFormed.enter role transport peer now, ?_⟩
    intro s hs s' hs' hrole hrole'
    rw [slots_enter, List.mem_append, List.mem_singleton] at hs hs'
    rcases hs with hs | rfl <;> rcases hs' with hs' | rfl
    · exact h.orderly.single s hs s' hs' hrole hrole'
    · exact absurd hrole (hnone hrole' s hs)
    · exact absurd hrole' (hnone hrole s' hs')
    · rfl
  eq := by
    rw [h.eq]
    rfl
  perm := by
    have hnew : t'.newSlot role transport peer now = t.newSlot role transport peer now := by
      rw [newSlot, newSlot, h.nextId]
    rw [slots_enter, slots_enter, hnew]
    exact h.perm.append_right _

/-- A peer is admitted to both tables with the same id, or refused by both for the same reason. -/
theorem Shuffled.accept (role : Role) (transport : Transport) (peer : Peer) (now : Nat) :
    (∃ refusal, t.accept role transport peer now = .error refusal ∧
        t'.accept role transport peer now = .error refusal) ∨
      ∃ room room' gone, t.accept role transport peer now = .ok ⟨room, t.nextId, gone⟩ ∧
        t'.accept role transport peer now = .ok ⟨room', t.nextId, gone⟩ ∧ room.Shuffled room' := by
  rcases h.makeRoom role with ⟨refusal, hroom, hroom'⟩ | ⟨room, room', gone, hroom, hroom', hshuffled, hnone⟩
  · refine .inl ⟨refusal, ?_, ?_⟩
    · rw [SlotTable.accept, hroom]
    · rw [SlotTable.accept, hroom']
  · refine .inr ⟨_, _, gone, ?_, ?_, hshuffled.enter hnone transport peer now⟩
    · rw [SlotTable.accept, hroom]
    · rw [SlotTable.accept, hroom', h.nextId]

end Fields

/-! ## What is closed -/

theorem close_snd (t : SlotTable) (id : SlotId) : (t.close id).2 = (t.find? id).map (·.advance .closed) := by
  unfold close
  cases t.find? id with
  | none => rfl
  | some s => rfl

theorem find?_without (t : SlotTable) {ids : List SlotId} {id : SlotId} (h : id ∉ ids) :
    (t.without ids).find? id = t.find? id := by
  rw [SlotTable.find?, SlotTable.find?, SlotTable.without, List.find?_filter]
  congr 1
  funext s
  by_cases hid : s.id = id <;> simp [hid, h]

theorem closeEach_snd {ids : List SlotId} (h : ids.Nodup) :
    (t.closeEach ids).2 = ids.filterMap fun id => (t.find? id).map (·.advance .closed) := by
  induction ids generalizing t with
  | nil => rfl
  | cons id rest ih =>
    obtain ⟨hnew, hrest⟩ := List.nodup_cons.mp h
    have hlater : (rest.filterMap fun id' => ((t.without [id]).find? id').map (·.advance .closed)) =
        rest.filterMap fun id' => (t.find? id').map (·.advance .closed) := by
      apply List.filterMap_congr
      intro id' hid'
      rw [find?_without]
      rintro hmem
      exact hnew (List.mem_singleton.mp hmem ▸ hid')
    have hclosed : (t.closeEach (id :: rest)).2 = (t.close id).2.toList ++ ((t.close id).1.closeEach rest).2 := rfl
    rw [hclosed, ih hrest, close_fst, hlater, close_snd]
    cases hs : t.find? id with
    | none => simp [hs]
    | some s => simp [hs]

theorem WellFormed.map_id_closeEach (h : t.WellFormed) {ids : List SlotId} (hnodup : ids.Nodup)
    (hids : ∀ id ∈ ids, id ∈ t.ids) : (t.closeEach ids).2.map (·.id) = ids := by
  have hfound : ids.filterMap (fun id => ((t.find? id).map (·.advance .closed)).map (·.id)) = ids.filterMap some := by
    apply List.filterMap_congr
    intro id hid
    obtain ⟨s, hs, rfl⟩ := List.mem_map.mp (hids id hid)
    rw [h.find?_of_mem hs, Option.map_some, Option.map_some, ((Slot.Continues.refl s).advance .closed).id]
  rw [closeEach_snd hnodup, List.map_filterMap, hfound, List.filterMap_some]

theorem WellFormed.closeEach_ids (h : t.WellFormed) : (t.closeEach t.ids).2 = t.slots.map (·.advance .closed) := by
  have hids : t.ids.Nodup := h.nodup
  rw [closeEach_snd hids, ids, List.filterMap_map, ← List.filterMap_eq_map]
  apply List.filterMap_congr
  intro s hs
  simp only [Function.comp_apply, h.find?_of_mem hs, Option.map_some]

theorem WellFormed.slots_without_expired (h : t.WellFormed) (now timeout : Nat) :
    (t.without (t.expired now timeout)).slots = t.slots.filter fun s => s.idleFor now < timeout := by
  rw [without]
  apply List.filter_congr
  intro s hs
  have hexpired : s.id ∈ t.expired now timeout ↔ timeout ≤ s.idleFor now := by
    rw [expired, List.mem_map]
    constructor
    · rintro ⟨s', hs', hid⟩
      rw [List.mem_filter] at hs'
      rw [← h.eq_of_id hs'.1 hs hid]
      exact of_decide_eq_true hs'.2
    · intro hidle
      exact ⟨s, List.mem_filter.mpr ⟨hs, decide_eq_true hidle⟩, rfl⟩
  simp only [hexpired, Nat.not_le]

theorem without_congr (t : SlotTable) {ids ids' : List SlotId} (h : ∀ id, id ∈ ids' ↔ id ∈ ids) :
    t.without ids' = t.without ids := by
  simp only [without, h]

theorem Shuffled.closeEach_ids (h : t.Shuffled t') {ids : List SlotId} (hids : ids.Perm t'.ids) :
    (t.closeEach t.ids).1.Shuffled (t'.closeEach ids).1 ∧ (t'.closeEach ids).2.Perm (t.closeEach t.ids).2 := by
  have hperm : ids.Perm t.ids := hids.trans h.ids
  have hnodup : t.ids.Nodup := h.orderly.wellFormed.nodup
  constructor
  · rw [closeEach_fst, closeEach_fst, without_congr t' fun _ => hperm.mem_iff]
    exact h.without t.ids
  · rw [closeEach_snd (hperm.nodup_iff.mpr hnodup), closeEach_snd hnodup]
    simp only [h.find?]
    exact hperm.filterMap _

end SlotTable

end GatedRelay
