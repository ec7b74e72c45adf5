import GatedRelay.Proofs.Slot.Outbox
import Mathlib.Data.List.Nodup
import Mathlib.Data.List.Perm.Basic

/-!
# Effects in another order

The effects on one slot have an order, and outboxes depend on it.  Between the effects on two slots the order means
nothing: as long as the effects on each slot keep theirs, every outbox becomes the same.
-/

set_option autoImplicit false

namespace GatedRelay

namespace Effect

def slot? : Effect → Option SlotId
  | opened slot => some slot
  | queued slot _ => some slot
  | released slot => some slot
  | logged _ => none

def onSlot (id : SlotId) (es : List Effect) : List Effect := es.filter (·.slot? = some id)

theorem onSlot_append (id : SlotId) (es es' : List Effect) : onSlot id (es ++ es') = onSlot id es ++ onSlot id es' :=
  List.filter_append _ _

/-- The same effects, and those on any one slot in the same order. -/
structure Interleaved (es es' : List Effect) : Prop where
  perm : es'.Perm es
  same : ∀ id, onSlot id es' = onSlot id es

theorem Interleaved.refl (es : List Effect) : Interleaved es es := ⟨.refl _, fun _ => rfl⟩

theorem Interleaved.symm {es es' : List Effect} (h : Interleaved es es') : Interleaved es' es :=
  ⟨h.perm.symm, fun id => (h.same id).symm⟩

theorem Interleaved.trans {es es' es'' : List Effect} (h : Interleaved es es') (h' : Interleaved es' es'') :
    Interleaved es es'' :=
  ⟨h'.perm.trans h.perm, fun id => (h'.same id).trans (h.same id)⟩

theorem Interleaved.append {es es' later later' : List Effect} (h' : Interleaved later later')
    (h : Interleaved es es') : Interleaved (later ++ es) (later' ++ es') :=
  ⟨h'.perm.append h.perm, fun id => by rw [onSlot_append, onSlot_append, h'.same, h.same]⟩

theorem Interleaved.of_append {es es' later later' : List Effect} (h : Interleaved (later ++ es) (later' ++ es'))
    (hes : Interleaved es es') : Interleaved later later' := by
  constructor
  · exact (List.perm_append_right_iff es').mp (h.perm.trans (hes.perm.symm.append_left later))
  · intro id
    have hboth := h.same id
    rw [onSlot_append, onSlot_append, hes.same] at hboth
    exact List.append_cancel_right hboth

theorem Interleaved.reverse {es es' : List Effect} (h : Interleaved es es') : Interleaved es.reverse es'.reverse := by
  constructor
  · exact (List.reverse_perm es').trans (h.perm.trans (List.reverse_perm es).symm)
  · intro id
    rw [onSlot, onSlot, List.filter_reverse, List.filter_reverse]
    exact congrArg List.reverse (h.same id)

/-- Effects change places if no slot has effects on both sides. -/
theorem Interleaved.swap {es es' : List Effect} (h : ∀ id, onSlot id es = [] ∨ onSlot id es' = []) :
    Interleaved (es ++ es') (es' ++ es) := by
  refine ⟨List.perm_append_comm, fun id => ?_⟩
  rw [onSlot_append, onSlot_append]
  rcases h id with hnone | hnone
  · rw [hnone, List.append_nil, List.nil_append]
  · rw [hnone, List.append_nil, List.nil_append]

/-- Where no slot has more than one effect, the order does not matter. -/
theorem Interleaved.of_perm {es es' : List Effect} (h : es'.Perm es) (hone : (es.map slot?).Nodup) :
    Interleaved es es' := by
  refine ⟨h, fun id => ?_⟩
  have hcount : (onSlot id es).length = (es.map slot?).count (some id) := by
    rw [List.count, List.countP_map, List.countP_eq_length_filter, onSlot]
    congr 2
    funext e
    exact (beq_eq_decide _ _).symm
  have hlength := List.nodup_iff_count_le_one.mp hone (some id)
  rw [← hcount] at hlength
  have hperm : (onSlot id es').Perm (onSlot id es) := h.filter _
  cases hes : onSlot id es with
  | nil =>
    rw [hes] at hperm
    exact hperm.eq_nil
  | cons e rest =>
    rw [hes, List.length_cons] at hlength
    obtain rfl := List.length_eq_zero_iff.mp (Nat.le_zero.mp (Nat.le_of_succ_le_succ hlength))
    rw [hes] at hperm
    exact List.perm_singleton.mp hperm

end Effect

/-- What an outbox becomes depends on the effects on its slot alone. -/
theorem Outboxes.foldl_applyAt_onSlot (capacity : Nat) (id : SlotId) (es : List Effect) (b : Option Outbox) :
    (Effect.onSlot id es).foldl (Outboxes.applyAt capacity id) b = es.foldl (Outboxes.applyAt capacity id) b := by
  induction es generalizing b with
  | nil => rfl
  | cons e rest ih =>
    by_cases he : e.slot? = some id
    · rw [Effect.onSlot, List.filter_cons_of_pos (by simpa using he)]
      exact ih _
    · have hkept : Outboxes.applyAt capacity id b e = b := by
        cases e with
        | opened slot | queued slot | released slot =>
          have hne : slot ≠ id := fun heq => he (congrArg some heq)
          simp [Outboxes.applyAt, hne]
        | logged entry => rfl
      rw [Effect.onSlot, List.filter_cons_of_neg (by simpa using he), List.foldl_cons, hkept]
      exact ih b

theorem Outboxes.find?_applyEach_of_onSlot {o o' : Outboxes} {id : SlotId} (h : o'.find? id = o.find? id)
    {es es' : List Effect} (hes : Effect.onSlot id es' = Effect.onSlot id es) (capacity : Nat) :
    (o'.applyEach capacity es').find? id = (o.applyEach capacity es).find? id := by
  rw [find?_applyEach, find?_applyEach, ← foldl_applyAt_onSlot, hes, h, foldl_applyAt_onSlot]

end GatedRelay
