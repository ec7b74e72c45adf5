import GatedRelay.Pair.Run

/-!
# One outbox among many

What an effect does to the outbox of a slot depends on that outbox and the effect alone.
-/

set_option autoImplicit false

namespace GatedRelay.Outboxes

theorem find?_modify (o : Outboxes) (id slot : SlotId) (f : Outbox → Outbox) :
    (o.modify slot f).find? id = if slot = id then (o.find? id).map f else o.find? id := by
  have hcomp : ((fun entry : SlotId × Outbox => decide (entry.1 = id)) ∘
      fun entry => if entry.1 = slot then (entry.1, f entry.2) else entry) = fun entry => decide (entry.1 = id) := by
    funext entry
    by_cases h : entry.1 = slot <;> simp [h]
  simp only [find?, modify, List.find?_map, hcomp]
  cases hb : o.boxes.find? (fun entry => decide (entry.1 = id)) with
  | none => simp
  | some entry =>
    have hid : entry.1 = id := by simpa using List.find?_some hb
    by_cases h : slot = id
    · simp [h, hid]
    · have hne : id ≠ slot := fun heq => h heq.symm
      simp [h, hid, hne]

theorem find?_add (o : Outboxes) (id slot : SlotId) (capacity : Nat) :
    (o.add slot capacity).find? id =
      (o.find? id).or (if slot = id then some { capacity := capacity } else none) := by
  simp only [find?, add, List.find?_append, Option.map_or]
  by_cases h : slot = id
  · simp [h]
  · simp [h]

theorem find?_take (o : Outboxes) (id slot : SlotId) :
    (o.take slot).2.find? id = if slot = id then (o.find? id).map (·.take.2) else o.find? id := by
  unfold take
  cases hb : o.find? slot with
  | none =>
    simp only
    split
    · rename_i heq
      rw [← heq, hb]
      rfl
    · rfl
  | some b =>
    simp only [find?_modify]
    split
    · rename_i heq
      rw [← heq, hb]
      rfl
    · rfl

def applyAt (capacity : Nat) (id : SlotId) (b : Option Outbox) : Effect → Option Outbox
  | .opened slot => b.or (if slot = id then some { capacity := capacity } else none)
  | .queued slot message => if slot = id then b.map (·.offer message) else b
  | .released slot => if slot = id then b.map (·.finish) else b
  | .logged _ => b

theorem find?_apply (capacity : Nat) (o : Outboxes) (e : Effect) (id : SlotId) :
    (o.apply capacity e).find? id = applyAt capacity id (o.find? id) e := by
  cases e with
  | opened slot => exact o.find?_add id slot capacity
  | queued slot message => exact o.find?_modify id slot _
  | released slot => exact o.find?_modify id slot _
  | logged entry => rfl

theorem find?_applyEach (capacity : Nat) (o : Outboxes) (effects : List Effect) (id : SlotId) :
    (o.applyEach capacity effects).find? id = effects.foldl (applyAt capacity id) (o.find? id) := by
  induction effects generalizing o with
  | nil => rfl
  | cons e rest ih =>
    rw [applyEach, List.foldl_cons, List.foldl_cons, ← find?_apply]
    exact ih _

theorem applyEach_logged {es : List Effect} (h : ∀ e ∈ es, ∃ entry, e = .logged entry) (capacity : Nat)
    (o : Outboxes) : o.applyEach capacity es = o := by
  induction es with
  | nil => rfl
  | cons e rest ih =>
    obtain ⟨entry, rfl⟩ := h e List.mem_cons_self
    exact ih fun e he => h e (List.mem_cons_of_mem _ he)

end GatedRelay.Outboxes
