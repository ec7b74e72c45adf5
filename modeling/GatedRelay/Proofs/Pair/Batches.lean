import GatedRelay.Pair.Session
import GatedRelay.Proofs.Pair.Reach
import GatedRelay.Proofs.Pair.Tables

/-!
# Where a batch ends does not show

The frames that a peer sends at one instant may reach its pair in one batch or in several.  The arrival of a batch lets
its slot count the frames and takes it past its first ones.  What is then done with each frame looks at neither, so the
arrival of a second batch may as well come before the frames of the first (`arrival_fromRole`).
-/

set_option autoImplicit false

namespace GatedRelay

/-! ## Counting in parts -/

namespace Slot

def counted (s : Slot) (now count : Nat) : Slot := (s.touch now).count count

theorem count_count (s : Slot) {a b : Nat} (h : a + b < UInt32.size) : (s.count a).count b = s.count (a + b) := by
  have ha : a % UInt32.size = a := Nat.mod_eq_of_lt (by omega)
  have hb : b % UInt32.size = b := Nat.mod_eq_of_lt (by omega)
  have hab : (a + b) % UInt32.size = a + b := Nat.mod_eq_of_lt h
  have hfirst : (UInt32.ofNat (min (s.messages.toNat + a) (UInt32.size - 1))).toNat =
      min (s.messages.toNat + a) (UInt32.size - 1) :=
    UInt32.toNat_ofNat_of_lt' (Nat.lt_of_le_of_lt (Nat.min_le_right _ _) (by decide))
  have hsum : min (min (s.messages.toNat + a) (UInt32.size - 1) + b) (UInt32.size - 1) =
      min (s.messages.toNat + (a + b)) (UInt32.size - 1) := by omega
  simp only [count, ha, hb, hab, hfirst, hsum]

theorem counted_counted (s : Slot) (now : Nat) {a b : Nat} (h : a + b < UInt32.size) :
    (s.counted now a).counted now b = s.counted now (a + b) := by
  simp only [counted, ← count_count (s.touch now) h]
  rfl

end Slot

namespace Pair

def entered (s : Slot) (count : Nat) : Slot :=
  let s := if s.state = .new then s.advance .established else s
  if count = 0 then s else s.advance .active

theorem received_eq (s : Slot) (now count : Nat) : received s now count = (entered s count).counted now count := rfl

theorem entered_of_rank {s : Slot} (h : 2 ≤ s.state.rank) (count : Nat) : entered s count = s := by
  cases hstate : s.state <;> simp_all [entered, Slot.advance, SlotState.canEnter, SlotState.rank]

theorem rank_entered (s : Slot) {count : Nat} (h : count ≠ 0) : 2 ≤ (entered s count).state.rank := by
  cases hstate : s.state <;> simp [entered, hstate, h, Slot.advance, SlotState.canEnter, SlotState.rank]

theorem entered_counted (s : Slot) (now a b : Nat) : entered (s.counted now a) b = (entered s b).counted now a := by
  cases hstate : s.state <;> by_cases hb : b = 0 <;>
    simp [entered, hstate, hb, Slot.counted, Slot.touch, Slot.count, Slot.advance, SlotState.canEnter]

theorem entered_entered (s : Slot) (a b : Nat) : entered (entered s a) b = entered s (a + b) := by
  cases hstate : s.state <;> by_cases ha : a = 0 <;> by_cases hb : b = 0 <;>
    simp [entered, hstate, ha, hb, Slot.advance, SlotState.canEnter]

theorem received_received (s : Slot) (now : Nat) {a b : Nat} (h : a + b < UInt32.size) :
    received (received s now a) now b = received s now (a + b) := by
  simp only [received_eq, entered_counted, entered_entered, Slot.counted_counted _ _ h]

/-! ## A later arrival -/

/-- The slots with an id are past their first frames. -/
def PastFirst (t : SlotTable) (id : SlotId) : Prop := ∀ s ∈ t.slots, s.id = id → 2 ≤ s.state.rank

theorem PastFirst.of_continues {t t' : SlotTable} {id : SlotId} (h : PastFirst t id)
    (hcont : ∀ s ∈ t'.slots, ∃ s₀ ∈ t.slots, s.Continues s₀) : PastFirst t' id := by
  intro s hs hid
  obtain ⟨s₀, hs₀, hs⟩ := hcont s hs
  exact Nat.le_trans (h s₀ hs₀ (hs.id ▸ hid)) hs.rank

theorem PastFirst.modify {t : SlotTable} {id : SlotId} (h : PastFirst t id) (id' : SlotId) {f : Slot → Slot}
    (hf : ∀ s, (f s).Continues s) : PastFirst (t.modify id' f) id := by
  apply h.of_continues
  intro s hs
  obtain ⟨s₀, hs₀, rfl⟩ := SlotTable.mem_modify.mp hs
  refine ⟨s₀, hs₀, ?_⟩
  split
  · exact hf s₀
  · exact .refl s₀

theorem PastFirst.resetGates {t : SlotTable} {id : SlotId} (h : PastFirst t id) : PastFirst t.resetGates id := by
  apply h.of_continues
  intro s hs
  obtain ⟨s₀, hs₀, hcont, _⟩ := mem_resetGates hs
  exact ⟨s₀, hs₀, hcont⟩

def CountsMore (id : SlotId) (now count : Nat) (t t' : SlotTable) : Prop :=
  PastFirst t id ∧ t' = t.modify id (·.counted now count)

theorem unseen_countsMore (id : SlotId) (now count : Nat) : Unseen (CountsMore id now count) Eq where
  find? := by
    rintro t _ ⟨_, rfl⟩ id'
    have hid (s : Slot) : (s.counted now count).id = s.id := rfl
    rw [SlotTable.find?_modify hid, Option.map_map]
    congr 1
    funext s
    by_cases h : s.id = id <;> simp [h, Slot.counted, Slot.touch, Slot.count]
  user? := by
    rintro t _ ⟨_, rfl⟩
    have hrole (s : Slot) : (s.counted now count).role = s.role := rfl
    rw [SlotTable.user?_modify hrole, Option.map_map]
    congr 1
    funext s
    by_cases h : s.id = id <;> simp [h, Slot.counted, Slot.touch, Slot.count, Slot.isOpen]
  gate := by
    rintro t _ ⟨hpast, rfl⟩ id' gate
    refine ⟨hpast.modify id' fun s => ⟨rfl, Nat.le_refl _⟩, ?_⟩
    exact SlotTable.modify_comm (fun _ => rfl) (fun _ => rfl) fun _ => rfl
  notice := by
    rintro t _ ⟨hpast, rfl⟩ id' _
    refine ⟨hpast.modify id' fun s => ⟨rfl, Nat.le_refl _⟩, ?_⟩
    exact SlotTable.modify_comm (fun _ => rfl) (fun _ => rfl) fun _ => rfl
  reset := by
    rintro t _ ⟨hpast, rfl⟩
    exact ⟨hpast.resetGates, SlotTable.resetGates_modify (fun _ => rfl) fun _ _ => rfl⟩
  cons := by
    rintro es _ rfl e
    rfl

variable {p q : Pair} {id : SlotId} {now count : Nat}

theorem recipients_countsMore (h : CountsMore id now count p.slots q.slots) (f : Frame) :
    q.recipients f = (p.recipients f).map fun s => if s.id = id then s.counted now count else s := by
  have hfilter (P : Slot → Bool) (hP : ∀ s, P (s.counted now count) = P s) (slots : List Slot) :
      (slots.map fun s => if s.id = id then s.counted now count else s).filter P =
        (slots.filter P).map fun s => if s.id = id then s.counted now count else s := by
    rw [List.filter_map]
    congr 2
    funext s
    by_cases hs : s.id = id <;> simp [hs, hP]
  rw [recipients, SlotTable.engineers, h.2, SlotTable.modify, hfilter _ fun _ => rfl, hfilter _ fun _ => rfl]
  rfl

theorem fromUser_countsMore (h : DiffersBy (CountsMore id now count) Eq p q) (f : Frame) :
    DiffersBy (CountsMore id now count) Eq (p.fromUser f) (q.fromUser f) := by
  have hrecipients := recipients_countsMore h.slots f
  refine h.fromUser f ?_ ?_
  · rw [hrecipients, List.map_eq_nil_iff]
  · rw [hrecipients, List.map_map, ← h.history]
    congr 2
    apply List.map_congr_left
    intro s _
    by_cases hs : s.id = id <;> simp [hs, Slot.counted, Slot.touch, Slot.count]

/-! ## Batches -/

def fromRole (p : Pair) (m : Moment) (id : SlotId) (role : Role) (frames : List Frame) : Pair :=
  match role with
  | .user => frames.foldl fromUser p
  | .engineer => frames.foldl (fun p f => p.fromEngineer m id f) p

theorem fromRole_append (p : Pair) (m : Moment) (id : SlotId) (role : Role) (a b : List Frame) :
    p.fromRole m id role (a ++ b) = (p.fromRole m id role a).fromRole m id role b := by
  cases role with
  | user => exact List.foldl_append
  | engineer => exact List.foldl_append

theorem handleFrames_of_find? {s : Slot} (hs : p.slots.find? id = some s) (m : Moment) (frames : List Frame) :
    p.handleFrames m id frames = (p.act (m, .arrival id frames.length)).fromRole m id s.role frames := by
  rw [handleFrames, hs]
  rfl

theorem fromRole_countsMore (h : DiffersBy (CountsMore id now count) Eq p q) (m : Moment) (id' : SlotId) (role : Role)
    (frames : List Frame) :
    DiffersBy (CountsMore id now count) Eq (p.fromRole m id' role frames) (q.fromRole m id' role frames) := by
  cases role with
  | engineer => exact h.fromEngineers (unseen_countsMore id now count) m id' frames
  | user =>
    unfold fromRole
    induction frames generalizing p q with
    | nil => exact h
    | cons f rest ih => exact ih (fromUser_countsMore h f)

structure Attended (p q : Pair) : Prop where
  port2 : q.port2 = p.port2
  live : q.live = p.live
  seats : q.slots.slots.map Slot.seat = p.slots.slots.map Slot.seat

theorem Attended.refl (p : Pair) : p.Attended p := ⟨rfl, rfl, rfl⟩

theorem Attended.trans {p q r : Pair} (h : p.Attended q) (h' : q.Attended r) : p.Attended r :=
  ⟨h'.port2.trans h.port2, h'.live.trans h.live, h'.seats.trans h.seats⟩

theorem attended_fromEngineer (p : Pair) (m : Moment) (id : SlotId) (f : Frame) :
    p.Attended (p.fromEngineer m id f) := by
  have hseats := p.seats_engineerFrame m id f
  rw [act_engineerFrame] at hseats
  cases hs : p.slots.find? id with
  | none =>
    rw [fromEngineer, hs]
    exact .refl p
  | some s =>
    obtain ⟨_, _, _, _, ⟨heq, _⟩ | ⟨heq, _⟩⟩ := fromEngineer_cases hs m f
    · exact ⟨by rw [heq], by rw [heq], hseats⟩
    · exact ⟨by rw [heq], by rw [heq], hseats⟩

theorem attended_fromRole (p : Pair) (m : Moment) (id : SlotId) (role : Role) (frames : List Frame) :
    p.Attended (p.fromRole m id role frames) := by
  have hfold (step : Pair → Frame → Pair) (hstep : ∀ p f, Attended p (step p f)) : p.Attended (frames.foldl step p) := by
    induction frames generalizing p with
    | nil => exact .refl p
    | cons f rest ih => exact (hstep p f).trans (ih (step p f))
  cases role with
  | user =>
    refine hfold _ fun p f => ?_
    rw [fromUser_eq]
    exact ⟨rfl, rfl, rfl⟩
  | engineer => exact hfold _ fun p f => p.attended_fromEngineer m id f

theorem attended_arrival (p : Pair) (m : Moment) (id : SlotId) (count : Nat) :
    p.Attended (p.act (m, .arrival id count)) :=
  ⟨rfl, rfl, SlotTable.seats_modify fun s => (received_continues s m.now count).1.seat⟩

theorem attended_handleFrames (p : Pair) (m : Moment) (id : SlotId) (frames : List Frame) :
    p.Attended (p.handleFrames m id frames) := by
  cases hs : p.slots.find? id with
  | none =>
    rw [handleFrames, hs]
    exact .refl p
  | some s =>
    rw [handleFrames_of_find? hs]
    exact (p.attended_arrival m id frames.length).trans (attended_fromRole _ m id s.role frames)

theorem Attended.find? (h : p.Attended q) {s : Slot} (hs : p.slots.find? id = some s) :
    ∃ s', q.slots.find? id = some s' ∧ s'.role = s.role := by
  have hseat (t : SlotTable) : (t.slots.map Slot.seat).find? (·.id = id) = (t.find? id).map Slot.seat := List.find?_map
  have hfound := hseat q.slots
  rw [h.seats, hseat p.slots, hs] at hfound
  obtain ⟨s', hs', hsame⟩ := Option.map_eq_some_iff.mp hfound.symm
  exact ⟨s', hs', congrArg Seat.role hsame⟩

theorem act_arrival_arrival (p : Pair) (m : Moment) (id : SlotId) {a b : Nat} (h : a + b < UInt32.size) :
    (p.act (m, .arrival id a)).act (m, .arrival id b) = p.act (m, .arrival id (a + b)) := by
  simp only [act]
  rw [SlotTable.modify_modify fun s => (received_continues s m.now a).1.id]
  simp only [received_received _ _ h]

theorem act_arrival_of_pastFirst (h : PastFirst p.slots id) (m : Moment) (count : Nat) :
    p.act (m, .arrival id count) = { p with slots := p.slots.modify id (·.counted m.now count) } := by
  have hslots : p.slots.modify id (fun s => received s m.now count) = p.slots.modify id (·.counted m.now count) := by
    simp only [SlotTable.modify, SlotTable.mk.injEq, true_and, and_true]
    apply List.map_congr_left
    intro s hs
    by_cases hid : s.id = id
    · rw [if_pos hid, if_pos hid, received_eq, entered_of_rank (h s hs hid)]
    · rw [if_neg hid, if_neg hid]
  simp only [act, hslots]

theorem pastFirst_arrival (p : Pair) (m : Moment) (id : SlotId) {count : Nat} (h : count ≠ 0) :
    PastFirst (p.act (m, .arrival id count)).slots id := by
  intro s hs hid
  obtain ⟨s₀, _, rfl⟩ := SlotTable.mem_modify.mp hs
  by_cases hid₀ : s₀.id = id
  · rw [if_pos hid₀, received_eq]
    exact rank_entered s₀ h
  · rw [if_neg hid₀] at hid
    exact absurd hid hid₀

/-- Behind the first frames a further batch only counts, and it may as well be counted before them. -/
theorem arrival_fromRole (p : Pair) (m : Moment) (id : SlotId) (role : Role) (frames : List Frame) {count : Nat}
    (h : frames.length + count < UInt32.size) :
    ((p.act (m, .arrival id frames.length)).fromRole m id role frames).act (m, .arrival id count) =
      (p.act (m, .arrival id (frames.length + count))).fromRole m id role frames := by
  rw [← p.act_arrival_arrival m id h]
  cases frames with
  | nil => cases role <;> rfl
  | cons f rest =>
    have hpast := p.pastFirst_arrival m id (Nat.succ_ne_zero rest.length)
    have hdiffers : DiffersBy (CountsMore id m.now count) Eq (p.act (m, .arrival id (rest.length + 1)))
        ((p.act (m, .arrival id (rest.length + 1))).act (m, .arrival id count)) :=
      ⟨_, _, act_arrival_of_pastFirst hpast m count, ⟨hpast, rfl⟩, rfl⟩
    obtain ⟨_, _, heq, ⟨hpast', rfl⟩, rfl⟩ := fromRole_countsMore hdiffers m id role (f :: rest)
    rw [List.length_cons, heq]
    exact act_arrival_of_pastFirst hpast' m count

/-- Two batches at one instant are as good as one. -/
theorem handleFrames_append (p : Pair) (m : Moment) (id : SlotId) {a b : List Frame}
    (h : a.length + b.length < UInt32.size) :
    p.handleFrames m id (a ++ b) = (p.handleFrames m id a).handleFrames m id b := by
  cases hs : p.slots.find? id with
  | none =>
    have hnone (frames : List Frame) : p.handleFrames m id frames = p := by rw [handleFrames, hs]
    rw [hnone, hnone, hnone]
  | some s =>
    obtain ⟨s', hs', hrole⟩ := (p.attended_handleFrames m id a).find? hs
    rw [handleFrames_of_find? hs', handleFrames_of_find? hs, handleFrames_of_find? hs, List.length_append, hrole,
      fromRole_append, p.arrival_fromRole m id s.role a h]

end Pair

end GatedRelay
