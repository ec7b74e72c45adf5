import GatedRelay.Proofs.Pair.Settling
import GatedRelay.Proofs.Pair.Tables
import GatedRelay.Proofs.Slot.Interleaving
import GatedRelay.Proofs.Slot.Order
import GatedRelay.Proofs.Store.Postings

/-!
# Slots leave in any order

Every slot that leaves the table adds to the record of the pair, and when the last engineer leaves, the clock is written.
Additions commute with each other and with the clock, and the clock is written once however the leavers are ordered.  So
slots may be closed in any order: the pair is the same, but for the order of its slots and of effects on different slots.
-/

set_option autoImplicit false

namespace GatedRelay

theorem Effect.onSlot_of_quiet {es : List Effect} (h : ∀ e ∈ es, e.IsQuiet) {id : SlotId}
    (hid : id ∉ Effect.releases es) : Effect.onSlot id es = [] := by
  apply List.filter_eq_nil_iff.mpr
  intro e he hslot
  have hquiet := h e he
  cases e with
  | released slot =>
    obtain rfl := Option.some.inj (of_decide_eq_true hslot)
    exact hid (List.mem_filterMap.mpr ⟨_, he, rfl⟩)
  | opened slot | queued slot message => exact hquiet
  | logged entry => cases of_decide_eq_true hslot

namespace Pair

/-! ## Pairs with their slots in another order -/

theorem unseen_shuffled : Unseen SlotTable.Shuffled Effect.Interleaved where
  find? h id := by rw [h.find?]
  user? h := by rw [h.user?]
  gate h id gate := h.modify id fun _ => rfl
  notice h id now := h.modify id fun _ => rfl
  reset h := h.resetGates
  cons h e := (Effect.Interleaved.refl [e]).append h

/-- The second pair is the first with its slots in another order, and with the effects on different slots in another
order. -/
abbrev Shuffled (p q : Pair) : Prop := DiffersBy SlotTable.Shuffled Effect.Interleaved p q

theorem Shuffled.refl {p : Pair} (h : p.slots.Orderly) : p.Shuffled p := ⟨_, _, rfl, h.refl, .refl _⟩

theorem Shuffled.symm {p q : Pair} (h : p.Shuffled q) : q.Shuffled p := by
  obtain ⟨_, _, rfl, hslots, hpast⟩ := h
  exact ⟨_, _, rfl, hslots.symm, hpast.symm⟩

theorem Shuffled.trans {p q r : Pair} (h : p.Shuffled q) (h' : q.Shuffled r) : p.Shuffled r := by
  obtain ⟨_, _, rfl, hslots, hpast⟩ := h
  obtain ⟨_, _, rfl, hslots', hpast'⟩ := h'
  exact ⟨_, _, rfl, hslots.trans hslots', hpast.trans hpast'⟩

/-! ## Leaving the books -/

def dropped (p : Pair) : List Effect := if p.store.running then [] else [.logged .writeDropped]

def book (p : Pair) (es : List Effect) (x : Posting) : Pair :=
  { p with store := p.store.post x.request, history := p.dropped ++ (es ++ p.history) }

theorem post_eq_book (p : Pair) (x : Posting) : p.post x.request = p.book [] x := by
  unfold post book dropped
  split
  · rfl
  · rename_i hstopped
    rw [Service.post_request, if_neg fun h => hstopped h.1]
    rfl

theorem onSlot_dropped (p : Pair) (id : SlotId) : Effect.onSlot id p.dropped = [] := by
  unfold dropped
  split
  · rfl
  · rfl

theorem book_comm {p : Pair} (hp : p.slots.Orderly) (es es' : List Effect)
    (h : ∀ id, Effect.onSlot id es = [] ∨ Effect.onSlot id es' = []) (x y : Posting) :
    ((p.book es x).book es' y).Shuffled ((p.book es' y).book es x) := by
  have hdropped (es : List Effect) (x : Posting) : (p.book es x).dropped = p.dropped := by
    simp only [dropped, book, Service.running_post]
  have hstore : ((p.book es' y).book es x).store = ((p.book es x).book es' y).store := p.store.post_comm y x
  refine ⟨p.slots, ((p.book es' y).book es x).history, ?_, hp.refl, ?_⟩
  · rw [← hstore]
    rfl
  · have hswap : Effect.Interleaved ((p.dropped ++ es') ++ (p.dropped ++ es))
        ((p.dropped ++ es) ++ (p.dropped ++ es')) := by
      apply Effect.Interleaved.swap
      intro id
      simp only [Effect.onSlot_append, onSlot_dropped, List.nil_append]
      exact (h id).symm
    have hall := hswap.append (.refl p.history)
    simp only [List.append_assoc] at hall
    simpa only [book, dropped, Service.running_post] using hall

def account (p : Pair) (s : Slot) : Posting :=
  match s.role with
  | .user => .session p.recordPort s.messages 0 true
  | .engineer => .session p.recordPort 0 s.messages false

/-- Log and account for a slot that has left the table, whatever slots are left. -/
def leave (p : Pair) (s : Slot) : Pair := (p.released s).post (p.account s).request

def saveIf (p : Pair) (c : Prop) [Decidable c] : Pair := if c then p.saveClock else p

theorem leave_eq_book (p : Pair) (s : Slot) :
    p.leave s = p.book [.logged (.closed s.role s.transport), .released s.id] (p.account s) :=
  post_eq_book (p.released s) (p.account s)

theorem finishSlot_eq (p : Pair) (s : Slot) :
    p.finishSlot s = (p.leave s).saveIf (s.role = .engineer ∧ p.slots.engineerCount = 0) := by
  have hslots : (p.leave s).slots = p.slots := by
    rw [leave_eq_book]
    rfl
  cases hrole : s.role with
  | user =>
    rw [p.finishSlot_user hrole, saveIf, if_neg fun h => Role.noConfusion h.1, leave, account, hrole]
    rfl
  | engineer =>
    obtain ⟨posted, hposted, heq⟩ := p.finishSlot_engineer hrole
    have hleave : posted = p.leave s := by
      rw [hposted, leave, account, hrole]
      rfl
    rw [heq, hleave, hslots, saveIf]
    simp only [true_and]

theorem saveClock_of_le {p : Pair} (h : ∀ k, p.key = some k → k.clock ≤ p.savedClock) : p.saveClock = p := by
  unfold saveClock
  split
  · rfl
  · rename_i k hk
    rw [if_pos (h k hk)]

theorem saveClock_of_lt {p : Pair} {k : SigningKey} (hk : p.key = some k) (h : p.savedClock < k.clock) :
    p.saveClock = { p.book [] (.clock p.recordPort k.clock) with savedClock := k.clock } := by
  unfold saveClock
  rw [hk]
  simp only
  rw [if_neg (UInt64.not_le.mpr h), ← post_eq_book]
  rfl

theorem le_or_lt_savedClock (p : Pair) :
    (∀ k, p.key = some k → k.clock ≤ p.savedClock) ∨ ∃ k, p.key = some k ∧ p.savedClock < k.clock := by
  cases hk : p.key with
  | none => exact .inl nofun
  | some k =>
    by_cases hle : k.clock ≤ p.savedClock
    · refine .inl fun k' hk' => ?_
      obtain rfl := Option.some.inj hk'
      exact hle
    · exact .inr ⟨k, rfl, UInt64.not_le.mp hle⟩

theorem saveClock_saveClock (p : Pair) : p.saveClock.saveClock = p.saveClock := by
  rcases p.le_or_lt_savedClock with hle | ⟨k, hk, hlt⟩
  · rw [saveClock_of_le hle, saveClock_of_le hle]
  · rw [saveClock_of_lt hk hlt]
    apply saveClock_of_le
    intro k' hk'
    obtain rfl := Option.some.inj (hk.symm.trans hk')
    exact UInt64.le_refl _

theorem leave_withSlots (p : Pair) (t : SlotTable) (s : Slot) :
    leave { p with slots := t } s = { p.leave s with slots := t } := by
  rw [leave_eq_book, leave_eq_book]
  rfl

theorem saveClock_withSlots (p : Pair) (t : SlotTable) :
    saveClock { p with slots := t } = { p.saveClock with slots := t } := by
  let q : Pair := { p with slots := t }
  rcases p.le_or_lt_savedClock with hle | ⟨k, hk, hlt⟩
  · have hq : q.saveClock = q := saveClock_of_le hle
    rw [saveClock_of_le hle]
    exact hq
  · have hq : q.saveClock = { q.book [] (.clock q.recordPort k.clock) with savedClock := k.clock } :=
      saveClock_of_lt hk hlt
    rw [saveClock_of_lt hk hlt]
    exact hq

theorem saveIf_withSlots (p : Pair) (t : SlotTable) (c : Prop) [Decidable c] :
    saveIf { p with slots := t } c = { p.saveIf c with slots := t } := by
  unfold saveIf
  split
  · exact p.saveClock_withSlots t
  · rfl

theorem slots_leave (p : Pair) (s : Slot) : (p.leave s).slots = p.slots := by
  rw [leave_eq_book]
  rfl

theorem slots_saveIf (p : Pair) (c : Prop) [Decidable c] : (p.saveIf c).slots = p.slots := by
  unfold saveIf
  split
  · exact p.booked_saveClock.slots
  · rfl

theorem leave_comm {p : Pair} (hp : p.slots.Orderly) {s s' : Slot} (hne : s.id ≠ s'.id) :
    ((p.leave s).leave s').Shuffled ((p.leave s').leave s) := by
  have haccount (s s' : Slot) : (p.leave s).account s' = p.account s' := by
    rw [leave_eq_book]
    rfl
  rw [leave_eq_book (p.leave s), leave_eq_book (p.leave s'), haccount, haccount, leave_eq_book, leave_eq_book]
  apply book_comm hp [.logged (.closed s.role s.transport), .released s.id]
    [.logged (.closed s'.role s'.transport), .released s'.id]
  intro id
  by_cases hid : s.id = id
  · right
    have hother : s'.id ≠ id := fun heq => hne (hid.trans heq.symm)
    simp [Effect.onSlot, Effect.slot?, hother]
  · left
    simp [Effect.onSlot, Effect.slot?, hid]

theorem saveClock_leave {p : Pair} (hp : p.slots.Orderly) (s : Slot) :
    (p.saveClock.leave s).Shuffled (p.leave s).saveClock := by
  have hleave := p.leave_eq_book s
  rcases p.le_or_lt_savedClock with hle | ⟨k, hk, hlt⟩
  · have hle' : ∀ k, (p.leave s).key = some k → k.clock ≤ (p.leave s).savedClock := by
      rw [hleave]
      exact hle
    rw [saveClock_of_le hle, saveClock_of_le hle']
    exact .refl (by rwa [slots_leave])
  · have hlt' : (p.leave s).savedClock < k.clock := by rwa [hleave]
    have hk' : (p.leave s).key = some k := by rwa [hleave]
    rw [saveClock_of_lt hk hlt, saveClock_of_lt hk' hlt', leave_eq_book, hleave]
    have hcomm := book_comm hp [] [.logged (.closed s.role s.transport), .released s.id] (fun _ => .inl rfl)
      (.clock p.recordPort k.clock) (p.account s)
    exact hcomm.withSavedClock k.clock

theorem saveIf_congr {c c' : Prop} [Decidable c] [Decidable c'] (h : c ↔ c') (p : Pair) : p.saveIf c = p.saveIf c' := by
  unfold saveIf
  simp only [h]

theorem saveIf_saveIf (p : Pair) (c c' : Prop) [Decidable c] [Decidable c'] :
    (p.saveIf c).saveIf c' = p.saveIf (c ∨ c') := by
  by_cases hc : c <;> by_cases hc' : c' <;> simp [saveIf, hc, hc', saveClock_saveClock]

theorem Shuffled.leave {p q : Pair} (h : p.Shuffled q) (s : Slot) : (p.leave s).Shuffled (q.leave s) := by
  have haccount : q.account s = p.account s := by rw [account, account, h.recordPort]
  unfold Pair.leave
  rw [haccount]
  exact ((h.emit unseen_shuffled _).log unseen_shuffled _).post unseen_shuffled _

theorem DiffersBy.saveIf {R : SlotTable → SlotTable → Prop} {H : List Effect → List Effect → Prop} (hR : Unseen R H)
    {p q : Pair} (h : DiffersBy R H p q) (c : Prop) [Decidable c] : DiffersBy R H (p.saveIf c) (q.saveIf c) := by
  unfold Pair.saveIf
  split
  · exact h.saveClock hR
  · exact h

theorem saveIf_leave {p : Pair} (hp : p.slots.Orderly) (c : Prop) [Decidable c] (s : Slot) :
    ((p.saveIf c).leave s).Shuffled ((p.leave s).saveIf c) := by
  unfold saveIf
  split
  · exact saveClock_leave hp s
  · exact .refl (by rwa [slots_leave])

/-- Two slots may leave in either order, and it does not matter either at which of them the clock is written. -/
theorem leave_swap {p : Pair} (hp : p.slots.Orderly) {s s' : Slot} (hne : s.id ≠ s'.id) {a b a' b' : Prop} [Decidable a]
    [Decidable b] [Decidable a'] [Decidable b'] (h : (a ∨ b) ↔ (a' ∨ b')) :
    ((((p.leave s).saveIf a).leave s').saveIf b).Shuffled ((((p.leave s').saveIf a').leave s).saveIf b') := by
  have hgather (s s' : Slot) (a b : Prop) [Decidable a] [Decidable b] :
      ((((p.leave s).saveIf a).leave s').saveIf b).Shuffled (((p.leave s).leave s').saveIf (a ∨ b)) := by
    rw [← saveIf_saveIf]
    exact (saveIf_leave (by rwa [slots_leave]) a s').saveIf unseen_shuffled b
  have hswapped := (leave_comm hp hne).saveIf unseen_shuffled (a ∨ b)
  rw [saveIf_congr h ((p.leave s').leave s)] at hswapped
  exact ((hgather s s' a b).trans hswapped).trans (hgather s' s a' b').symm

/-! ## Closing slots -/

theorem closeSlot_of_none {p : Pair} {id : SlotId} (h : p.slots.find? id = none) : p.closeSlot id = p := by
  rw [closeSlot, SlotTable.close, h]

theorem closeSlot_of_some {p : Pair} {id : SlotId} {s : Slot} (h : p.slots.find? id = some s) :
    p.closeSlot id = { (p.leave (s.advance .closed)).saveIf
      (s.role = .engineer ∧ (p.slots.without [id]).engineerCount = 0) with slots := p.slots.without [id] } := by
  have hclose : p.slots.close id = (p.slots.without [id], some (s.advance .closed)) := by
    rw [← p.slots.close_fst id, SlotTable.close, h]
  have hrole : (s.advance .closed).role = s.role := ((Slot.Continues.refl s).advance .closed).role
  rw [closeSlot, hclose]
  simp only [finishSlot_eq, hrole]
  rw [leave_withSlots, saveIf_withSlots]

theorem engineerCount_without_iff {t : SlotTable} (ht : t.WellFormed) {s : Slot} (hs : s ∈ t.slots) (ids : List SlotId)
    (hkept : s.id ∉ ids) :
    (t.without ids).engineerCount = 0 ↔ s.role ≠ .engineer ∧ (t.without (ids ++ [s.id])).engineerCount = 0 := by
  simp only [SlotTable.engineerCount_eq_zero_iff, SlotTable.mem_without, List.mem_append, List.mem_singleton, not_or]
  constructor
  · intro h
    exact ⟨h s ⟨hs, hkept⟩, fun s' hs' => h s' ⟨hs'.1, hs'.2.1⟩⟩
  · rintro ⟨hrole, h⟩ s' ⟨hs', hkept'⟩
    by_cases hid : s'.id = s.id
    · rwa [ht.eq_of_id hs' hs hid]
    · exact h s' ⟨hs', hkept', hid⟩

theorem closeSlot_closeSlot {p : Pair} {x y : SlotId} (hne : y ≠ x) {s s' : Slot} (hs : p.slots.find? x = some s)
    (hs' : p.slots.find? y = some s') :
    (p.closeSlot x).closeSlot y =
      { ((((p.leave (s.advance .closed)).saveIf (s.role = .engineer ∧ (p.slots.without [x]).engineerCount = 0)).leave
          (s'.advance .closed)).saveIf (s'.role = .engineer ∧ (p.slots.without [x, y]).engineerCount = 0)) with
        slots := p.slots.without [x, y] } := by
  have hfind : (p.slots.without [x]).find? y = some s' := by
    rw [SlotTable.find?_without, hs']
    exact fun hmem => hne (List.mem_singleton.mp hmem)
  rw [closeSlot_of_some hs, closeSlot_of_some hfind]
  simp only [SlotTable.without_without, List.singleton_append]
  rw [leave_withSlots, saveIf_withSlots]

theorem orderly_closeSlot {p : Pair} (hp : p.slots.Orderly) (id : SlotId) : (p.closeSlot id).slots.Orderly := by
  rw [(p.booked_closeSlot id).slots]
  exact hp.within (SlotTable.within_without p.slots [id])

/-- Closing what is not there comes to nothing, before or after another slot is closed. -/
theorem closeSlot_comm_of_none {p : Pair} (hp : p.slots.Orderly) {x y : SlotId} (hne : x ≠ y)
    (h : p.slots.find? x = none) : ((p.closeSlot x).closeSlot y).Shuffled ((p.closeSlot y).closeSlot x) := by
  have hlater : (p.closeSlot y).slots.find? x = none := by
    rw [(p.booked_closeSlot y).slots, SlotTable.find?_without, h]
    exact fun hmem => hne (List.mem_singleton.mp hmem)
  rw [closeSlot_of_none h, closeSlot_of_none hlater]
  exact .refl (orderly_closeSlot hp y)

theorem closeSlot_comm {p : Pair} (hp : p.slots.Orderly) (x y : SlotId) :
    ((p.closeSlot x).closeSlot y).Shuffled ((p.closeSlot y).closeSlot x) := by
  by_cases hne : x = y
  · subst hne
    exact .refl (orderly_closeSlot (orderly_closeSlot hp x) x)
  cases hs : p.slots.find? x with
  | none => exact closeSlot_comm_of_none hp hne hs
  | some s =>
    cases hs' : p.slots.find? y with
    | none => exact (closeSlot_comm_of_none hp (Ne.symm hne) hs').symm
    | some s' =>
      obtain ⟨hmem, rfl⟩ := SlotTable.mem_of_find? hs
      obtain ⟨hmem', rfl⟩ := SlotTable.mem_of_find? hs'
      have hcount := engineerCount_without_iff hp.wellFormed hmem [s'.id] (by simpa using hne)
      have hcount' := engineerCount_without_iff hp.wellFormed hmem' [s.id] (by simpa using Ne.symm hne)
      have hboth : p.slots.without [s'.id, s.id] = p.slots.without [s.id, s'.id] := by
        simp [SlotTable.without, Bool.and_comm]
      have hid (s : Slot) : (s.advance .closed).id = s.id := ((Slot.Continues.refl s).advance .closed).id
      rw [closeSlot_closeSlot (Ne.symm hne) hs hs', closeSlot_closeSlot hne hs' hs, hboth]
      refine (leave_swap hp (by rwa [hid, hid]) ?_).withSlots
        (hp.within (SlotTable.within_without p.slots [s.id, s'.id])).refl
      simp only [List.singleton_append] at hcount hcount'
      rw [hcount, hcount', hboth]
      tauto

/-! ## Any order of steps -/

/-- Steps that may change places in pairs may come in any order. -/
theorem Shuffled.foldl {α : Type} {step : Pair → α → Pair} (apart : α → α → Prop)
    (hsymm : ∀ x y, apart x y → apart y x)
    (hstep : ∀ {p q : Pair} (x : α), p.Shuffled q → (step p x).Shuffled (step q x))
    (hswap : ∀ {p : Pair} {x y : α}, p.slots.Orderly → apart x y →
      (step (step p x) y).Shuffled (step (step p y) x))
    {xs ys : List α} (h : xs.Perm ys) (hxs : xs.Pairwise apart) {p q : Pair} (hpq : p.Shuffled q) :
    (xs.foldl step p).Shuffled (ys.foldl step q) := by
  have hsame (xs : List α) {p q : Pair} (hpq : p.Shuffled q) : (xs.foldl step p).Shuffled (xs.foldl step q) := by
    induction xs generalizing p q with
    | nil => exact hpq
    | cons x xs ih => exact ih (hstep x hpq)
  induction h generalizing p q with
  | nil => exact hpq
  | cons x _ ih => exact ih (List.pairwise_cons.mp hxs).2 (hstep x hpq)
  | swap x y xs =>
    have hapart := (List.pairwise_cons.mp hxs).1 x List.mem_cons_self
    have hswapped := hswap hpq.slots.orderly hapart
    exact hsame xs (hswapped.trans (hstep y (hstep x hpq)))
  | trans h₁ _ ih₁ ih₂ =>
    have hys := h₁.pairwise hxs (hsymm _ _)
    exact (ih₁ hxs (.refl hpq.slots.orderly)).trans (ih₂ hys hpq)

end Pair

end GatedRelay
