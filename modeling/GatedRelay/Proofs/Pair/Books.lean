import GatedRelay.Pair.Forwarding
import GatedRelay.Proofs.Slot.Table

/-!
# What bookkeeping changes

Logging, accounting and writing to the store change the books of a pair and nothing else: its slots, its key and all
that decides where frames go stay.  None of it queues a message, opens a slot or announces a new key.
-/

set_option autoImplicit false

namespace GatedRelay

/-- Neither a message nor a slot that opens nor the news of another key. -/
def Effect.IsQuiet : Effect → Prop
  | opened _ => False
  | queued _ _ => False
  | released _ => True
  | logged entry => entry ≠ .keyReplaced

def Effect.IsNote : Effect → Prop
  | logged entry => entry ≠ .keyReplaced
  | _ => False

theorem Effect.IsNote.isQuiet {e : Effect} (h : e.IsNote) : e.IsQuiet := by
  cases e with
  | logged entry => exact h
  | opened | queued | released => exact h.elim

namespace Pair

/-- The second pair is the first with other books: what is stored, the clock written last, and some quiet effects. -/
def Booked (p q : Pair) : Prop :=
  ∃ store clock es, q = { p with store := store, savedClock := clock, history := es ++ p.history } ∧
    ∀ e ∈ es, e.IsQuiet

theorem Booked.refl (p : Pair) : p.Booked p := ⟨p.store, p.savedClock, [], rfl, by simp⟩

theorem Booked.trans {p q r : Pair} (h₁ : p.Booked q) (h₂ : q.Booked r) : p.Booked r := by
  obtain ⟨_, _, es₁, rfl, hes₁⟩ := h₁
  obtain ⟨store, clock, es₂, rfl, hes₂⟩ := h₂
  refine ⟨store, clock, es₂ ++ es₁, by simp, ?_⟩
  intro e he
  rcases List.mem_append.mp he with he | he
  · exact hes₂ e he
  · exact hes₁ e he

theorem Booked.withSlots {p q : Pair} (h : p.Booked q) (t : SlotTable) :
    Booked { p with slots := t } { q with slots := t } := by
  obtain ⟨store, clock, es, rfl, hes⟩ := h
  exact ⟨store, clock, es, rfl, hes⟩

theorem Booked.withKey {p q : Pair} (h : p.Booked q) (key : Option SigningKey) :
    Booked { p with key := key } { q with key := key } := by
  obtain ⟨store, clock, es, rfl, hes⟩ := h
  exact ⟨store, clock, es, rfl, hes⟩

section Fields

variable {p q : Pair} (h : p.Booked q)

include h

theorem Booked.slots : q.slots = p.slots := by
  obtain ⟨_, _, _, rfl, _⟩ := h
  rfl

theorem Booked.key : q.key = p.key := by
  obtain ⟨_, _, _, rfl, _⟩ := h
  rfl

theorem Booked.refused : q.refused = p.refused := by
  obtain ⟨_, _, _, rfl, _⟩ := h
  rfl

theorem Booked.userSource : q.userSource = p.userSource := by
  obtain ⟨_, _, _, rfl, _⟩ := h
  rfl

theorem Booked.live : q.live = p.live := by
  obtain ⟨_, _, _, rfl, _⟩ := h
  rfl

theorem Booked.history : ∃ es, q.history = es ++ p.history ∧ ∀ e ∈ es, e.IsQuiet := by
  obtain ⟨_, _, es, rfl, hes⟩ := h
  exact ⟨es, rfl, hes⟩

end Fields

theorem booked_emit (p : Pair) {e : Effect} (he : e.IsQuiet) : p.Booked (p.emit e) :=
  ⟨p.store, p.savedClock, [e], rfl, by simpa using he⟩

theorem booked_log (p : Pair) {entry : LogEntry} (h : entry ≠ .keyReplaced) : p.Booked (p.log entry) :=
  p.booked_emit h

theorem booked_post (p : Pair) (request : Request) : p.Booked (p.post request) := by
  unfold post
  split
  · exact ⟨_, p.savedClock, [], rfl, by simp⟩
  · exact p.booked_log (by simp)

theorem booked_saveClock (p : Pair) : p.Booked p.saveClock := by
  unfold saveClock
  split
  · exact .refl p
  · rename_i k _
    split
    · exact .refl p
    · refine (p.booked_post (.advanceTimestamp p.recordPort k.clock)).trans ?_
      exact ⟨_, k.clock, [], rfl, by simp⟩

theorem booked_finishSlot (p : Pair) (s : Slot) : p.Booked (p.finishSlot s) := by
  have hreleased : (Effect.released s.id).IsQuiet := trivial
  have hlog : p.Booked ((p.emit (.released s.id)).log (.closed s.role s.transport)) :=
    (p.booked_emit hreleased).trans (booked_log _ (by simp))
  unfold finishSlot
  simp only
  split
  · exact hlog.trans (booked_post _ _)
  · split
    · exact (hlog.trans (booked_post _ _)).trans (booked_saveClock _)
    · exact hlog.trans (booked_post _ _)

theorem booked_closeSlot (p : Pair) (id : SlotId) :
    Booked { p with slots := p.slots.without [id] } (p.closeSlot id) := by
  have hclose := p.slots.close_fst id
  unfold closeSlot
  split
  · rename_i t heq
    rw [heq] at hclose
    have hsame : p.slots.without [id] = p.slots := by
      rw [← hclose]
      unfold SlotTable.close at heq
      split at heq
      · exact (Prod.mk.inj heq).1.symm
      · cases heq
    rw [hsame]
    exact .refl p
  · rename_i t s heq
    rw [heq] at hclose
    rw [← hclose]
    exact booked_finishSlot _ s

theorem booked_closeSlots (p : Pair) (ids : List SlotId) :
    Booked { p with slots := p.slots.without ids } (p.closeSlots ids) := by
  induction ids generalizing p with
  | nil =>
    rw [SlotTable.without_nil]
    exact .refl p
  | cons id rest ih =>
    have hslot := p.booked_closeSlot id
    have hslots : (p.closeSlot id).slots.without rest = p.slots.without (id :: rest) := by
      rw [hslot.slots, SlotTable.without_without]
      rfl
    have hrest := ih (p.closeSlot id)
    rw [hslots] at hrest
    exact (hslot.withSlots (p.slots.without (id :: rest))).trans hrest

theorem booked_finishEach (p : Pair) (closed : List Slot) : p.Booked (closed.foldl finishSlot p) := by
  induction closed generalizing p with
  | nil => exact .refl p
  | cons s rest ih => exact (p.booked_finishSlot s).trans (ih _)

theorem booked_logRefusal (p : Pair) (refusal : Refusal) (transport : Transport) (peer : Peer) :
    p.Booked (p.logRefusal refusal transport peer) := by
  unfold logRefusal
  split
  · exact .refl p
  · exact p.booked_log (by simp)

theorem booked_established (p : Pair) (m : Moment) (id : SlotId) :
    p.Booked (p.established m id) ∨
      Booked { p with slots := p.slots.modify id fun s => (s.advance .established).touch m.now }
        (p.established m id) := by
  unfold established
  split
  · exact .inl (.refl p)
  · split
    · exact .inr (booked_log _ (by simp))
    · exact .inl (.refl p)

theorem booked_shutdown (p : Pair) :
    Booked { p with slots := p.slots.without p.slots.ids, live := false } p.shutdown := by
  have hslots := p.slots.closeEach_fst p.slots.ids
  have hbooks : Booked { p with slots := p.slots.without p.slots.ids }
      (((p.slots.closeEach p.slots.ids).2.foldl finishSlot
        { p with slots := (p.slots.closeEach p.slots.ids).1 }).saveClock) := by
    rw [hslots]
    exact (booked_finishEach _ _).trans (booked_saveClock _)
  obtain ⟨store, clock, es, heq, hes⟩ := hbooks
  refine ⟨store, clock, es, ?_, hes⟩
  rw [shutdown, shutdownIn]
  simp only [heq]

end Pair

end GatedRelay
