import GatedRelay.Proofs.Pair.Reach

/-!
# What engineers are sent

Only an open slot is sent anything.  An engineer of whom no frame has been accepted, since its slot was opened and since
the last rotation of the key, is sent heartbeats of the user and the relay's own status texts, and nothing else.
-/

set_option autoImplicit false

namespace GatedRelay.Pair

def Accepts (p : Pair) (b : Moment × Move) (id : SlotId) : Prop :=
  ∃ s f, p.slots.find? id = some s ∧ b.2 = .engineerFrame id f ∧ (s.gate.judge f p.key).1.isGood = true

def AcceptedIn (p : Pair) (moves : List (Moment × Move)) (id : SlotId) : Prop :=
  ∃ front b, front ++ [b] <+: moves ∧ (p.replay front).Accepts b id

theorem AcceptedIn.exists_mem {p : Pair} {moves : List (Moment × Move)} {id : SlotId} (h : p.AcceptedIn moves id) :
    ∃ b ∈ moves, ∃ f, b.2 = .engineerFrame id f := by
  obtain ⟨front, b, hpart, _, f, _, hmove, _⟩ := h
  exact ⟨b, hpart.subset (List.mem_append_right front List.mem_cons_self), f, hmove⟩

/-- A frame of the slot has been accepted since the slot was opened, and the key has not been rotated since then. -/
def Vouched (p : Pair) (moves : List (Moment × Move)) (id : SlotId) : Prop :=
  ∃ earlier b later, moves = earlier ++ b :: later ∧ p.OpenedIn earlier id ∧ (p.replay earlier).Accepts b id ∧
    ∀ front d, front ++ [d] <+: b :: later → ¬(p.replay (earlier ++ front)).Rotates d

theorem Vouched.snoc {p : Pair} {moves : List (Moment × Move)} {id : SlotId} (h : p.Vouched moves id)
    {b : Moment × Move} (hb : ¬(p.replay moves).Rotates b) : p.Vouched (moves ++ [b]) id := by
  obtain ⟨earlier, a, later, rfl, hopened, haccepts, hstays⟩ := h
  refine ⟨earlier, a, later ++ [b], by simp, hopened, haccepts, ?_⟩
  intro front d hpart
  rw [← List.cons_append, snoc_prefix_snoc] at hpart
  rcases hpart with hpart | ⟨rfl, rfl⟩
  · exact hstays front d hpart
  · exact hb

theorem vouched_of_accepts {p : Pair} {moves : List (Moment × Move)} {id : SlotId} {b : Moment × Move}
    (hopened : p.OpenedIn moves id) (haccepts : (p.replay moves).Accepts b id) (hb : ¬(p.replay moves).Rotates b) :
    p.Vouched (moves ++ [b]) id := by
  refine ⟨moves, b, [], rfl, hopened, haccepts, ?_⟩
  intro front d hpart
  rw [← List.nil_append [b], snoc_prefix_snoc] at hpart
  rcases hpart with hpart | ⟨rfl, rfl⟩
  · simp at hpart
  · rw [List.append_nil]
    exact hb

theorem vouched_of_authenticated (c : Setup) (moves : List (Moment × Move)) {s : Slot}
    (hs : s ∈ (c.pair.replay moves).slots.slots) (hrole : s.role = .engineer) (htrust : s.trust = .authenticated) :
    c.pair.Vouched moves s.id := by
  induction moves using List.reverseRecOn generalizing s with
  | nil => cases hs
  | append_singleton moves b ih =>
    rw [replay_snoc] at hs
    have hwf := wellFormed_replay c moves
    obtain ⟨hstays, _, s₀, hs₀, hcont, htrust₀ | ⟨f, hb, hgood⟩⟩ :=
      ((c.pair.replay moves).turn_act b).authenticated hwf hs hrole htrust
    · rw [hcont.id]
      exact (ih hs₀ (hcont.role ▸ hrole) htrust₀).snoc hstays
    · rw [hcont.id] at hb ⊢
      exact vouched_of_accepts (openedIn_of_mem c moves hs₀) ⟨s₀, f, hwf.find?_of_mem hs₀, hb, hgood⟩ hstays

theorem acceptedIn_of_authenticated {c : Setup} {front moves : List (Moment × Move)} (hfront : front <+: moves)
    {s : Slot} (hs : s ∈ (c.pair.replay front).slots.slots) (hrole : s.role = .engineer)
    (htrust : s.trust = .authenticated) : c.pair.AcceptedIn moves s.id := by
  obtain ⟨earlier, b, later, rfl, _, haccepts, _⟩ := vouched_of_authenticated c front hs hrole htrust
  refine ⟨earlier, b, List.IsPrefix.trans ⟨later, ?_⟩ hfront, haccepts⟩
  rw [List.append_assoc, List.singleton_append]

/-- What any engineer may be sent in a move: the user's heartbeat that the move handles, or an unsigned status text
about the engineer's own frame that the move handles. -/
inductive Public (p : Pair) (b : Moment × Move) (id : SlotId) : Bytes → Prop where
  | heartbeat {f : Frame} (hb : b.2 = .userFrame f) (hf : f.msgId = MessageId.heartbeat) :
      Public p b id (outgoing p.key f).2
  | statusText {g f : Frame} (hb : b.2 = .engineerFrame id g) (sysid compid severity : UInt8) (text : String)
      (hf : f = StatusText.frame sysid compid severity text) (hid : f.msgId = MessageId.statusText)
      (hunsigned : f.trailer = none) : Public p b id f.bytes

theorem public_of_queued {p : Pair} (hwf : p.slots.WellFormed) {b : Moment × Move} {id : SlotId} {message : Bytes}
    (hqueued : Effect.queued id message ∈ p.outgo b) {s : Slot} (hs : p.slots.find? id = some s)
    (hrole : s.role = .engineer) (htrust : s.trust ≠ .authenticated) : Public p b id message := by
  obtain ⟨hmem, hid⟩ := SlotTable.mem_of_find? hs
  cases origin_of_mem_outgo hqueued with
  | quiet hquiet => exact hquiet.elim
  | @user f s' hb hs' =>
    obtain ⟨⟨hmem', _⟩, _, hheartbeat | htrust'⟩ := mem_recipients.mp hs'
    · exact .heartbeat hb hheartbeat
    · rw [hwf.eq_of_id hmem' hmem hid.symm] at htrust'
      exact absurd htrust' htrust
  | engineer hb _ hcheck =>
    cases hcheck with
    | quiet hquiet => exact hquiet.elim
    | notice => exact .statusText hb _ _ _ _ rfl rfl rfl
    | forward user hmem' hrole' =>
      rw [hwf.eq_of_id hmem' hmem hid.symm, hrole] at hrole'
      cases hrole'

theorem state_of_isOpen {s : Slot} (h : s.isOpen = true) : s.state ≠ .new := by
  intro hnew
  simp [Slot.isOpen, hnew] at h

theorem slot_of_queued {c : Setup} {events : List (Moment × Event)} {moves : List (Moment × Move)} {b : Moment × Move}
    (h : moves ++ [b] <+: c.pair.trace events) {id : SlotId} {message : Bytes}
    (hqueued : Effect.queued id message ∈ (c.pair.replay moves).outgo b) :
    ∃ s, (c.pair.replay moves).slots.find? id = some s ∧ s.state ≠ .new := by
  have hwf := wellFormed_replay c moves
  cases origin_of_mem_outgo hqueued with
  | quiet hquiet => exact hquiet.elim
  | @user f s hb hs =>
    obtain ⟨⟨hmem, _⟩, hopen, _⟩ := mem_recipients.mp hs
    exact ⟨s, hwf.find?_of_mem hmem, state_of_isOpen hopen⟩
  | engineer hb _ hcheck =>
    cases hcheck with
    | quiet hquiet => exact hquiet.elim
    | notice =>
      obtain ⟨m, move⟩ := b
      obtain rfl := hb
      obtain ⟨s, hs, _, hstate⟩ := slot_of_engineerFrame h
      exact ⟨s, hs, hstate⟩
    | forward user hmem _ hopen => exact ⟨user, hwf.find?_of_mem hmem, state_of_isOpen hopen⟩

/-- Nothing is sent to a new slot, and an engineer without an accepted frame is sent only what any engineer may be. -/
theorem public_or_vouched (c : Setup) (events : List (Moment × Event)) {moves : List (Moment × Move)}
    {b : Moment × Move} (h : moves ++ [b] <+: c.pair.trace events) {id : SlotId} {message : Bytes}
    (hqueued : Effect.queued id message ∈ (c.pair.replay moves).outgo b) :
    ∃ s, (c.pair.replay moves).slots.find? id = some s ∧ s.state ≠ .new ∧
      (s.role = .engineer → c.pair.Vouched moves id ∨ Public (c.pair.replay moves) b id message) := by
  obtain ⟨s, hs, hstate⟩ := slot_of_queued h hqueued
  refine ⟨s, hs, hstate, ?_⟩
  intro hrole
  by_cases htrust : s.trust = .authenticated
  · obtain ⟨hmem, rfl⟩ := SlotTable.mem_of_find? hs
    exact .inl (vouched_of_authenticated c moves hmem hrole htrust)
  · exact .inr (public_of_queued (wellFormed_replay c moves) hqueued hs hrole htrust)

theorem public_or_vouched_silent :
    ∃ events moves b id message, moves ++ [b] <+: (Setup.offline none).pair.trace events ∧
      Effect.queued id message ∈ ((Setup.offline none).pair.replay moves).outgo b ∧
      ∃ s, ((Setup.offline none).pair.replay moves).slots.find? id = some s ∧ s.state ≠ .new ∧
        (s.role = .engineer → (Setup.offline none).pair.Vouched moves id ∨
          Public ((Setup.offline none).pair.replay moves) b id message) := by
  let events : List (Moment × Event) := [(⟨0, 0⟩, .connect .user .tcp "user"),
    (⟨1, 0⟩, .connect .engineer .tcp "engineer"), (⟨2, 0⟩, .frames 1 [heartbeat])]
  let moves : List (Moment × Move) := [(⟨0, 0⟩, .connect .user .tcp "user"),
    (⟨1, 0⟩, .connect .engineer .tcp "engineer"), (⟨2, 0⟩, .arrival 1 1)]
  let b : Moment × Move := (⟨2, 0⟩, .userFrame heartbeat)
  have hpart : moves ++ [b] <+: (Setup.offline none).pair.trace events := ⟨[], rfl⟩
  let s : Slot := ⟨2, .engineer, .tcp, "engineer", .established, .new, 1, 0, none⟩
  have hrecipient : s ∈ ((Setup.offline none).pair.replay moves).recipients heartbeat := List.mem_singleton.mpr rfl
  have hqueued := queued_of_recipient hrecipient ⟨2, 0⟩
  exact ⟨events, moves, b, 2, _, hpart, hqueued, public_or_vouched _ events hpart hqueued⟩

end GatedRelay.Pair
