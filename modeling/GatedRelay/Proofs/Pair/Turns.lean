import GatedRelay.Proofs.Pair.Moves
import GatedRelay.Proofs.Pair.Operations

/-!
# What one move can do

The effects of a move are classified by what they come from (`origin_of_mem_outgo`), and its influence on the gates and
on the secret is one of four (`turn_act`): nothing, a fresh slot, the check of a frame, a rotation.  Invariants of runs
are proved by these cases and do not look into the operations again.
-/

set_option autoImplicit false

namespace GatedRelay

@[simp] theorem Slot.gate_advance (s : Slot) (next : SlotState) : (s.advance next).gate = s.gate := by
  unfold Slot.advance
  split <;> rfl

namespace Pair

/-! ## Effects of a move -/

def outgo (p : Pair) (b : Moment × Move) : List Effect := (p.act b).effectsSince p

def Opens (p : Pair) (b : Moment × Move) (id : SlotId) : Prop := Effect.opened id ∈ p.outgo b

/-- A move that replaces the key on an engineer's request. -/
def Rotates (p : Pair) (b : Moment × Move) : Prop := Effect.logged .keyReplaced ∈ p.outgo b

theorem effectsSince_of_append {p q : Pair} {es : List Effect} (h : q.history = es ++ p.history) :
    q.effectsSince p = es.reverse := by
  simp [effectsSince, h]

theorem rotates_of_history {p : Pair} {b : Moment × Move} (es : List Effect)
    (h : (p.act b).history = .logged .keyReplaced :: (es ++ p.history)) : p.Rotates b := by
  rw [← List.cons_append] at h
  rw [Rotates, outgo, effectsSince_of_append h, List.mem_reverse]
  exact List.mem_cons_self

inductive Origin (p : Pair) (b : Moment × Move) : Effect → Prop where
  | quiet {e : Effect} (h : e.IsQuiet) : Origin p b e
  | admission {role : Role} {transport : Transport} {peer : Peer} {a : Admission}
      (hb : b.2 = .connect role transport peer) (ha : p.slots.accept role transport peer b.1.now = .ok a) :
      Origin p b (.opened a.id)
  | user {f : Frame} {s : Slot} (hb : b.2 = .userFrame f) (hs : s ∈ p.recipients f) :
      Origin p b (.queued s.id (outgoing p.key f).2)
  | engineer {id : SlotId} {f : Frame} {s : Slot} {e : Effect} (hb : b.2 = .engineerFrame id f)
      (hs : p.slots.find? id = some s) (h : CheckEffect p id s f e) : Origin p b e
  | rotation {id : SlotId} {f : Frame} {s : Slot} (hb : b.2 = .engineerFrame id f) (hs : p.slots.find? id = some s)
      (hgood : (s.gate.judge f p.key).1.isGood = true) (hsetup : f.msgId = MessageId.setupSigning) :
      Origin p b (.logged .keyReplaced)

theorem Booked.origins {p p₀ q : Pair} (h : p₀.Booked q) (b : Moment × Move) (hp : p₀.history = p.history) :
    ∃ es, q.history = es ++ p.history ∧ ∀ e ∈ es, Origin p b e := by
  obtain ⟨es, heq, hes⟩ := h.history
  exact ⟨es, hp ▸ heq, fun e he => .quiet (hes e he)⟩

theorem history_act (p : Pair) (b : Moment × Move) :
    ∃ es, (p.act b).history = es ++ p.history ∧ ∀ e ∈ es, Origin p b e := by
  obtain ⟨m, move⟩ := b
  have hquiet (q : Pair) (heq : p.act (m, move) = q) (hq : q.history = p.history) :
      ∃ es, (p.act (m, move)).history = es ++ p.history ∧ ∀ e ∈ es, Origin p (m, move) e :=
    ⟨[], by rw [heq, hq]; rfl, by simp⟩
  cases move with
  | connect role transport peer =>
    rcases p.connect_cases m role transport peer with ⟨_, hq⟩ | ⟨a, q, key, ha, hconnect, hq, _⟩
    · exact hq.origins _ rfl
    · obtain ⟨es, heq, hes⟩ := hq.history
      refine ⟨es ++ [.opened a.id], ?_, ?_⟩
      · simp only [act, hconnect, heq, List.append_assoc, List.singleton_append]
      · intro e he
        rcases List.mem_append.mp he with he | he
        · exact .quiet (hes e he)
        · rw [List.mem_singleton.mp he]
          exact .admission rfl ha
  | refuse peer => exact hquiet _ rfl rfl
  | welcome peer => exact hquiet _ rfl rfl
  | established id =>
    rcases p.booked_established m id with h | h
    · exact h.origins _ rfl
    · exact h.origins _ rfl
  | arrival id count => exact hquiet _ rfl rfl
  | userFrame f =>
    refine ⟨((p.recipients f).map fun s => Effect.queued s.id (outgoing p.key f).2).reverse, ?_, ?_⟩
    · simp only [act, fromUser_eq]
    · intro e he
      rw [List.mem_reverse] at he
      obtain ⟨s, hs, rfl⟩ := List.mem_map.mp he
      exact .user rfl hs
  | engineerFrame id f =>
    cases hs : p.slots.find? id with
    | none => exact hquiet p (by simp only [act, fromEngineer, hs]) rfl
    | some s =>
      obtain ⟨note, store, clock, es, ⟨heq, hes⟩ | ⟨heq, hes, hgood, hsetup⟩⟩ := fromEngineer_cases hs m f
      · exact ⟨es, by simp only [act, heq], fun e he => .engineer rfl hs (hes e he)⟩
      · refine ⟨.logged .keyReplaced :: es, by simp only [act, heq, List.cons_append], ?_⟩
        intro e he
        rcases List.mem_cons.mp he with rfl | he
        · exact .rotation rfl hs hgood hsetup
        · exact .engineer rfl hs (hes e he)
  | disconnected id => exact (p.booked_closeSlot id).origins _ rfl
  | sweep =>
    obtain ⟨q, key, hq, hsweep, _⟩ := p.sweep_cases m
    obtain ⟨es, heq, hes⟩ := hq.history
    exact ⟨es, by simp only [act, hsweep, heq], fun e he => .quiet (hes e he)⟩
  | quit => exact p.booked_shutdown.origins _ rfl
  | storeChange change => exact hquiet _ rfl rfl

theorem origin_of_mem_outgo {p : Pair} {b : Moment × Move} {e : Effect} (h : e ∈ p.outgo b) : Origin p b e := by
  obtain ⟨es, heq, hes⟩ := p.history_act b
  rw [outgo, effectsSince_of_append heq, List.mem_reverse] at h
  exact hes e h

theorem history_replay (p : Pair) (moves : List (Moment × Move)) :
    ∃ es, (p.replay moves).history = es ++ p.history := by
  induction moves generalizing p with
  | nil => exact ⟨[], rfl⟩
  | cons b rest ih =>
    obtain ⟨es, hes, _⟩ := p.history_act b
    obtain ⟨es', hes'⟩ := ih (p.act b)
    exact ⟨es' ++ es, by rw [replay_cons, hes', hes, List.append_assoc]⟩

theorem mem_effects_replay {p : Pair} {moves front : List (Moment × Move)} {b : Moment × Move}
    (h : front ++ [b] <+: moves) {e : Effect} (he : e ∈ (p.replay front).outgo b) :
    e ∈ (p.replay moves).effectsSince p := by
  obtain ⟨later, rfl⟩ := h
  obtain ⟨earlier, hearlier⟩ := p.history_replay front
  obtain ⟨es, hes, _⟩ := (p.replay front).history_act b
  obtain ⟨rest, hrest⟩ := (p.replay (front ++ [b])).history_replay later
  have hhistory : (p.replay (front ++ [b] ++ later)).history = (rest ++ (es ++ earlier)) ++ p.history := by
    rw [replay_append, hrest, replay_snoc, hes, hearlier, List.append_assoc, List.append_assoc]
  rw [outgo, effectsSince_of_append hes] at he
  rw [effectsSince_of_append hhistory, List.reverse_append, List.reverse_append, List.mem_append, List.mem_append]
  exact .inl (.inr he)

theorem effects_fromUser (p : Pair) (f : Frame) :
    (p.fromUser f).effectsSince p = (p.recipients f).map fun s => .queued s.id (outgoing p.key f).2 := by
  have hhistory := congrArg Pair.history (p.fromUser_eq f)
  rw [effectsSince_of_append hhistory, List.reverse_reverse]

theorem queued_of_recipient {p : Pair} {f : Frame} {s : Slot} (hs : s ∈ p.recipients f) (m : Moment) :
    Effect.queued s.id (outgoing p.key f).2 ∈ p.outgo (m, .userFrame f) := by
  have houtgo : p.outgo (m, .userFrame f) = (p.fromUser f).effectsSince p := rfl
  rw [houtgo, effects_fromUser]
  exact List.mem_map_of_mem hs

/-! ## Gates and the secret -/

def KeepsGates (t t' : SlotTable) : Prop := ∀ s ∈ t'.slots, ∃ s₀ ∈ t.slots, s.Continues s₀ ∧ s.gate = s₀.gate

theorem KeepsGates.refl (t : SlotTable) : KeepsGates t t := fun s hs => ⟨s, hs, .refl s, rfl⟩

theorem KeepsGates.without (t : SlotTable) (ids : List SlotId) : KeepsGates t (t.without ids) :=
  fun s hs => ⟨s, (SlotTable.mem_without.mp hs).1, .refl s, rfl⟩

theorem KeepsGates.modify (t : SlotTable) (id : SlotId) {f : Slot → Slot}
    (hf : ∀ s, (f s).Continues s ∧ (f s).gate = s.gate) : KeepsGates t (t.modify id f) := by
  intro s hs
  obtain ⟨s₀, hs₀, rfl⟩ := SlotTable.mem_modify.mp hs
  refine ⟨s₀, hs₀, ?_⟩
  split
  · exact hf s₀
  · exact ⟨.refl s₀, rfl⟩

theorem received_continues (s : Slot) (now count : Nat) :
    (received s now count).Continues s ∧ (received s now count).gate = s.gate := by
  have hfirst : (if s.state = .new then s.advance .established else s).Continues s ∧
      (if s.state = .new then s.advance .established else s).gate = s.gate := by
    split
    · exact ⟨(Slot.Continues.refl s).advance _, s.gate_advance _⟩
    · exact ⟨.refl s, rfl⟩
  unfold received
  simp only
  split
  · exact ⟨⟨hfirst.1.seat, hfirst.1.rank⟩, hfirst.2⟩
  · have hsecond := hfirst.1.advance .active
    exact ⟨⟨hsecond.seat, hsecond.rank⟩, (Slot.gate_advance _ _).trans hfirst.2⟩

inductive Turn (p : Pair) (b : Moment × Move) (q : Pair) : Prop where
  | kept (gates : KeepsGates p.slots q.slots) (secret : q.key.map (·.secret) = p.key.map (·.secret))
      (stays : ¬p.Rotates b)
  /-- A slot with a fresh gate.  Another key is possible, but not in the presence of engineers. -/
  | admitted (new : Slot) (fresh : new.gate = .new) (opens : p.Opens b new.id)
      (gates : ∀ s ∈ q.slots.slots, s = new ∨ ∃ s₀ ∈ p.slots.slots, s.Continues s₀ ∧ s.gate = s₀.gate)
      (secret : q.key.map (·.secret) = p.key.map (·.secret) ∨ p.slots.engineerCount = 0) (stays : ¬p.Rotates b)
  | checked {id : SlotId} {f : Frame} {s : Slot} (hb : b.2 = .engineerFrame id f) (hs : p.slots.find? id = some s)
      (gates : ∀ s' ∈ q.slots.slots, ∃ s₀ ∈ p.slots.slots, s'.Continues s₀ ∧
        s'.gate = if s₀.id = id then (s.gate.check f p.key).1 else s₀.gate)
      (secret : q.key.map (·.secret) = p.key.map (·.secret)) (stays : ¬p.Rotates b)
  | rotated {id : SlotId} {f : Frame} {s : Slot} (hb : b.2 = .engineerFrame id f) (hs : p.slots.find? id = some s)
      (good : (s.gate.judge f p.key).1.isGood = true) (setup : f.msgId = MessageId.setupSigning)
      (gates : ∀ s' ∈ q.slots.slots, ∃ s₀ ∈ p.slots.slots, s'.Continues s₀ ∧ (s'.role = .engineer → s'.gate = .new))
      (turns : p.Rotates b)

theorem checkedSlot_continues (gate : Gate) (note : Option Nat) (s : Slot) : (checkedSlot gate note s).Continues s :=
  ⟨rfl, Nat.le_refl _⟩

theorem mem_checked {t : SlotTable} {id : SlotId} {gate : Gate} {note : Option Nat} {s' : Slot}
    (h : s' ∈ (t.modify id (checkedSlot gate note)).slots) :
    ∃ s₀ ∈ t.slots, s'.Continues s₀ ∧ s'.gate = if s₀.id = id then gate else s₀.gate := by
  obtain ⟨s₀, hs₀, rfl⟩ := SlotTable.mem_modify.mp h
  refine ⟨s₀, hs₀, ?_⟩
  split
  · exact ⟨checkedSlot_continues gate note s₀, rfl⟩
  · exact ⟨.refl s₀, rfl⟩

theorem mem_resetGates {t : SlotTable} {s' : Slot} (h : s' ∈ t.resetGates.slots) :
    ∃ s₀ ∈ t.slots, s'.Continues s₀ ∧ (s'.role = .engineer → s'.gate = .new) := by
  obtain ⟨s₀, hs₀, rfl⟩ := List.mem_map.mp h
  refine ⟨s₀, hs₀, ?_⟩
  split
  · exact ⟨⟨rfl, Nat.le_refl _⟩, fun _ => rfl⟩
  · rename_i hrole
    exact ⟨.refl s₀, fun h => absurd h hrole⟩

theorem not_rotates {p : Pair} {b : Moment × Move} (hb : ∀ id f, b.2 ≠ .engineerFrame id f) : ¬p.Rotates b := by
  intro h
  cases origin_of_mem_outgo h with
  | quiet h => exact h rfl
  | engineer hb' => exact hb _ _ hb'
  | rotation hb' => exact hb _ _ hb'

theorem CheckEffect.ne_keyReplaced {p : Pair} {id : SlotId} {s : Slot} {f : Frame} {e : Effect}
    (h : CheckEffect p id s f e) : e ≠ .logged .keyReplaced := by
  rintro rfl
  cases h with
  | quiet h => exact h rfl

theorem Booked.turn {p q : Pair} {t : SlotTable} (h : Booked { p with slots := t } q) (ht : KeepsGates p.slots t)
    {b : Moment × Move} (hb : ∀ id f, b.2 ≠ .engineerFrame id f) : Turn p b q :=
  .kept (h.slots ▸ ht) (by rw [h.key]) (not_rotates hb)

theorem turn_connect (p : Pair) (m : Moment) (role : Role) (transport : Transport) (peer : Peer) :
    Turn p (m, .connect role transport peer) (p.act (m, .connect role transport peer)) := by
  rcases p.connect_cases m role transport peer with ⟨_, hq⟩ | ⟨a, q, key, ha, hconnect, hq, hkey⟩
  · exact hq.turn (.refl _) (by simp)
  · obtain ⟨hid, gone, htable, _⟩ := SlotTable.accept_eq_ok ha
    obtain ⟨es, hes, _⟩ := hq.history
    let new := (p.slots.without gone).newSlot role transport peer m.now
    have hact : p.act (m, .connect role transport peer) = q := by simp only [act, hconnect]
    have hhistory : q.history = (es ++ [.opened new.id]) ++ p.history := by
      rw [hes, List.append_assoc, hid]
      rfl
    have hslots : q.slots.slots = (p.slots.without gone).slots ++ [new] := by
      rw [hq.slots, htable, SlotTable.slots_enter]
    refine .admitted new rfl ?_ ?_ ?_ (not_rotates (by simp))
    · rw [Opens, outgo, hact, effectsSince_of_append hhistory, List.mem_reverse]
      exact List.mem_append_right es List.mem_cons_self
    · rw [hact]
      intro s hs
      rw [hslots, List.mem_append, List.mem_singleton] at hs
      rcases hs with hs | rfl
      · exact .inr (KeepsGates.without p.slots gone s hs)
      · exact .inl rfl
    · rw [hact, hq.key]
      rcases hkey with rfl | ⟨_, hnone⟩
      · exact .inl rfl
      · exact .inr hnone

theorem turn_engineerFrame (p : Pair) (m : Moment) (id : SlotId) (f : Frame) :
    Turn p (m, .engineerFrame id f) (p.act (m, .engineerFrame id f)) := by
  cases hs : p.slots.find? id with
  | none =>
    have hact : p.act (m, .engineerFrame id f) = p := by simp only [act, fromEngineer, hs]
    have hquiet : ¬p.Rotates (m, .engineerFrame id f) := by
      have hout : p.outgo (m, .engineerFrame id f) = [] := by
        rw [outgo, hact]
        exact effectsSince_of_append (List.nil_append _).symm
      rw [Rotates, hout]
      exact List.not_mem_nil
    rw [hact]
    exact .kept (.refl _) rfl hquiet
  | some s =>
    obtain ⟨note, store, clock, es, ⟨heq, hes⟩ | ⟨heq, hes, hgood, hsetup⟩⟩ := fromEngineer_cases hs m f
    · have hhistory : (p.act (m, .engineerFrame id f)).history = es ++ p.history := by simp only [act, heq]
      refine .checked rfl hs ?_ ?_ ?_
      · simp only [act, heq]
        exact fun s' => mem_checked
      · simp only [act, heq]
        exact s.gate.judge_secret f p.key
      · rw [Rotates, outgo, effectsSince_of_append hhistory, List.mem_reverse]
        exact fun h => (hes _ h).ne_keyReplaced rfl
    · refine .rotated rfl hs hgood hsetup ?_ (rotates_of_history es (by simp only [act, heq]))
      simp only [act, heq]
      -- The gate is checked first and emptied after that; of the two steps only the second one shows.
      intro s₂ hs₂
      obtain ⟨s₁, hs₁, hcont₁, hnew⟩ := mem_resetGates hs₂
      obtain ⟨s₀, hs₀, hcont₀, _⟩ := mem_checked hs₁
      exact ⟨s₀, hs₀, hcont₁.trans hcont₀, hnew⟩

theorem turn_act (p : Pair) (b : Moment × Move) : Turn p b (p.act b) := by
  obtain ⟨m, move⟩ := b
  cases move with
  | connect role transport peer => exact p.turn_connect m role transport peer
  | refuse peer => exact .kept (.refl _) rfl (not_rotates (by simp))
  | welcome peer => exact .kept (.refl _) rfl (not_rotates (by simp))
  | established id =>
    rcases p.booked_established m id with h | h
    · exact h.turn (.refl _) (by simp)
    · refine h.turn (.modify _ _ fun s => ?_) (by simp)
      have hadvance := (Slot.Continues.refl s).advance .established
      exact ⟨⟨hadvance.seat, hadvance.rank⟩, s.gate_advance _⟩
  | arrival id count => exact .kept (.modify _ _ fun s => received_continues s _ _) rfl (not_rotates (by simp))
  | userFrame f =>
    refine .kept ?_ ?_ (not_rotates (by simp))
    · simp only [act, fromUser_eq]
      exact .refl _
    · simp only [act, fromUser_eq]
      split
      · rfl
      · exact outgoing_secret p.key f
  | engineerFrame id f => exact p.turn_engineerFrame m id f
  | disconnected id => exact (p.booked_closeSlot id).turn (.without _ _) (by simp)
  | sweep =>
    obtain ⟨q, key, hq, hsweep, hkey⟩ := p.sweep_cases m
    refine .kept ?_ ?_ (not_rotates (by simp))
    · simp only [act, hsweep, hq.slots]
      exact .without _ _
    · simp only [act, hsweep, hkey]
  | quit =>
    refine .kept ?_ ?_ (not_rotates (by simp))
    · simp only [act, p.booked_shutdown.slots]
      exact .without _ _
    · simp only [act, p.booked_shutdown.key]
  | storeChange change => exact .kept (.refl _) rfl (not_rotates (by simp))

end Pair

end GatedRelay
