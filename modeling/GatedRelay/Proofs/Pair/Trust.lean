import GatedRelay.Proofs.Pair.Reach

/-!
# Trust and the key in force

An engineer is authenticated only while the pair holds a key under which the engineer has signed a frame since its slot
was opened.  Trust lives in the gates and the key outside of them; the two stay together because a rotation empties all
gates, and a key is read from the store only when the table has no engineers.
-/

set_option autoImplicit false

namespace GatedRelay.Pair

/-- The frame has come on the slot since the slot was opened. -/
def Heard (p : Pair) (moves : List (Moment × Move)) (id : SlotId) (f : Frame) : Prop :=
  ∃ earlier m later, moves = earlier ++ (m, .engineerFrame id f) :: later ∧ p.OpenedIn earlier id

theorem Heard.snoc {p : Pair} {moves : List (Moment × Move)} {id : SlotId} {f : Frame} (h : p.Heard moves id f)
    (b : Moment × Move) : p.Heard (moves ++ [b]) id f := by
  obtain ⟨earlier, m, later, rfl, hopened⟩ := h
  exact ⟨earlier, m, later ++ [b], by simp, hopened⟩

def Shown (p : Pair) (moves : List (Moment × Move)) (id : SlotId) (secret : Secret) : Prop :=
  ∃ f, p.Heard moves id f ∧ f.SignedUnder secret

theorem Shown.snoc {p : Pair} {moves : List (Moment × Move)} {id : SlotId} {secret : Secret}
    (h : p.Shown moves id secret) (b : Moment × Move) : p.Shown (moves ++ [b]) id secret := by
  obtain ⟨f, hheard, hsigned⟩ := h
  exact ⟨f, hheard.snoc b, hsigned⟩

def Grounded (p : Pair) (moves : List (Moment × Move)) : Prop :=
  ∀ s ∈ (p.replay moves).slots.slots, s.role = .engineer → s.trust = .authenticated →
    ∃ secret, (p.replay moves).key.map (·.secret) = some secret ∧ p.Shown moves s.id secret

theorem Grounded.snoc {c : Setup} {moves : List (Moment × Move)} (h : c.pair.Grounded moves) (b : Moment × Move) :
    c.pair.Grounded (moves ++ [b]) := by
  intro s hs hrole htrust
  rw [replay_snoc] at hs ⊢
  obtain ⟨_, hsecret, s₀, hs₀, hcont, htrust₀ | ⟨f, hb, hgood⟩⟩ :=
    ((c.pair.replay moves).turn_act b).authenticated (wellFormed_replay c moves) hs hrole htrust
  · obtain ⟨secret, hkey, hshown⟩ := h s₀ hs₀ (hcont.role ▸ hrole) htrust₀
    exact ⟨secret, hsecret.trans hkey, hcont.id ▸ hshown.snoc b⟩
  · obtain ⟨k, hk, hsigned⟩ := Gate.signedUnder_of_judge hgood
    obtain ⟨m, move⟩ := b
    obtain rfl := hb
    refine ⟨k.secret, by rw [hsecret, hk, Option.map_some], f, ⟨moves, m, [], rfl, ?_⟩, hsigned⟩
    rw [hcont.id]
    exact openedIn_of_mem c moves hs₀

theorem grounded_replay (c : Setup) (moves : List (Moment × Move)) : c.pair.Grounded moves := by
  induction moves using List.reverseRecOn with
  | nil =>
    intro s hs
    cases hs
  | append_singleton moves b ih => exact ih.snoc b

/-- A good frame makes its sender authenticated, unless it is a rotation request, which may empty the gate. -/
theorem authenticated_of_good {p : Pair} {id : SlotId} {s : Slot} (hs : p.slots.find? id = some s) (m : Moment)
    {f : Frame} (hgood : (s.gate.judge f p.key).1.isGood = true) (hid : f.msgId ≠ MessageId.setupSigning) :
    ∃ s' ∈ (p.fromEngineer m id f).slots.slots, s'.Continues s ∧ s'.trust = .authenticated := by
  obtain ⟨note, _, _, _, ⟨heq, _⟩ | ⟨_, _, _, hsetup⟩⟩ := fromEngineer_cases hs m f
  · obtain ⟨hmem, rfl⟩ := SlotTable.mem_of_find? hs
    refine ⟨checkedSlot (s.gate.check f p.key).1 note s, ?_, checkedSlot_continues _ note s, ?_⟩
    · rw [heq]
      exact SlotTable.mem_modify.mpr ⟨s, hmem, if_pos rfl⟩
    · rw [Slot.trust, checkedSlot, Gate.check_trust, Trust.after_eq_authenticated_iff]
      exact .inr hgood
  · exact absurd hsetup hid

/-- In every state that a run reaches, an authenticated engineer has signed under the secret of the key in force. -/
theorem signed_of_authenticated (c : Setup) (events : List (Moment × Event)) {s : Slot}
    (hs : s ∈ (c.pair.run events).slots.slots) (hrole : s.role = .engineer) (htrust : s.trust = .authenticated) :
    ∃ k, (c.pair.run events).key = some k ∧
      ∃ f, c.pair.Heard (c.pair.trace events) s.id f ∧ f.SignedUnder k.secret := by
  rw [← replay_trace] at hs ⊢
  obtain ⟨secret, hkey, hshown⟩ := grounded_replay c (c.pair.trace events) s hs hrole htrust
  obtain ⟨k, hk, rfl⟩ := Option.map_eq_some_iff.mp hkey
  exact ⟨k, hk, hshown⟩

theorem signed_of_authenticated_heartbeat :
    ∃ (k : SigningKey) (events : List (Moment × Event)) (s : Slot),
      s ∈ ((Setup.offline (some k)).pair.run events).slots.slots ∧ s.role = .engineer ∧ s.trust = .authenticated ∧
        ∃ k', ((Setup.offline (some k)).pair.run events).key = some k' ∧
          ∃ f, (Setup.offline (some k)).pair.Heard ((Setup.offline (some k)).pair.trace events) s.id f ∧
            f.SignedUnder k'.secret := by
  let k : SigningKey := ⟨Block.ofBytes 32 [], 0⟩
  let f : Frame := heartbeat.sign rfl ⟨k.secret, 1, 0⟩
  let events : List (Moment × Event) :=
    [(⟨0, 0⟩, .connect .engineer .tcp "engineer"), (⟨1, 0⟩, .frames 1 [f])]
  let before := (Setup.offline (some k)).pair.replay
    [(⟨0, 0⟩, .connect .engineer .tcp "engineer"), (⟨1, 0⟩, .arrival 1 1)]
  have htrace : (Setup.offline (some k)).pair.trace events =
      [(⟨0, 0⟩, .connect .engineer .tcp "engineer"), (⟨1, 0⟩, .arrival 1 1)] ++ [(⟨1, 0⟩, .engineerFrame 1 f)] := rfl
  have hrun : (Setup.offline (some k)).pair.run events = before.fromEngineer ⟨1, 0⟩ 1 f := by
    rw [← replay_trace, htrace, replay_snoc, act_engineerFrame]
  have hfind : before.slots.find? 1 = some ⟨1, .engineer, .tcp, "engineer", .active, .new, 1, 1, none⟩ := rfl
  have hgood : (Gate.new.judge f before.key).1.isGood = true := by
    rw [Gate.coherent_new.judge_isGood_iff (by decide)]
    exact ⟨k, _, rfl, rfl, k.secret.verifies_sign _, by decide⟩
  obtain ⟨s, hs, hcont, htrust⟩ := authenticated_of_good hfind ⟨1, 0⟩ hgood (by decide)
  rw [← hrun] at hs
  exact ⟨k, events, s, hs, hcont.role, htrust, signed_of_authenticated _ events hs hcont.role htrust⟩

end GatedRelay.Pair
