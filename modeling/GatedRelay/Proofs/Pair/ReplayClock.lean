import GatedRelay.Proofs.Pair.Persistence

/-!
# The clock under one secret

Signing, checking and the time of day move the clock of a key forward, and a key that is read again takes over the clock
of the one before if the secret is the same.  So under one secret the clock never runs backwards, whatever others write
into the record; only a rotation request that is carried out may set it back.
-/

set_option autoImplicit false

namespace GatedRelay

structure SigningKey.Follows (k' k : SigningKey) : Prop where
  secret : k'.secret = k.secret
  clock : k.clock ≤ k'.clock

namespace SigningKey.Follows

theorem refl (k : SigningKey) : k.Follows k := ⟨rfl, UInt64.le_refl _⟩

theorem trans {k'' k' k : SigningKey} (h' : k''.Follows k') (h : k'.Follows k) : k''.Follows k :=
  ⟨h'.secret.trans h.secret, UInt64.le_trans h.clock h'.clock⟩

end SigningKey.Follows

namespace Pair

/-- Both hold a key, and the second one's follows the first one's, or neither does. -/
def Keeps (p q : Pair) : Prop := Option.Rel SigningKey.Follows q.key p.key

/-- If both hold a key with the same secret, the second one's clock is not behind. -/
def Forward (p q : Pair) : Prop :=
  ∀ k k', p.key = some k → q.key = some k' → k'.secret = k.secret → k.clock ≤ k'.clock

theorem keeps_of_eq {p q : Pair} (h : q.key = p.key) : p.Keeps q := by
  rw [Keeps, h]
  cases p.key with
  | none => exact .none
  | some k => exact .some (.refl k)

theorem Keeps.trans {p q r : Pair} (h : p.Keeps q) (h' : q.Keeps r) : p.Keeps r := by
  unfold Keeps at h h' ⊢
  generalize p.key = before at h
  generalize q.key = between at h h'
  generalize r.key = after at h'
  cases h with
  | none =>
    cases h'
    exact .none
  | some hfirst =>
    cases h' with
    | some hsecond => exact .some (hsecond.trans hfirst)

theorem Keeps.of_some {p q : Pair} (h : p.Keeps q) {k : SigningKey} (hk : p.key = some k) :
    ∃ k', q.key = some k' ∧ k'.Follows k := by
  rw [Keeps, hk] at h
  generalize q.key = after at h
  cases h with
  | some h => exact ⟨_, rfl, h⟩

theorem Keeps.before {p q : Pair} (h : p.Keeps q) {k' : SigningKey} (hk' : q.key = some k') :
    ∃ k, p.key = some k ∧ k'.Follows k := by
  rw [Keeps, hk'] at h
  generalize p.key = before at h
  cases h with
  | some h => exact ⟨_, rfl, h⟩

theorem Forward.then {p q r : Pair} (h : p.Forward q) (h' : q.Keeps r) : p.Forward r := by
  intro k k' hk hk' hsecret
  obtain ⟨k₀, hk₀, hfollows⟩ := h'.before hk'
  exact UInt64.le_trans (h k k₀ hk hk₀ (hfollows.secret.symm.trans hsecret)) hfollows.clock

theorem Keeps.forward {p q : Pair} (h : p.Keeps q) : p.Forward q := by
  intro k k' hk hk' _
  obtain ⟨k₀, hk₀, hfollows⟩ := h.of_some hk
  obtain rfl := Option.some.inj (hk₀.symm.trans hk')
  exact hfollows.clock

/-! ## Moves -/

theorem Proceeds.keeps {p q : Pair} (h : p.Proceeds q) : p.Keeps q := by
  induction h with
  | same _ key => exact keeps_of_eq key
  | ticked key secret later =>
    rw [Keeps, key]
    exact .some ⟨secret, later⟩
  | counted => exact keeps_of_eq rfl
  | written => exact keeps_of_eq rfl
  | trans _ _ first second => exact first.trans second

theorem keeps_judged (p : Pair) (g : Gate) (f : Frame) : p.Keeps { p with key := (g.judge f p.key).2.2 } := by
  cases hgood : (g.judge f p.key).1.isGood with
  | false => exact keeps_of_eq (Gate.judge_of_not_good hgood)
  | true =>
    obtain ⟨k, hk, _⟩ := Gate.signedUnder_of_judge hgood
    obtain ⟨t, ht⟩ := Verdict.isGood_iff.mp hgood
    rw [hk] at ht
    rw [Keeps, hk, Gate.judge_of_good ht]
    exact .some ⟨rfl, k.le_observe _⟩

theorem keeps_fromEngineer {p : Pair} {m : Moment} {id : SlotId} {f : Frame}
    (hstays : ¬p.Rotates (m, .engineerFrame id f)) : p.Keeps (p.fromEngineer m id f) := by
  cases hs : p.slots.find? id with
  | none =>
    simp only [fromEngineer, hs]
    exact keeps_of_eq rfl
  | some s =>
    obtain ⟨note, store, clock, es, ⟨heq, _⟩ | ⟨heq, _⟩⟩ := fromEngineer_cases hs m f
    · rw [heq]
      exact (p.keeps_judged s.gate f).trans (keeps_of_eq rfl)
    · exact absurd (rotates_of_history es (by simp only [act, heq])) hstays

/-- Only the first engineer makes a pair hold a key that does not follow the one before, and then what it holds comes
from the record. -/
theorem keeps_or_reads {p : Pair} {b : Moment × Move} (hstays : ¬p.Rotates b) :
    p.Keeps (p.act b) ∨
      (∃ transport peer, b.2 = .connect .engineer transport peer) ∧ p.Reads (p.act b) b.1 := by
  cases p.course_act b with
  | proceeds h => exact .inl h.keeps
  | changed change hb =>
    left
    rw [act, hb]
    exact keeps_of_eq rfl
  | reads transport peer hb _ h => exact .inr ⟨⟨transport, peer, hb⟩, h⟩
  | @rotates id f _ _ hb =>
    obtain ⟨m, move⟩ := b
    obtain rfl : move = .engineerFrame id f := hb
    exact .inl (keeps_fromEngineer hstays)

theorem Reads.forward {p q : Pair} {m : Moment} (h : p.Reads q m) : p.Forward q := by
  intro k k' hk hk' hsecret
  obtain ⟨stored, _, hkey⟩ := h.key
  obtain ⟨k₀, hk₀, rfl⟩ := Option.map_eq_some_iff.mp (hkey.symm.trans hk')
  exact UInt64.le_trans (le_renewedKey hk₀ hk hsecret.symm) (k₀.le_observe m.clock)

theorem forward_act {p : Pair} {b : Moment × Move} (hstays : ¬p.Rotates b) : p.Forward (p.act b) := by
  rcases keeps_or_reads hstays with hkeeps | ⟨_, hreads⟩
  · exact hkeeps.forward
  · exact hreads.forward

theorem keeps_replay {p : Pair} {moves : List (Moment × Move)}
    (hmoves : ∀ b ∈ moves, ∀ role transport peer, b.2 ≠ .connect role transport peer)
    (hstays : ∀ front b, front ++ [b] <+: moves → ¬(p.replay front).Rotates b) : p.Keeps (p.replay moves) := by
  induction moves using List.reverseRecOn with
  | nil => exact keeps_of_eq rfl
  | append_singleton moves b ih =>
    have hbefore := ih (fun d hd => hmoves d (List.mem_append_left _ hd))
      fun front d hpart => hstays front d (hpart.trans (List.prefix_append moves [b]))
    rw [replay_snoc]
    rcases keeps_or_reads (hstays moves b (List.prefix_refl _)) with hkeeps | ⟨⟨transport, peer, hb⟩, _⟩
    · exact hbefore.trans hkeeps
    · exact absurd hb (hmoves b (List.mem_append_right moves List.mem_cons_self) .engineer transport peer)

/-! ## Events -/

theorem batch_no_connect {p : Pair} {id : SlotId} {frames : List Frame} {b : Move} (h : b ∈ p.batch id frames)
    (role : Role) (transport : Transport) (peer : Peer) : b ≠ .connect role transport peer := by
  rcases mem_batch h with rfl | ⟨f, rfl | rfl⟩
  · exact Move.noConfusion
  · exact Move.noConfusion
  · exact Move.noConfusion

/-- A peer is admitted at the beginning of an event if at all. -/
theorem liveMoves_connect (p : Pair) (m : Moment) (e : Event) :
    ∃ first rest, p.liveMoves m e = first ++ rest ∧ first.length ≤ 1 ∧
      ∀ b ∈ rest, ∀ role transport peer, b ≠ .connect role transport peer := by
  cases e with
  | connect role transport peer => exact ⟨[.connect role transport peer], [], rfl, Nat.le_refl _, by simp⟩
  | frames id frames => exact ⟨[], _, rfl, Nat.zero_le _, fun b hb => batch_no_connect hb⟩
  | datagram role peer frames =>
    simp only [liveMoves]
    split
    · exact ⟨[], _, rfl, Nat.zero_le _, fun b hb => batch_no_connect hb⟩
    · split
      · exact ⟨[], [], rfl, Nat.zero_le _, by simp⟩
      · split
        · exact ⟨[.connect role .udp peer], [.refuse peer], rfl, Nat.le_refl _, by simp⟩
        · rename_i q id _
          refine ⟨[.connect role .udp peer], .welcome peer :: q.batch id frames, rfl, Nat.le_refl _, ?_⟩
          intro b hb
          rcases List.mem_cons.mp hb with rfl | hb
          · simp
          · exact batch_no_connect hb
  | _ => exact ⟨[], _, rfl, Nat.zero_le _, by simp⟩

theorem moves_connect (p : Pair) (m : Moment) (e : Event) :
    ∃ first rest, p.moves m e = first ++ rest ∧ first.length ≤ 1 ∧
      ∀ b ∈ rest, ∀ role transport peer, b.2 ≠ .connect role transport peer := by
  unfold moves
  split
  · obtain ⟨first, rest, heq, hlength, hrest⟩ := p.liveMoves_connect m e
    refine ⟨first.map (m, ·), rest.map (m, ·), by rw [heq, List.map_append], by rwa [List.length_map], ?_⟩
    intro b hb
    obtain ⟨move, hmove, rfl⟩ := List.mem_map.mp hb
    exact hrest move hmove
  · exact ⟨[], [], rfl, Nat.zero_le _, by simp⟩

/-- An event during which the key is replaced on an engineer's request. -/
def RotatesAt (p : Pair) (m : Moment) (e : Event) : Prop := Effect.logged .keyReplaced ∈ (p.step m e).effectsSince p

theorem not_rotates_of_front {p : Pair} {m : Moment} {e : Event} (hstays : ¬p.RotatesAt m e)
    {front : List (Moment × Move)} {b : Moment × Move} (hpart : front ++ [b] <+: p.moves m e) :
    ¬(p.replay front).Rotates b := by
  intro hrotates
  apply hstays
  rw [RotatesAt, ← replay_moves]
  exact mem_effects_replay hpart hrotates

/-- Behind its first move an event keeps the key. -/
theorem first_then_keeps {p : Pair} {m : Moment} {e : Event} (hstays : ¬p.RotatesAt m e) :
    p.Keeps (p.step m e) ∨ ∃ b, ¬p.Rotates b ∧ (p.act b).Keeps (p.step m e) := by
  obtain ⟨first, rest, hmoves, hlength, hrest⟩ := p.moves_connect m e
  have hkeeps : (p.replay first).Keeps (p.step m e) := by
    rw [← replay_moves, hmoves, replay_append]
    refine keeps_replay hrest fun front b hpart => ?_
    rw [← replay_append]
    refine not_rotates_of_front hstays ?_
    rw [hmoves, List.append_assoc]
    exact (List.prefix_append_right_inj first).mpr hpart
  cases first with
  | nil => exact .inl hkeeps
  | cons b later =>
    obtain rfl := List.length_eq_zero_iff.mp (Nat.le_zero.mp (Nat.le_of_succ_le_succ hlength))
    have hpart : [] ++ [b] <+: p.moves m e := by
      rw [hmoves]
      exact List.prefix_append [b] rest
    have hfirst := not_rotates_of_front hstays hpart
    rw [replay_nil] at hfirst
    rw [replay_cons, replay_nil] at hkeeps
    exact .inr ⟨b, hfirst, hkeeps⟩

theorem forward_step {p : Pair} {m : Moment} {e : Event} (hstays : ¬p.RotatesAt m e) : p.Forward (p.step m e) := by
  rcases first_then_keeps hstays with hkeeps | ⟨b, hfirst, hkeeps⟩
  · exact hkeeps.forward
  · exact (forward_act hfirst).then hkeeps

/-- Without an answer of the store there is nothing to read. -/
theorem keeps_step_of_unread {p : Pair} {err : StoreError} (hunread : p.store.load p.recordPort = .error err)
    {m : Moment} {e : Event} (hstays : ¬p.RotatesAt m e) : p.Keeps (p.step m e) := by
  rcases first_then_keeps hstays with hkeeps | ⟨b, hfirst, hkeeps⟩
  · exact hkeeps
  · rcases keeps_or_reads hfirst with hact | ⟨_, hreads⟩
    · exact hact.trans hkeeps
    · obtain ⟨stored, hloaded, _⟩ := hreads.key
      rw [hunread] at hloaded
      cases hloaded

/-! ## Runs -/

/-- A stretch of a run in which the pair always holds a key with the same secret, and no event replaces it. -/
inductive UnderOneSecret (secret : Secret) : Pair → List (Moment × Event) → Prop where
  | nil {p : Pair} {k : SigningKey} (key : p.key = some k) (holds : k.secret = secret) : UnderOneSecret secret p []
  | cons {p : Pair} {k : SigningKey} {m : Moment} {e : Event} {rest : List (Moment × Event)} (key : p.key = some k)
      (holds : k.secret = secret) (stays : ¬p.RotatesAt m e) (later : UnderOneSecret secret (p.step m e) rest) :
      UnderOneSecret secret p ((m, e) :: rest)

theorem UnderOneSecret.holding {secret : Secret} {p : Pair} {events : List (Moment × Event)}
    (h : UnderOneSecret secret p events) : ∃ k, p.key = some k ∧ k.secret = secret := by
  cases h with
  | nil key holds => exact ⟨_, key, holds⟩
  | cons key holds => exact ⟨_, key, holds⟩

theorem UnderOneSecret.keeps {secret : Secret} {p : Pair} {events : List (Moment × Event)}
    (h : UnderOneSecret secret p events) : p.Keeps (p.run events) := by
  induction h with
  | nil => exact keeps_of_eq rfl
  | @cons p k m e rest key holds stays later ih =>
    obtain ⟨k', hk', hsecret⟩ := later.holding
    have hnext : p.Keeps (p.step m e) := by
      rw [Keeps, key, hk']
      exact .some ⟨hsecret.trans holds.symm, forward_step stays k k' key hk' (hsecret.trans holds.symm)⟩
    exact hnext.trans ih

/-- Under one secret the clock never runs backwards: not over an event without a rotation, not over any single move of
an event but a rotation, and not over a stretch of events.  When the store does not answer the key is not lost. -/
theorem clock_forward (c : Setup) (events : List (Moment × Event)) :
    (∀ m e, ¬(c.pair.run events).RotatesAt m e → (c.pair.run events).Forward (c.pair.run (events ++ [(m, e)]))) ∧
    (∀ front b, front ++ [b] <+: c.pair.trace events → ¬(c.pair.replay front).Rotates b →
      (c.pair.replay front).Forward ((c.pair.replay front).act b)) ∧
    (∀ m e err, (c.pair.run events).store.load (c.pair.run events).recordPort = .error err →
      ¬(c.pair.run events).RotatesAt m e → (c.pair.run events).Keeps (c.pair.run (events ++ [(m, e)]))) ∧
    (∀ secret later, UnderOneSecret secret (c.pair.run events) later →
      (c.pair.run events).Keeps (c.pair.run (events ++ later))) := by
  have hsnoc (later : List (Moment × Event)) : c.pair.run (events ++ later) = (c.pair.run events).run later :=
    List.foldl_append
  refine ⟨?_, ?_, ?_, ?_⟩
  · intro m e hstays
    rw [hsnoc]
    exact forward_step hstays
  · intro front b _ hstays
    exact forward_act hstays
  · intro m e err hunread hstays
    rw [hsnoc]
    exact keeps_step_of_unread hunread hstays
  · intro secret later hone
    rw [hsnoc]
    exact hone.keeps

/-! ## A record that is reset -/

def Setup.dated : Setup :=
  { Setup.offline none with
    store :=
      { database := { entries := Entries.empty.save { port2 := 2, secret := laterSecret, timestamp := 10_000_000 } } } }

/-- An engineer comes and goes, and the timestamp of the record is reset. -/
def resetRun : List (Moment × Event) :=
  [(⟨0, 0⟩, .connect .engineer .tcp "engineer"), (⟨1, 0⟩, .disconnected 1), (⟨2, 0⟩, .storeWrite (.resetTimestamp 2))]

def resetMoves : List (Moment × Move) :=
  [(⟨0, 0⟩, .connect .engineer .tcp "engineer"), (⟨1, 0⟩, .disconnected 1),
    (⟨2, 0⟩, .storeChange (·.post (.resetTimestamp 2)))]

theorem trace_resetRun : Setup.dated.pair.trace resetRun = resetMoves := rfl

abbrev resetPair : Pair := Setup.dated.pair.run resetRun

def haltedRun : List (Moment × Event) := resetRun ++ [(⟨2, 0⟩, .storeQuit)]

abbrev haltedPair : Pair := Setup.dated.pair.run haltedRun

theorem key_resetPair : resetPair.key = some ⟨laterSecret, 11_500_000⟩ := by decide +kernel

theorem not_rotatesAt_resetPair : ¬resetPair.RotatesAt ⟨3, 0⟩ (.connect .engineer .tcp "engineer") := by
  unfold RotatesAt
  decide +kernel

theorem not_rotatesAt_haltedPair : ¬haltedPair.RotatesAt ⟨3, 0⟩ (.connect .engineer .tcp "engineer") := by
  unfold RotatesAt
  decide +kernel

theorem key_reconnected :
    (resetPair.step ⟨3, 0⟩ (.connect .engineer .tcp "engineer")).key = some ⟨laterSecret, 11_500_000⟩ := by
  decide +kernel

theorem underOneSecret_resetPair :
    UnderOneSecret laterSecret resetPair [(⟨3, 0⟩, .connect .engineer .tcp "engineer")] :=
  .cons key_resetPair rfl not_rotatesAt_resetPair (.nil key_reconnected rfl)

/-- The next engineer finds the clock that the pair had before, whether the store answers or not. -/
theorem clock_forward_resetRun :
    resetPair.Forward (Setup.dated.pair.run (resetRun ++ [(⟨3, 0⟩, .connect .engineer .tcp "engineer")])) ∧
    (Setup.dated.pair.replay []).Forward ((Setup.dated.pair.replay []).act (⟨0, 0⟩, .connect .engineer .tcp "engineer")) ∧
    haltedPair.Keeps (Setup.dated.pair.run (haltedRun ++ [(⟨3, 0⟩, .connect .engineer .tcp "engineer")])) ∧
    resetPair.Keeps (Setup.dated.pair.run (resetRun ++ [(⟨3, 0⟩, .connect .engineer .tcp "engineer")])) := by
  obtain ⟨hstep, hmove, _, hstretch⟩ := clock_forward Setup.dated resetRun
  obtain ⟨_, _, hunread, _⟩ := clock_forward Setup.dated haltedRun
  refine ⟨hstep _ _ not_rotatesAt_resetPair, hmove _ _ ?_ (not_rotates (by simp)), ?_,
    hstretch laterSecret _ underOneSecret_resetPair⟩
  · rw [trace_resetRun]
    exact ⟨_, rfl⟩
  · exact hunread _ _ .workerGone rfl not_rotatesAt_haltedPair

end Pair

end GatedRelay
