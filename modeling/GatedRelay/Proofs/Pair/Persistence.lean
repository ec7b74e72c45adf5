import GatedRelay.Proofs.Pair.Progress

/-!
# What is kept of the clock

The clock of the key is written after a good frame if it is ahead of what was written last.  What was written last is
remembered across all keys, so it says nothing about a record that has been given another secret with a clock further
back: good frames then raise the clock, and the record does not follow until the old clock is passed.  Nothing else
makes the clock fall behind what was written.
-/

set_option autoImplicit false

namespace GatedRelay

namespace SigningKey

theorem clock_observe_of_lt {k : SigningKey} {t : UInt64} (h : k.clock < t) : (k.observe t).clock = t := by
  rw [observe, Clock.later, if_pos (UInt64.le_of_lt h)]

theorem le_load (secret : Secret) (stored : UInt64) : stored ≤ (load secret stored).clock := Clock.le_add _ _

end SigningKey

namespace Pair

/-- The clock of the key is not behind what was written last. -/
def Settled (p : Pair) : Prop := ∀ k, p.key = some k → p.savedClock ≤ k.clock

def Idle (p : Pair) : Prop := p.store.database.saved = none

theorem Proceeds.settled {p q : Pair} (h : p.Proceeds q) (hp : p.Settled) : q.Settled := by
  induction h with
  | same _ key _ saved => exact fun k hk => saved ▸ hp k (key ▸ hk)
  | ticked key _ later =>
    intro k' hk'
    obtain rfl := Option.some.inj hk'
    exact UInt64.le_trans (hp _ key) later
  | counted => exact hp
  | written key _ =>
    intro k' hk'
    obtain rfl := Option.some.inj (key.symm.trans hk')
    exact UInt64.le_refl _
  | trans _ _ first second => exact second (first hp)

theorem Proceeds.idle {p q : Pair} (h : p.Proceeds q) (hp : p.Idle) : q.Idle := by
  induction h with
  | same _ _ store =>
    rw [Idle, store]
    exact hp
  | ticked => exact hp
  | counted => exact Service.saved_post hp _
  | written => exact Service.saved_post hp _
  | trans _ _ first second => exact second (first hp)

theorem settled_rotateKey {p : Pair} (hp : p.Settled) (m : Moment) (request : SetupSigning) :
    (p.rotateKey m request).Settled := by
  rcases p.rotateKey_cases m request with ⟨_, heq⟩ | ⟨_, heq⟩
  · rw [heq]
    exact hp
  · rw [heq]
    intro k hk
    obtain rfl := Option.some.inj hk
    exact UInt64.le_trans (SigningKey.le_load _ _) (SigningKey.le_observe _ _)

/-! ## The first engineer -/

theorem le_renewedKey {previous : Option SigningKey} {stored : Option Credential} {k q : SigningKey}
    (h : renewedKey previous stored = some k) (hq : previous = some q) (hsecret : q.secret = k.secret) :
    q.clock ≤ k.clock := by
  unfold renewedKey at h
  rw [hq] at h
  split at h
  · rename_i k₀ q₀ _ hprevious
    cases hprevious
    split at h
    · cases h
      rw [UInt64.le_iff_toNat_le, SigningKey.clock_observe]
      exact Nat.le_max_right _ _
    · rename_i hother
      cases h
      exact absurd hsecret.symm hother
  · rename_i hnone
    exact (hnone k q h rfl).elim

/-! ## Moves -/

/-- The first engineer makes the pair read a key whose clock is behind what was written last.  If there was a key
before, it had another secret. -/
def SetsBack (p : Pair) (b : Moment × Move) : Prop :=
  (∃ transport peer, b.2 = .connect .engineer transport peer) ∧ p.slots.engineerCount = 0 ∧
    ∃ k, (p.act b).key = some k ∧ k.clock < p.savedClock ∧ ∀ q, p.key = some q → q.secret ≠ k.secret

theorem settled_act {p : Pair} (hp : p.Settled) (b : Moment × Move) : (p.act b).Settled ∨ p.SetsBack b := by
  cases p.course_act b with
  | proceeds h => exact .inl (h.settled hp)
  | changed change hb =>
    left
    rw [act, hb]
    exact hp
  | rotates _ _ _ _ h heq =>
    left
    rw [heq]
    exact settled_rotateKey (h.settled hp) _ _
  | reads transport peer hb hcount hreads =>
    obtain ⟨stored, _, hkey⟩ := hreads.key
    cases hk : renewedKey p.key stored with
    | none =>
      left
      intro k hk'
      rw [hkey, hk] at hk'
      cases hk'
    | some k =>
      rw [hk, Option.map_some] at hkey
      by_cases hle : p.savedClock ≤ (k.observe b.1.clock).clock
      · left
        intro k' hk'
        obtain rfl := Option.some.inj (hkey.symm.trans hk')
        rw [hreads.saved]
        exact hle
      · refine .inr ⟨⟨transport, peer, hb⟩, hcount, _, hkey, UInt64.not_le.mp hle, ?_⟩
        -- With the secret of the key before, the clock would have been taken over from it.
        intro q hq hsecret
        have hclock := le_renewedKey hk hq hsecret
        exact hle (UInt64.le_trans (hp q hq) (UInt64.le_trans hclock (k.le_observe b.1.clock)))

/-- The clock falls behind what was written only when the first engineer sets it back. -/
theorem settled_or_setBack (c : Setup) (moves : List (Moment × Move)) :
    (c.pair.replay moves).Settled ∨
      ∃ front b, front ++ [b] <+: moves ∧ (c.pair.replay front).SetsBack b := by
  induction moves using List.reverseRecOn with
  | nil => exact .inl fun k _ => UInt64.zero_le
  | append_singleton moves b ih =>
    rcases ih with hp | ⟨front, d, hpart, hback⟩
    · rw [replay_snoc]
      rcases settled_act hp b with hnext | hback
      · exact .inl hnext
      · exact .inr ⟨moves, b, List.prefix_refl _, hback⟩
    · exact .inr ⟨front, d, hpart.trans (List.prefix_append moves [b]), hback⟩

theorem idle_act {p : Pair} (hp : p.Idle) {b : Moment × Move}
    (hb : ∀ change, b.2 = .storeChange change → (change p.store).database.saved = none) : (p.act b).Idle := by
  cases p.course_act b with
  | proceeds h => exact h.idle hp
  | changed change hchange =>
    have hidle := hb change hchange
    rw [Idle, act, hchange]
    exact hidle
  | reads _ _ _ _ hreads =>
    rw [Idle, hreads.store]
    exact hp
  | rotates _ _ _ _ h heq =>
    rw [heq, Idle, store_rotateKey]
    exact Service.saved_post (h.idle hp) _

theorem idle_of_storeChange {p q : Pair} {m : Moment} {e : Event} {change : Service → Service}
    (h : .storeChange change ∈ p.liveMoves m e) (hq : q.Idle) : (change q.store).database.saved = none := by
  rcases p.liveMoves_cases m e with ⟨single, hsingle, hone⟩ | ⟨_, hbatch⟩
  · rw [hone, List.mem_singleton] at h
    subst h
    cases e with
    | storeWrite request =>
      cases hsingle
      exact Service.saved_post hq request
    | storeChange | storeQuit =>
      cases hsingle
      exact hq
    | _ => cases hsingle
  · cases hbatch _ h

theorem idle_replay {c : Setup} (hc : c.store.database.saved = none) {events : List (Moment × Event)}
    {moves : List (Moment × Move)} (h : moves <+: c.pair.trace events) : (c.pair.replay moves).Idle := by
  induction moves using List.reverseRecOn with
  | nil => exact hc
  | append_singleton moves b ih =>
    have hidle := ih ((List.prefix_append moves [b]).trans h)
    rw [replay_snoc]
    refine idle_act hidle fun change hb => ?_
    obtain ⟨before, m, e, front, _, hfront⟩ := event_of_move h
    obtain ⟨move, hmove, rfl⟩ := mem_moves (hfront.subset (List.mem_append_right front List.mem_cons_self))
    obtain rfl := hb
    exact idle_of_storeChange hmove hidle

/-! ## Good frames -/

/-- A good frame that raises the clock raises the stored one to it if that is ahead of what was written last. -/
theorem stored_of_good {p : Pair} (hcan : p.store.CanChange p.recordPort) {id : SlotId} {s : Slot}
    (hs : p.slots.find? id = some s) (m : Moment) {f : Frame} {k : SigningKey} (hk : p.key = some k) {t : Stamp}
    (hgood : (s.gate.judge f p.key).1 = .good t) (hid : f.msgId ≠ MessageId.setupSigning)
    (hraise : k.clock < t.toClock) {r : Credential} (hr : p.store.database.entries.fetch? p.recordPort = some r) :
    (p.fromEngineer m id f).store.database.entries.fetch? p.recordPort =
      some (if p.savedClock < t.toClock then r.advance t.toClock else r) := by
  obtain ⟨es, _, heq⟩ := fromEngineer_of_good hs m hk hgood
  let checked := p.enterGood id (s.gate.check f p.key).1 (k.observe t.toClock) es
  have hwritten := (canChange_saveClock (p := checked) hcan rfl hr).2
  rw [SigningKey.clock_observe_of_lt hraise] at hwritten
  rw [heq, if_neg hid, forward_eq]
  exact hwritten

/-- The stored timestamp reaches that of a good frame that raises the clock unless a clock as late as this was written
before; and then the first engineer has set the clock back since. -/
theorem persisted_unless_setBack (c : Setup) (hc : c.store.database.saved = none) (events : List (Moment × Event))
    {moves : List (Moment × Move)} {m : Moment} {id : SlotId} {f : Frame}
    (h : moves ++ [(m, .engineerFrame id f)] <+: c.pair.trace events) {s : Slot}
    (hs : (c.pair.replay moves).slots.find? id = some s) {k : SigningKey} (hk : (c.pair.replay moves).key = some k)
    {t : Stamp} (hgood : (s.gate.judge f (c.pair.replay moves).key).1 = .good t)
    (hid : f.msgId ≠ MessageId.setupSigning) (hraise : k.clock < t.toClock)
    (hrunning : (c.pair.replay moves).store.running = true) {r : Credential}
    (hr : (c.pair.replay moves).store.database.entries.fetch? (c.pair.replay moves).recordPort = some r) :
    (∃ r', ((c.pair.replay moves).act (m, .engineerFrame id f)).store.database.entries.fetch?
        (c.pair.replay moves).recordPort = some r' ∧
      (t.toClock ≤ r'.timestamp ↔ (c.pair.replay moves).savedClock < t.toClock ∨ t.toClock ≤ r.timestamp)) ∧
    (t.toClock ≤ (c.pair.replay moves).savedClock →
      ∃ front b, front ++ [b] <+: moves ∧ (c.pair.replay front).SetsBack b) := by
  have hidle := idle_replay hc ((List.prefix_append moves _).trans h)
  have hcan : (c.pair.replay moves).store.CanChange (c.pair.replay moves).recordPort :=
    ⟨hrunning, hidle, by rw [hr]; rfl⟩
  have hstored := stored_of_good hcan hs m hk hgood hid hraise hr
  refine ⟨⟨_, hstored, ?_⟩, ?_⟩
  · split
    · rename_i hwritten
      exact ⟨fun _ => .inl hwritten, fun _ => r.le_advance _⟩
    · rename_i hbehind
      exact ⟨.inr, fun h => h.resolve_left hbehind⟩
  intro hsaved
  rcases settled_or_setBack c moves with hsettled | hback
  · have hbehind := UInt64.lt_of_le_of_lt (hsettled k hk) hraise
    exact absurd hsaved (UInt64.not_le.mpr hbehind)
  · exact hback

/-! ## A clock that is set back -/

def laterSecret : Secret := Block.ofBytes 32 [1]

/-- One engineer, and a store with a record whose timestamp is late. -/
def Setup.recorded : Setup :=
  { Setup.offline none with
    store := { database := { entries := Entries.empty.save { port2 := 2, timestamp := 10_000_000 } } } }

def laterHeartbeat (clock : UInt64) : Frame := heartbeat.sign version_heartbeat ⟨laterSecret, 1, clock⟩

/-- An engineer comes and goes, the record gets another secret, and the next engineer signs with that. -/
def setBackRun (clock : UInt64) : List (Moment × Event) :=
  [(⟨0, 0⟩, .connect .engineer .tcp "engineer"), (⟨1, 0⟩, .disconnected 1),
    (⟨2, 0⟩, .storeWrite (.setSigningKey 2 laterSecret 0)), (⟨3, 0⟩, .connect .engineer .tcp "engineer"),
    (⟨4, 0⟩, .frames 2 [laterHeartbeat clock])]

def setBackMoves : List (Moment × Move) :=
  [(⟨0, 0⟩, .connect .engineer .tcp "engineer"), (⟨1, 0⟩, .disconnected 1),
    (⟨2, 0⟩, .storeChange (·.post (.setSigningKey 2 laterSecret 0))), (⟨3, 0⟩, .connect .engineer .tcp "engineer"),
    (⟨4, 0⟩, .arrival 2 1)]

set_option maxRecDepth 4000 in
theorem trace_setBackRun (clock : UInt64) :
    Setup.recorded.pair.trace (setBackRun clock) =
      setBackMoves ++ [(⟨4, 0⟩, .engineerFrame 2 (laterHeartbeat clock))] := rfl

abbrev setBackPair : Pair := Setup.recorded.pair.replay setBackMoves

def engineerSlot : Slot := ⟨2, .engineer, .tcp, "engineer", .active, .new, 4, 1, none⟩

theorem find?_setBackPair : setBackPair.slots.find? 2 = some engineerSlot := rfl

theorem key_setBackPair : setBackPair.key = some ⟨laterSecret, 1_500_000⟩ := by decide +kernel

theorem savedClock_setBackPair : setBackPair.savedClock = 11_500_000 := by decide +kernel

theorem fetch?_setBackPair :
    setBackPair.store.database.entries.fetch? setBackPair.recordPort = some { port2 := 2, secret := laterSecret } := by
  decide +kernel

theorem good_laterHeartbeat (clock : UInt64) :
    (engineerSlot.gate.judge (laterHeartbeat clock) setBackPair.key).1 = .good (Stamp.ofClock clock) := by
  rw [key_setBackPair]
  have hfresh : Gate.Fresh (laterHeartbeat clock) (some ⟨laterSecret, 1_500_000⟩) := by
    refine ⟨_, _, rfl, rfl, heartbeat.verifies_sign rfl ⟨laterSecret, 1, clock⟩, ?_⟩
    have hwindow : (1_500_000 : UInt64).toNat ≤ Gate.newStreamWindow := by decide
    exact Nat.le_trans hwindow (Nat.le_add_left _ _)
  have hgood := (Gate.coherent_new.judge_isGood_iff (by decide) (laterHeartbeat clock) _).mpr hfresh
  exact Gate.judge_eq_good (t := heartbeat.trailerFor ⟨laterSecret, 1, clock⟩) hgood rfl

theorem canChange_setBackPair : setBackPair.store.CanChange setBackPair.recordPort where
  running := by decide +kernel
  idle := by decide +kernel
  stored := by rw [fetch?_setBackPair, Option.isSome_some]

theorem msgId_laterHeartbeat (clock : UInt64) : (laterHeartbeat clock).msgId ≠ MessageId.setupSigning := by
  change heartbeat.msgId ≠ MessageId.setupSigning
  decide

theorem stored_setBackPair {clock : UInt64} (h : 1_500_000 < (Stamp.ofClock clock).toClock) :
    (setBackPair.fromEngineer ⟨4, 0⟩ 2 (laterHeartbeat clock)).store.database.entries.fetch? setBackPair.recordPort =
      some (if 11_500_000 < (Stamp.ofClock clock).toClock
        then ({ port2 := 2, secret := laterSecret } : Credential).advance (Stamp.ofClock clock).toClock
        else { port2 := 2, secret := laterSecret }) := by
  have hstored := stored_of_good canChange_setBackPair find?_setBackPair ⟨4, 0⟩ key_setBackPair
    (good_laterHeartbeat clock) (msgId_laterHeartbeat clock) h fetch?_setBackPair
  rwa [savedClock_setBackPair] at hstored

theorem part_setBackRun (clock : UInt64) :
    setBackMoves ++ [(⟨4, 0⟩, .engineerFrame 2 (laterHeartbeat clock))] <+:
      Setup.recorded.pair.trace (setBackRun clock) :=
  ⟨[], by rw [trace_setBackRun, List.append_nil]⟩

/-- Behind the clock that was written last, a good frame raises the clock and the record stays as it is. -/
theorem unpersisted_setBackRun :
    ∃ (c : Setup) (events : List (Moment × Event)) (moves : List (Moment × Move)) (m : Moment) (id : SlotId)
      (f : Frame) (s : Slot) (k : SigningKey) (t : Stamp) (r : Credential),
      moves ++ [(m, .engineerFrame id f)] <+: c.pair.trace events ∧
      (c.pair.replay moves).slots.find? id = some s ∧ (c.pair.replay moves).key = some k ∧
      (s.gate.judge f (c.pair.replay moves).key).1 = .good t ∧ f.msgId ≠ MessageId.setupSigning ∧
      k.clock < t.toClock ∧ (c.pair.replay moves).store.CanChange (c.pair.replay moves).recordPort ∧
      (c.pair.replay moves).store.database.entries.fetch? (c.pair.replay moves).recordPort = some r ∧
      ¬∃ r', ((c.pair.replay moves).act (m, .engineerFrame id f)).store.database.entries.fetch?
          (c.pair.replay moves).recordPort = some r' ∧ t.toClock ≤ r'.timestamp := by
  have hraise : (1_500_000 : UInt64) < (Stamp.ofClock 2_000_000).toClock := by decide
  have hstored := stored_setBackPair hraise
  rw [if_neg (by decide)] at hstored
  refine ⟨Setup.recorded, setBackRun 2_000_000, setBackMoves, ⟨4, 0⟩, 2, laterHeartbeat 2_000_000, engineerSlot, _, _,
    _, part_setBackRun _, find?_setBackPair, key_setBackPair, good_laterHeartbeat _, msgId_laterHeartbeat _, hraise,
    canChange_setBackPair, fetch?_setBackPair, ?_⟩
  rw [act_engineerFrame, hstored]
  rintro ⟨r', hr', hle⟩
  rw [← Option.some.inj hr'] at hle
  exact absurd hle (by decide)

/-- Behind the clock written last, the second part of the statement applies and names the connect that set it back. -/
theorem setBack_setBackRun :
    (Stamp.ofClock 2_000_000).toClock ≤ setBackPair.savedClock ∧
      ∃ front b, front ++ [b] <+: setBackMoves ∧ (Setup.recorded.pair.replay front).SetsBack b := by
  have hraise : (1_500_000 : UInt64) < (Stamp.ofClock 2_000_000).toClock := by decide
  have hbehind : (Stamp.ofClock 2_000_000).toClock ≤ setBackPair.savedClock := by
    rw [savedClock_setBackPair]
    decide
  refine ⟨hbehind, ?_⟩
  exact (persisted_unless_setBack Setup.recorded rfl (setBackRun 2_000_000) (part_setBackRun _) find?_setBackPair
    key_setBackPair (good_laterHeartbeat _) (msgId_laterHeartbeat _) hraise canChange_setBackPair.running
    fetch?_setBackPair).2 hbehind

end Pair

end GatedRelay
