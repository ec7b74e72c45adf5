import GatedRelay.Proofs.Pair.Rotation
import GatedRelay.Proofs.Signing.Window

/-!
# Rotation requests that reach the user

A rotation request carries the new secret.  One that is good stops at the pair, but a signed request that is not good
is forwarded like any other frame, without its signature.  So the user is sent a request exactly when it is open at the
time that a signed request is not good; the second copy of a request is enough.
-/

set_option autoImplicit false

namespace GatedRelay.Pair

/-- A message is queued to the user while a signed rotation request of an engineer is handled. -/
def Discloses (p : Pair) (moves : List (Moment × Move)) : Prop :=
  ∃ front m id f user message, front ++ [(m, .engineerFrame id f)] <+: moves ∧ f.msgId = MessageId.setupSigning ∧
    f.isSigned = true ∧ user ∈ (p.replay front).slots.slots ∧ user.role = .user ∧
    Effect.queued user.id message ∈ (p.replay front).outgo (m, .engineerFrame id f)

/-- A signed rotation request is handled that is not good, at a time when the user is open. -/
def Mishandles (p : Pair) (moves : List (Moment × Move)) : Prop :=
  ∃ front m id f s user, front ++ [(m, .engineerFrame id f)] <+: moves ∧ f.msgId = MessageId.setupSigning ∧
    f.isSigned = true ∧ (p.replay front).slots.find? id = some s ∧
    (s.gate.judge f (p.replay front).key).1.isGood = false ∧ (p.replay front).slots.user? = some user ∧
    user.isOpen = true

/-- To slots other than the sender's a frame that is not good is queued as it is without its signature. -/
theorem queued_of_not_good_iff {p : Pair} {id : SlotId} {s : Slot} (hs : p.slots.find? id = some s) (m : Moment)
    {f : Frame} (hbad : (s.gate.judge f p.key).1.isGood = false) {other : SlotId} (hother : other ≠ id)
    (message : Bytes) :
    Effect.queued other message ∈ p.outgo (m, .engineerFrame id f) ↔
      ∃ user, p.slots.user? = some user ∧ user.isOpen = true ∧ user.id = other ∧
        message = f.withoutSignature.bytes := by
  obtain ⟨note, es, hes, heq⟩ := fromEngineer_of_not_good hs m hbad
  have hhistory : (p.fromEngineer m id f).history = (p.forwarded f ++ es) ++ p.history := by
    rw [heq, List.append_assoc]
  rw [outgo, act_engineerFrame, effectsSince_of_append hhistory, List.mem_reverse, List.mem_append, mem_forwarded]
  constructor
  · rintro (⟨user, huser, hopen, heq⟩ | hmem)
    · cases heq
      exact ⟨user, huser, hopen, rfl, rfl⟩
    · rcases hes _ hmem with hnote | ⟨_, heq⟩
      · exact hnote.elim
      · cases heq
        exact absurd rfl hother
  · rintro ⟨user, huser, hopen, rfl, rfl⟩
    exact .inl ⟨user, huser, hopen, rfl⟩

theorem ne_of_roles (c : Setup) (moves : List (Moment × Move)) {s user : Slot} {id : SlotId}
    (hs : (c.pair.replay moves).slots.find? id = some s) (hengineer : s.role = .engineer)
    (huser : user ∈ (c.pair.replay moves).slots.slots) (hrole : user.role = .user) : user.id ≠ id := by
  intro hsame
  obtain ⟨hmem, hid⟩ := SlotTable.mem_of_find? hs
  rw [(wellFormed_replay c moves).eq_of_id huser hmem (hsame.trans hid.symm), hengineer] at hrole
  cases hrole

/-- The user is sent a signed rotation request exactly when one that is not good finds the user open. -/
theorem discloses_iff_mishandles (c : Setup) (events : List (Moment × Event)) :
    c.pair.Discloses (c.pair.trace events) ↔ c.pair.Mishandles (c.pair.trace events) := by
  constructor
  · rintro ⟨front, m, id, f, user, message, hfront, hsetup, hsigned, huser, hrole, hqueued⟩
    obtain ⟨s, hs, hengineer, _⟩ := slot_of_engineerFrame hfront
    have hother := ne_of_roles c front hs hengineer huser hrole
    cases hgood : (s.gate.judge f (c.pair.replay front).key).1.isGood with
    | true =>
      obtain ⟨_, hlogged⟩ := logged_of_good_request hs m hgood hsetup _ hqueued
      cases hlogged
    | false =>
      obtain ⟨user', huser', hopen, _, _⟩ := (queued_of_not_good_iff hs m hgood hother message).mp hqueued
      exact ⟨front, m, id, f, s, user', hfront, hsetup, hsigned, hs, hgood, huser', hopen⟩
  · rintro ⟨front, m, id, f, s, user, hfront, hsetup, hsigned, hs, hbad, huser, hopen⟩
    obtain ⟨s', hs', hengineer, _⟩ := slot_of_engineerFrame hfront
    obtain rfl := Option.some.inj (hs.symm.trans hs')
    obtain ⟨hmem, hrole⟩ := SlotTable.mem_of_user? huser
    have hother := ne_of_roles c front hs hengineer hmem hrole
    have hqueued := (queued_of_not_good_iff hs m hbad hother _).mpr ⟨user, huser, hopen, rfl, rfl⟩
    exact ⟨front, m, id, f, user, _, hfront, hsetup, hsigned, hmem, hrole, hqueued⟩

/-! ## A request that is sent twice -/

/-- A good request that could not be carried out is not good when it comes again. -/
theorem not_good_of_resent {p : Pair} {id : SlotId} {s : Slot} (hs : p.slots.find? id = some s) (m : Moment) {f : Frame}
    (hgood : (s.gate.judge f p.key).1.isGood = true) (hsetup : f.msgId = MessageId.setupSigning)
    (hcannot : ¬p.store.CanChange p.recordPort) :
    ∃ gate, (p.fromEngineer m id f).slots = p.slots.modify id (fun s' => { s' with gate := gate }) ∧
      (gate.judge f (p.fromEngineer m id f).key).1.isGood = false := by
  obtain ⟨c, hc, hrotate⟩ := accepted_of_good hs m hgood hsetup
  rw [rotateKey_of_not_canChange (by rwa [hc.port, hc.stays hcannot])] at hrotate
  obtain ⟨k, hk, _⟩ := Gate.signedUnder_of_judge hgood
  obtain ⟨k', hk', _⟩ : ∃ k', c.key = some k' ∧ k'.secret = k.secret := by
    have hsecret := hc.secret
    rw [hk] at hsecret
    exact Option.map_eq_some_iff.mp hsecret
  have hkey : (p.fromEngineer m id f).key = some k' := by
    rw [hrotate]
    exact hk'
  refine ⟨(s.gate.check f p.key).1, ?_, ?_⟩
  · rw [hrotate]
    exact hc.slots
  · rw [hk] at hgood
    rw [hkey, hk]
    exact Gate.not_isGood_again hgood k'

def requestTwice : List (Moment × Event) :=
  [(⟨0, 0⟩, .connect .user .tcp "user"), (⟨1, 0⟩, .connect .engineer .tcp "engineer"),
    (⟨2, 0⟩, .frames 2 [signedRequest, signedRequest])]

def untilRequest : List (Moment × Move) :=
  [(⟨0, 0⟩, .connect .user .tcp "user"), (⟨1, 0⟩, .connect .engineer .tcp "engineer"), (⟨2, 0⟩, .arrival 2 2)]

theorem trace_requestTwice :
    (Setup.offline (some oldKey)).pair.trace requestTwice =
      untilRequest ++ [(⟨2, 0⟩, .engineerFrame 2 signedRequest)] ++ [(⟨2, 0⟩, .engineerFrame 2 signedRequest)] := rfl

/-- The second copy of a good request is not good any more, and the user is sent the new secret. -/
theorem discloses_requestTwice :
    (Setup.offline (some oldKey)).pair.Discloses ((Setup.offline (some oldKey)).pair.trace requestTwice) := by
  let before := (Setup.offline (some oldKey)).pair.replay untilRequest
  let s : Slot := ⟨2, .engineer, .tcp, "engineer", .active, .new, 2, 2, none⟩
  let user : Slot := ⟨1, .user, .tcp, "user", .established, .new, 0, 0, none⟩
  have hs : before.slots.find? 2 = some s := rfl
  have hgood : (s.gate.judge signedRequest before.key).1.isGood = true := by
    rw [Gate.coherent_new.judge_isGood_iff (by decide)]
    exact fresh_signed rfl rfl (by decide)
  obtain ⟨gate, hslots, hbad⟩ := not_good_of_resent hs ⟨2, 0⟩ hgood rfl fun h => by cases h.running
  have hresent : (before.fromEngineer ⟨2, 0⟩ 2 signedRequest).slots.find? 2 = some { s with gate := gate } := by
    rw [hslots]
    rfl
  have huser : (before.fromEngineer ⟨2, 0⟩ 2 signedRequest).slots.user? = some user := by
    rw [hslots]
    rfl
  have hreplay : (Setup.offline (some oldKey)).pair.replay
      (untilRequest ++ [(⟨2, 0⟩, .engineerFrame 2 signedRequest)]) = before.fromEngineer ⟨2, 0⟩ 2 signedRequest := by
    rw [replay_snoc, act_engineerFrame]
  have hqueued := (queued_of_not_good_iff hresent ⟨2, 0⟩ hbad (by decide) _).mpr ⟨user, huser, rfl, rfl, rfl⟩
  rw [← hreplay] at huser hqueued
  have hlast := List.prefix_refl ((Setup.offline (some oldKey)).pair.trace requestTwice)
  rw [trace_requestTwice] at hlast ⊢
  exact ⟨_, _, _, signedRequest, user, _, hlast, rfl, rfl, (SlotTable.mem_of_user? huser).1, rfl, hqueued⟩

end GatedRelay.Pair
