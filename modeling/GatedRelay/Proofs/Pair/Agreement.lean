import GatedRelay.Proofs.Pair.Progress
import GatedRelay.Proofs.Pair.Rotation

/-!
# The key in use and the key in the record

After a rotation the key in use has the secret of the request, whatever it is, while a record with neither a secret nor
a timestamp counts as never set up.  So the two disagree exactly after a request with neither.  The clock of the new key
is ahead of what was written, and it goes into the record when the last engineer leaves at the latest, so whoever comes
next finds the key that was in use.
-/

set_option autoImplicit false

namespace GatedRelay

/-- The request has neither a secret nor a timestamp. -/
def SetupSigning.IsBlank (request : SetupSigning) : Prop :=
  request.secret.isSet = false ∧ request.initialTimestamp = 0

instance (request : SetupSigning) : Decidable request.IsBlank :=
  inferInstanceAs (Decidable (request.secret.isSet = false ∧ request.initialTimestamp = 0))

namespace SigningKey

theorem secret_of_ofCredential? {r : Credential} {k : SigningKey} (h : ofCredential? r = some k) :
    k.secret = r.secret := by
  unfold ofCredential? at h
  split at h
  · cases h
  · cases h
    rfl

theorem isSome_ofCredential? {r : Credential} :
    (ofCredential? r).isSome = true ↔ ¬(r.secret.isSet = false ∧ r.timestamp = 0) := by
  unfold ofCredential?
  split
  · rename_i hblank
    simp [hblank]
  · rename_i hset
    simp [hset]

end SigningKey

namespace Pair

def storedKey? (p : Pair) : Option SigningKey :=
  (p.store.database.entries.fetch? p.recordPort).bind SigningKey.ofCredential?

/-- There is a key in use exactly if the record stands for one, and both have the same secret. -/
def Agrees (p : Pair) : Prop := p.key.map (·.secret) = p.storedKey?.map (·.secret)

/-- The key in use and the record have the secret, and the record stands for a key unless the clock is still to be
written. -/
structure Backed (p : Pair) (secret : Secret) : Prop where
  writable : p.store.CanChange p.recordPort
  key : p.key.map (·.secret) = some secret
  record : ∃ r, p.store.database.entries.fetch? p.recordPort = some r ∧ r.secret = secret
  shown : p.storedKey?.isSome = true ∨ ∀ k, p.key = some k → p.savedClock < k.clock

/-- The clock is not left unwritten when the last engineer leaves. -/
structure Anchored (p : Pair) (secret : Secret) : Prop where
  backed : p.Backed secret
  left : p.slots.engineerCount = 0 → p.storedKey?.isSome = true

/-! ## Development -/

theorem Proceeds.secret {p q : Pair} (h : p.Proceeds q) : q.key.map (·.secret) = p.key.map (·.secret) := by
  induction h with
  | same _ key => rw [key]
  | ticked key secret =>
    rw [key]
    exact congrArg some secret
  | counted => rfl
  | written => rfl
  | trans _ _ first second => exact second.trans first

/-- The secret of the record stays, and its timestamp never moves back. -/
theorem Proceeds.record {p q : Pair} (h : p.Proceeds q) (hcan : p.store.CanChange p.recordPort) {r : Credential}
    (hr : p.store.database.entries.fetch? p.recordPort = some r) :
    q.store.CanChange q.recordPort ∧ ∃ r', q.store.database.entries.fetch? q.recordPort = some r' ∧
      r'.secret = r.secret ∧ r.timestamp ≤ r'.timestamp := by
  induction h generalizing r with
  | same port _ store =>
    rw [port, store]
    exact ⟨hcan, r, hr, rfl, UInt64.le_refl _⟩
  | ticked => exact ⟨hcan, r, hr, rfl, UInt64.le_refl _⟩
  | counted p count1 count2 newConnection =>
    obtain ⟨hcan', hr'⟩ :=
      Service.post_of_canChange hcan (updates_recordSession p.recordPort count1 count2 newConnection) hr rfl rfl rfl
    exact ⟨hcan', _, hr', rfl, UInt64.le_refl _⟩
  | @written p k =>
    obtain ⟨hcan', hr'⟩ :=
      Service.post_of_canChange hcan (updates_advanceTimestamp p.recordPort k.clock) hr rfl rfl rfl
    exact ⟨hcan', _, hr', rfl, r.timestamp_le_advance k.clock⟩
  | trans _ _ first second =>
    obtain ⟨hcan₁, r₁, hr₁, hsecret₁, hle₁⟩ := first hcan hr
    obtain ⟨hcan₂, r₂, hr₂, hsecret₂, hle₂⟩ := second hcan₁ hr₁
    exact ⟨hcan₂, r₂, hr₂, hsecret₂.trans hsecret₁, UInt64.le_trans hle₁ hle₂⟩

theorem storedKey?_of_fetch? {p : Pair} {r : Credential}
    (hr : p.store.database.entries.fetch? p.recordPort = some r) :
    p.storedKey? = SigningKey.ofCredential? r := by
  rw [storedKey?, hr]
  rfl

theorem Proceeds.shown {p q : Pair} (h : p.Proceeds q) {secret : Secret} (hp : p.Backed secret)
    (hshown : p.storedKey?.isSome = true) : q.storedKey?.isSome = true := by
  obtain ⟨r, hr, _⟩ := hp.record
  obtain ⟨_, r', hr', hsecret, hle⟩ := h.record hp.writable hr
  rw [storedKey?_of_fetch? hr, SigningKey.isSome_ofCredential?] at hshown
  rw [storedKey?_of_fetch? hr', SigningKey.isSome_ofCredential?, hsecret]
  rintro ⟨hunset, hzero⟩
  rw [hzero] at hle
  exact hshown ⟨hunset, UInt64.le_zero_iff.mp hle⟩

theorem shown_written {p : Pair} {secret : Secret} (hp : p.Backed secret) {k : SigningKey}
    (ahead : p.savedClock < k.clock) :
    (Pair.storedKey? { p with store := p.store.post (.advanceTimestamp p.recordPort k.clock) }).isSome = true := by
  obtain ⟨r, hr, _⟩ := hp.record
  have hwritten :=
    (Service.post_of_canChange hp.writable (updates_advanceTimestamp p.recordPort k.clock) hr rfl rfl rfl).2
  rw [storedKey?_of_fetch? hwritten, SigningKey.isSome_ofCredential?]
  rintro ⟨_, hzero⟩
  have hle := r.le_advance k.clock
  rw [hzero] at hle
  exact UInt64.not_lt_zero (UInt64.lt_of_lt_of_le ahead hle)

theorem Backed.of_proceeds {p q : Pair} {secret : Secret} (hp : p.Backed secret) (h : p.Proceeds q)
    (shown : q.storedKey?.isSome = true ∨ ∀ k, q.key = some k → q.savedClock < k.clock) : q.Backed secret := by
  obtain ⟨r, hr, hsecret⟩ := hp.record
  obtain ⟨hcan, r', hr', hsecret', _⟩ := h.record hp.writable hr
  exact ⟨hcan, h.secret.trans hp.key, ⟨r', hr', hsecret'.trans hsecret⟩, shown⟩

theorem Proceeds.backed {p q : Pair} (h : p.Proceeds q) {secret : Secret} (hp : p.Backed secret) :
    q.Backed secret := by
  induction h with
  | same port key store saved =>
    refine hp.of_proceeds (.same port key store saved) ?_
    rw [storedKey?, port, key, store, saved]
    exact hp.shown
  | ticked key same later =>
    refine hp.of_proceeds (.ticked key same later) (hp.shown.imp_right fun ahead k' hk' => ?_)
    obtain rfl := Option.some.inj hk'
    exact UInt64.lt_of_lt_of_le (ahead _ key) later
  | counted p count1 count2 newConnection =>
    have h := Proceeds.counted p count1 count2 newConnection
    exact hp.of_proceeds h (hp.shown.imp_left (h.shown hp))
  | written key ahead => exact hp.of_proceeds (.written key ahead) (.inl (shown_written hp ahead))
  | trans _ _ first second => exact second (first hp)

/-- Once the clock has been written, the record stands for a key. -/
theorem Backed.shown_saveClock {p : Pair} {secret : Secret} (hp : p.Backed secret) :
    p.saveClock.storedKey?.isSome = true := by
  rcases hp.shown with hshown | ahead
  · exact p.proceeds_saveClock.shown hp hshown
  · rcases p.saveClock_cases with ⟨_, hle⟩ | ⟨k, es, _, hlt, _, heq⟩
    · obtain ⟨k, hk, _⟩ := Option.map_eq_some_iff.mp hp.key
      exact absurd (ahead k hk) (UInt64.not_lt.mpr (hle k hk))
    · rw [heq]
      exact shown_written hp hlt

theorem Backed.agrees {p : Pair} {secret : Secret} (hp : p.Backed secret) (hshown : p.storedKey?.isSome = true) :
    p.Agrees := by
  obtain ⟨r, hr, hsecret⟩ := hp.record
  obtain ⟨k, hk⟩ := Option.isSome_iff_exists.mp hshown
  rw [storedKey?_of_fetch? hr] at hk
  rw [Agrees, hp.key, storedKey?_of_fetch? hr, hk, Option.map_some, SigningKey.secret_of_ofCredential? hk, hsecret]

/-! ## Closing slots -/

theorem Anchored.of_proceeds {p q : Pair} {secret : Secret} (hp : p.Anchored secret) (h : p.Proceeds q)
    (hcount : q.slots.engineerCount = 0 → p.slots.engineerCount = 0) : q.Anchored secret :=
  ⟨h.backed hp.backed, fun hq => h.shown hp.backed (hp.left (hcount hq))⟩

theorem finishSlot_of_last {p : Pair} (hcount : p.slots.engineerCount = 0) {s : Slot} (hrole : s.role = .engineer) :
    ∃ counted : Pair, p.Proceeds counted ∧ p.finishSlot s = counted.saveClock := by
  let logged := (p.emit (.released s.id)).log (.closed .engineer s.transport)
  have hlogged : p.Proceeds logged := .same rfl rfl rfl rfl
  have hslots := (logged.booked_post (.recordSession p.recordPort 0 s.messages false)).slots
  have hlast : (logged.post (.recordSession p.recordPort 0 s.messages false)).slots.engineerCount = 0 := by
    rw [hslots]
    exact hcount
  refine ⟨_, hlogged.trans (logged.proceeds_recordSession 0 s.messages false), ?_⟩
  unfold finishSlot
  simp only [hrole]
  exact if_pos hlast

theorem closeSlot_of_find? {p : Pair} {id : SlotId} {s : Slot} (hs : p.slots.find? id = some s) :
    p.closeSlot id = Pair.finishSlot { p with slots := p.slots.without [id] } (s.advance .closed) := by
  have hclose : p.slots.close id = (p.slots.without [id], some (s.advance .closed)) := by
    refine Prod.ext (p.slots.close_fst id) ?_
    rw [SlotTable.close, hs]
  rw [closeSlot, hclose]

/-- The last engineer to leave has the clock written. -/
theorem Anchored.closeSlot {p : Pair} {secret : Secret} (hp : p.Anchored secret) (hwf : p.slots.WellFormed)
    (id : SlotId) : (p.closeSlot id).Anchored secret := by
  have hproceeds := p.proceeds_closeSlot id
  refine ⟨hproceeds.backed hp.backed, fun hcount => ?_⟩
  cases hs : p.slots.find? id with
  | none =>
    have hsame : p.closeSlot id = p := by simp only [Pair.closeSlot, SlotTable.close, hs]
    rw [hsame] at hcount ⊢
    exact hp.left hcount
  | some s =>
    rw [(p.booked_closeSlot id).slots] at hcount
    cases hrole : s.role with
    | engineer =>
      have hclosed : (s.advance .closed).role = .engineer := ((Slot.Continues.refl s).advance .closed).role.trans hrole
      let emptied : Pair := { p with slots := p.slots.without [id] }
      have hemptied : p.Proceeds emptied := .same rfl rfl rfl rfl
      -- The engineer has left the table before it is accounted for, so the count is that of the others.
      obtain ⟨counted, h, heq⟩ := finishSlot_of_last (p := emptied) hcount hclosed
      rw [closeSlot_of_find? hs, heq]
      exact ((hemptied.trans h).backed hp.backed).shown_saveClock
    | user =>
      refine hproceeds.shown hp.backed (hp.left (hwf.engineerCount_without (fun id' hid => ?_) hcount))
      obtain ⟨hmem, hid'⟩ := SlotTable.mem_of_find? hs
      exact ⟨s, hmem, hid'.trans (List.mem_singleton.mp hid).symm, hrole⟩

theorem Anchored.closeSlots {p : Pair} {secret : Secret} (hp : p.Anchored secret) (hwf : p.slots.WellFormed)
    (ids : List SlotId) : (p.closeSlots ids).Anchored secret := by
  induction ids generalizing p with
  | nil => exact hp
  | cons id rest ih =>
    refine ih (hp.closeSlot hwf id) ?_
    rw [(p.booked_closeSlot id).slots]
    exact hwf.within (SlotTable.within_without _ _)

theorem Anchored.sweep {p : Pair} {secret : Secret} (hp : p.Anchored secret) (hwf : p.slots.WellFormed)
    (m : Moment) : (p.sweep m).Anchored secret := by
  have hclosed := hp.closeSlots hwf (p.slots.expired m.now p.idleTimeout)
  unfold Pair.sweep
  simp only
  split
  · exact hclosed.of_proceeds (proceeds_observe _ m.clock) id
  · exact hclosed

theorem Anchored.shutdown {p : Pair} {secret : Secret} (hp : p.Anchored secret) : p.shutdown.Anchored secret := by
  obtain ⟨finished, h, heq⟩ := p.proceeds_shutdown
  have hfinished := h.backed hp.backed
  have hstopped : finished.saveClock.Proceeds { finished.saveClock with live := false } := .same rfl rfl rfl rfl
  have hsaved := finished.proceeds_saveClock.backed hfinished
  rw [heq]
  exact ⟨hstopped.backed hsaved, fun _ => hstopped.shown hsaved hfinished.shown_saveClock⟩

/-! ## Connecting -/

theorem engineerCount_connect {p : Pair} (hwf : p.slots.WellFormed) (m : Moment) (role : Role)
    (transport : Transport) (peer : Peer) (hcount : (p.connect m role transport peer).1.slots.engineerCount = 0) :
    p.slots.engineerCount = 0 := by
  rcases p.connect_cases m role transport peer with ⟨_, hq⟩ | ⟨a, q, key, ha, hconnect, hq, _⟩
  · rwa [hq.slots] at hcount
  · obtain ⟨_, gone, htable, hgone⟩ := SlotTable.accept_eq_ok ha
    rw [hconnect, hq.slots] at hcount
    simp only [htable] at hcount
    have husers (id : SlotId) (hid : id ∈ gone) : ∃ s ∈ p.slots.slots, s.id = id ∧ s.role = .user := by
      obtain ⟨user, huser, hsame⟩ := hgone id hid
      obtain ⟨hmem, hrole⟩ := SlotTable.mem_of_user? huser
      exact ⟨user, hmem, hsame, hrole⟩
    refine hwf.engineerCount_without husers ?_
    rw [SlotTable.engineerCount_eq_zero_iff] at hcount ⊢
    exact fun s hs => hcount s (List.mem_append_left _ hs)

theorem secret_renewedKey (previous : Option SigningKey) (stored : Option Credential) :
    (renewedKey previous stored).map (·.secret) = (stored.bind SigningKey.ofCredential?).map (·.secret) := by
  unfold renewedKey
  split
  · rename_i hstored
    rw [hstored]
    split
    · rfl
    · rfl
  · rfl

theorem Anchored.reads {p q : Pair} {m : Moment} {secret : Secret} (hp : p.Anchored secret) (h : p.Reads q m)
    (hcount : p.slots.engineerCount = 0) : q.Anchored secret := by
  have hagrees := hp.backed.agrees (hp.left hcount)
  have hstored : q.storedKey? = p.storedKey? := by rw [storedKey?, h.port, h.store, storedKey?]
  obtain ⟨stored, hload, hkey⟩ := h.key
  rw [Service.load, if_pos hp.backed.writable.running] at hload
  obtain rfl := Except.ok.inj hload
  have hsecret : q.key.map (·.secret) = some secret := by
    rw [← hp.backed.key, hagrees, storedKey?, ← secret_renewedKey p.key, hkey, Option.map_map]
    rfl
  refine ⟨⟨?_, hsecret, ?_, .inl (hstored ▸ hp.left hcount)⟩, fun _ => hstored ▸ hp.left hcount⟩
  · rw [h.port, h.store]
    exact hp.backed.writable
  · rw [h.port, h.store]
    exact hp.backed.record

theorem Anchored.connect {p : Pair} {secret : Secret} (hp : p.Anchored secret) (hwf : p.slots.WellFormed)
    (m : Moment) (role : Role) (transport : Transport) (peer : Peer) :
    (p.connect m role transport peer).1.Anchored secret := by
  rcases p.proceeds_connect m role transport peer with h | ⟨_, hcount, h⟩
  · exact hp.of_proceeds h (engineerCount_connect hwf m role transport peer)
  · exact hp.reads h hcount

/-! ## Moves -/

structure Spares (p : Pair) (change : Service → Service) : Prop where
  writable : (change p.store).CanChange p.recordPort
  record : (change p.store).database.entries.fetch? p.recordPort = p.store.database.entries.fetch? p.recordPort

/-- The key is not replaced in any of the moves, and others do not touch the record of the pair. -/
def Undisturbed (p : Pair) (moves : List (Moment × Move)) : Prop :=
  ∀ front b, front ++ [b] <+: moves →
    ¬(p.replay front).Rotates b ∧ ∀ change, b.2 = .storeChange change → (p.replay front).Spares change

theorem engineerCount_engineerFrame (p : Pair) (m : Moment) (id : SlotId) (f : Frame)
    (hcount : (p.act (m, .engineerFrame id f)).slots.engineerCount = 0) : p.slots.engineerCount = 0 := by
  cases hs : p.slots.find? id with
  | none =>
    simp only [act_engineerFrame, fromEngineer, hs] at hcount
    exact hcount
  | some s =>
    have hrole (note : Option Nat) (s' : Slot) : (checkedSlot (s.gate.check f p.key).1 note s').role = s'.role :=
      (checkedSlot_continues _ note s').role
    obtain ⟨note, _, _, _, ⟨heq, _⟩ | ⟨heq, _⟩⟩ := fromEngineer_cases hs m f
    · rw [act_engineerFrame, heq] at hcount
      exact (SlotTable.engineerCount_modify (hrole note)).mp hcount
    · rw [act_engineerFrame, heq] at hcount
      exact (SlotTable.engineerCount_modify (hrole note)).mp ((SlotTable.engineerCount_resetGates _).mp hcount)

theorem Anchored.act {p : Pair} {secret : Secret} (hp : p.Anchored secret) (hwf : p.slots.WellFormed)
    {b : Moment × Move} (hb : ¬p.Rotates b) (hspares : ∀ change, b.2 = .storeChange change → p.Spares change) :
    (p.act b).Anchored secret := by
  obtain ⟨m, move⟩ := b
  cases move with
  | connect role transport peer => exact hp.connect hwf m role transport peer
  | refuse peer => exact hp.of_proceeds (.same rfl rfl rfl rfl) id
  | welcome peer => exact hp.of_proceeds (.same rfl rfl rfl rfl) id
  | established id =>
    refine hp.of_proceeds (p.proceeds_established m id) fun hcount => ?_
    simp only [Pair.act] at hcount
    rcases p.booked_established m id with hq | hq
    · rwa [hq.slots] at hcount
    · have hrole (s : Slot) : ((s.advance .established).touch m.now).role = s.role :=
        ((Slot.Continues.refl s).advance .established).role
      rw [hq.slots] at hcount
      exact (SlotTable.engineerCount_modify hrole).mp hcount
  | arrival id count =>
    refine hp.of_proceeds (.same rfl rfl rfl rfl) fun hcount => ?_
    exact (SlotTable.engineerCount_modify fun s => (received_continues s m.now count).1.role).mp hcount
  | userFrame f =>
    refine hp.of_proceeds (p.proceeds_fromUser f) fun hcount => ?_
    simp only [Pair.act, fromUser_eq] at hcount
    exact hcount
  | engineerFrame id f =>
    rcases p.proceeds_fromEngineer m id f with h | ⟨s, c, hs, hgood, hsetup, _⟩
    · exact hp.of_proceeds h (p.engineerCount_engineerFrame m id f)
    · obtain ⟨c, hc, heq⟩ := accepted_of_good hs m hgood hsetup
      exact absurd (hc.replaced heq hp.backed.writable).1 hb
  | disconnected id => exact hp.closeSlot hwf id
  | sweep => exact hp.sweep hwf m
  | quit => exact hp.shutdown
  | storeChange change =>
    obtain ⟨hcan, hsame⟩ := hspares change rfl
    have hstored : Pair.storedKey? { p with store := change p.store } = p.storedKey? :=
      congrArg (·.bind SigningKey.ofCredential?) hsame
    obtain ⟨r, hr, hsecret⟩ := hp.backed.record
    have hchanged : Pair.Backed { p with store := change p.store } secret :=
      ⟨hcan, hp.backed.key, ⟨r, hsame.trans hr, hsecret⟩, hstored ▸ hp.backed.shown⟩
    exact ⟨hchanged, fun hcount => (congrArg Option.isSome hstored).trans (hp.left hcount)⟩

theorem Anchored.replay {p : Pair} {secret : Secret} (hp : p.Anchored secret) (hwf : p.slots.WellFormed)
    {moves : List (Moment × Move)} (h : p.Undisturbed moves) : (p.replay moves).Anchored secret := by
  induction moves generalizing p with
  | nil => exact hp
  | cons b rest ih =>
    obtain ⟨hb, hspares⟩ := h [] b (List.prefix_append [b] rest)
    refine ih (hp.act hwf hb hspares) (wellFormed_act hwf b) fun front d hpart => ?_
    exact h (b :: front) d (List.cons_prefix_cons.mpr ⟨rfl, hpart⟩)

/-! ## Rotations -/

theorem blank_or_ahead (m : Moment) (request : SetupSigning) :
    ¬request.IsBlank ∨
      request.initialTimestamp < ((SigningKey.load request.secret request.initialTimestamp).observe m.clock).clock := by
  by_cases hblank : request.IsBlank
  · right
    rw [UInt64.lt_iff_toNat_lt]
    refine Nat.lt_of_lt_of_le ?_ (clock_rotated request.secret request.initialTimestamp m.clock)
    rw [hblank.2]
    decide
  · exact .inl hblank

theorem rotated_rotateKey {p : Pair} (h : p.store.CanChange p.recordPort) (m : Moment) (request : SetupSigning) :
    (p.rotateKey m request).Backed request.secret ∧
      ((p.rotateKey m request).storedKey?.isSome = true ↔ ¬request.IsBlank) := by
  obtain ⟨r, hr⟩ := Option.isSome_iff_exists.mp h.stored
  obtain ⟨hcan, hfetch⟩ := Service.post_of_canChange h
    (updates_setSigningKey p.recordPort request.secret request.initialTimestamp) hr rfl rfl rfl
  have heq := rotateKey_of_canChange h m request
  have hrecord : (p.rotateKey m request).store.database.entries.fetch? (p.rotateKey m request).recordPort =
      some { r with secret := request.secret, timestamp := request.initialTimestamp } := by
    rw [heq]
    exact hfetch
  have hshown : (p.rotateKey m request).storedKey?.isSome = true ↔ ¬request.IsBlank := by
    rw [storedKey?_of_fetch? hrecord]
    exact SigningKey.isSome_ofCredential?
  refine ⟨⟨heq ▸ hcan, heq ▸ rfl, ⟨_, hrecord, rfl⟩, ?_⟩, hshown⟩
  rcases blank_or_ahead m request with hset | hahead
  · exact .inl (hshown.mpr hset)
  · right
    rw [heq]
    intro k hk
    obtain rfl := Option.some.inj hk
    exact hahead

theorem Backed.agrees_iff {p : Pair} {secret : Secret} (hp : p.Backed secret) :
    p.Agrees ↔ p.storedKey?.isSome = true := by
  refine ⟨fun h => ?_, hp.agrees⟩
  rw [Agrees, hp.key] at h
  obtain ⟨k, hk, _⟩ := Option.map_eq_some_iff.mp h.symm
  rw [hk]
  rfl

theorem rotated_of_good {p : Pair} {id : SlotId} {s : Slot} (hs : p.slots.find? id = some s) (m : Moment) {f : Frame}
    (hgood : (s.gate.judge f p.key).1.isGood = true) (hsetup : f.msgId = MessageId.setupSigning)
    (hcan : p.store.CanChange p.recordPort) :
    (p.act (m, .engineerFrame id f)).Backed (SetupSigning.ofPayload f.payload).secret ∧
      ((p.act (m, .engineerFrame id f)).storedKey?.isSome = true ↔
        ¬(SetupSigning.ofPayload f.payload).IsBlank) := by
  obtain ⟨checked, hchecked, heq⟩ := accepted_of_good hs m hgood hsetup
  have hwritable := (hchecked.writes hcan).1
  rw [← hchecked.port] at hwritable
  rw [act_engineerFrame, heq]
  exact rotated_rotateKey hwritable m (SetupSigning.ofPayload f.payload)

/-- After a good rotation request that is stored, the key in use and the one in the record agree unless the request is
blank.  Until the next rotation the secret of the request stays in use, even when all engineers leave and the key is
read again, and whenever no engineer is left the two agree. -/
theorem agrees_unless_blank {c : Setup} {events : List (Moment × Event)} {moves : List (Moment × Move)} {m : Moment}
    {id : SlotId} {f : Frame} (h : moves ++ [(m, .engineerFrame id f)] <+: c.pair.trace events) {s : Slot}
    (hs : (c.pair.replay moves).slots.find? id = some s)
    (hgood : (s.gate.judge f (c.pair.replay moves).key).1.isGood = true) (hsetup : f.msgId = MessageId.setupSigning)
    (hcan : (c.pair.replay moves).store.CanChange (c.pair.replay moves).recordPort) :
    (((c.pair.replay moves).act (m, .engineerFrame id f)).Agrees ↔ ¬(SetupSigning.ofPayload f.payload).IsBlank) ∧
    ∀ later, ((c.pair.replay moves).act (m, .engineerFrame id f)).Undisturbed later →
      (((c.pair.replay moves).act (m, .engineerFrame id f)).replay later).key.map (·.secret) =
          some (SetupSigning.ofPayload f.payload).secret ∧
        ((((c.pair.replay moves).act (m, .engineerFrame id f)).replay later).slots.engineerCount = 0 →
          (((c.pair.replay moves).act (m, .engineerFrame id f)).replay later).Agrees) := by
  obtain ⟨s', hs', hengineer, _⟩ := slot_of_engineerFrame h
  obtain rfl := Option.some.inj (hs.symm.trans hs')
  obtain ⟨hbacked, hshown⟩ := rotated_of_good hs m hgood hsetup hcan
  refine ⟨hbacked.agrees_iff.trans hshown, fun later hlater => ?_⟩
  have hwf := wellFormed_act (wellFormed_replay c moves) (m, .engineerFrame id f)
  have hpresent : ((c.pair.replay moves).act (m, .engineerFrame id f)).slots.engineerCount ≠ 0 := by
    intro hcount
    have hnone := engineerCount_engineerFrame _ m id f hcount
    exact SlotTable.engineerCount_eq_zero_iff.mp hnone s (SlotTable.mem_of_find? hs).1 hengineer
  have hanchored := Anchored.replay ⟨hbacked, fun hcount => absurd hcount hpresent⟩ hwf hlater
  exact ⟨hanchored.backed.key, fun hcount => hanchored.backed.agrees (hanchored.left hcount)⟩

/-! ## A request with a secret, and a blank one -/

/-- One engineer, and a store with a record that has a timestamp and no secret. -/
def Setup.started : Setup :=
  { Setup.offline none with store := { database := { entries := Entries.empty.save { port2 := 2, timestamp := 1 } } } }

def requestRun (f : Frame) : List (Moment × Event) :=
  [(⟨0, 0⟩, .connect .engineer .tcp "engineer"), (⟨1, 0⟩, .frames 1 [f])]

def requestMoves : List (Moment × Move) := [(⟨0, 0⟩, .connect .engineer .tcp "engineer"), (⟨1, 0⟩, .arrival 1 1)]

theorem part_requestRun (f : Frame) :
    requestMoves ++ [(⟨1, 0⟩, .engineerFrame 1 f)] <+: Setup.started.pair.trace (requestRun f) :=
  ⟨[], rfl⟩

abbrev requestPair : Pair := Setup.started.pair.replay requestMoves

def requestSlot : Slot := ⟨1, .engineer, .tcp, "engineer", .active, .new, 1, 1, none⟩

theorem find?_requestPair : requestPair.slots.find? 1 = some requestSlot := rfl

theorem key_requestPair : requestPair.key = some ⟨oldKey.secret, 1_500_001⟩ := by decide +kernel

theorem canChange_requestPair : requestPair.store.CanChange requestPair.recordPort where
  running := by decide +kernel
  idle := by decide +kernel
  stored := by decide +kernel

def blankRequest : Frame :=
  (⟨MessageId.setupSigning, 0, 1, 1, SetupSigning.payload ⟨0, 0, 0, Block.zero 32⟩⟩ : Message).frame 71
    (by rw [SetupSigning.length_payload]; decide) (by decide) rfl

def signedBlank : Frame := blankRequest.sign rfl ⟨oldKey.secret, 1, 0⟩

theorem good_of_signed {f : Frame} (hversion : f.version = .v2) :
    (requestSlot.gate.judge (f.sign hversion ⟨oldKey.secret, 1, 0⟩) requestPair.key).1.isGood = true := by
  rw [key_requestPair]
  exact (Gate.coherent_new.judge_isGood_iff (by decide) _ _).mpr (fresh_signed hversion rfl (by decide))

def reconnection : List (Moment × Move) :=
  [(⟨2, 0⟩, .disconnected 1), (⟨3, 0⟩, .connect .engineer .tcp "engineer")]

theorem undisturbed_reconnection (p : Pair) : p.Undisturbed reconnection := by
  intro front b hpart
  have hb : b ∈ reconnection := hpart.subset (List.mem_append_right front List.mem_cons_self)
  rw [reconnection, List.mem_pair] at hb
  rcases hb with rfl | rfl
  · exact ⟨not_rotates (by simp), by simp⟩
  · exact ⟨not_rotates (by simp), by simp⟩

/-- The new secret is in use and in the record at once, and it is still in use when the engineer has come again. -/
theorem agrees_signedRequest :
    (requestPair.act (⟨1, 0⟩, .engineerFrame 1 signedRequest)).Agrees ∧
      ((requestPair.act (⟨1, 0⟩, .engineerFrame 1 signedRequest)).replay reconnection).key.map (·.secret) =
        some (Block.ofBytes 32 [1]) := by
  obtain ⟨hagrees, hlater⟩ := agrees_unless_blank (part_requestRun signedRequest) find?_requestPair
    (good_of_signed rfl) rfl canChange_requestPair
  exact ⟨hagrees.mpr (by decide), (hlater reconnection (undisturbed_reconnection _)).1⟩

/-- After a blank request the key in use is the empty secret, while the record stands for no key. -/
theorem disagrees_signedBlank :
    ∃ (c : Setup) (events : List (Moment × Event)) (moves : List (Moment × Move)) (m : Moment) (id : SlotId)
      (f : Frame) (s : Slot),
      moves ++ [(m, .engineerFrame id f)] <+: c.pair.trace events ∧
      (c.pair.replay moves).slots.find? id = some s ∧ (s.gate.judge f (c.pair.replay moves).key).1.isGood = true ∧
      f.msgId = MessageId.setupSigning ∧ (c.pair.replay moves).store.CanChange (c.pair.replay moves).recordPort ∧
      ((c.pair.replay moves).act (m, .engineerFrame id f)).key.map (·.secret) = some (Block.zero 32) ∧
      ((c.pair.replay moves).act (m, .engineerFrame id f)).storedKey? = none := by
  have hgood := good_of_signed (f := blankRequest) rfl
  obtain ⟨hbacked, hshown⟩ := rotated_of_good find?_requestPair ⟨1, 0⟩ hgood rfl canChange_requestPair
  have hblank : (SetupSigning.ofPayload signedBlank.payload).IsBlank := by decide
  exact ⟨Setup.started, requestRun signedBlank, requestMoves, ⟨1, 0⟩, 1, signedBlank, requestSlot,
    part_requestRun signedBlank, find?_requestPair, hgood, rfl, canChange_requestPair, hbacked.key,
    Option.not_isSome_iff_eq_none.mp fun h => hshown.mp h hblank⟩

end Pair

end GatedRelay
