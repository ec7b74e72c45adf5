import GatedRelay.Proofs.Pair.Books
import GatedRelay.Proofs.Signing.Check

/-!
# What the operations of a pair do

For every operation on peers and frames one statement says what becomes of the slots and the key and which effects are
added.  A new key comes from a rotation, which empties the gates of all engineers, or from the store when the first
engineer is admitted.
-/

set_option autoImplicit false

namespace GatedRelay.Pair

/-! ## Admission -/

theorem booked_reloadKey (p : Pair) (m : Moment) : ∃ key, Booked { p with key := key } (p.reloadKey m) := by
  unfold reloadKey
  split
  · exact ⟨p.key, p.booked_log (by simp)⟩
  · exact ⟨_, .refl _⟩

def opened (p : Pair) (a : Admission) : Pair := ({ p with slots := a.table } : Pair).emit (.opened a.id)

def logConnected (p : Pair) (role : Role) (transport : Transport) (peer : Peer) : Pair :=
  if transport.hasHandshake then p else p.log (.connected role transport peer)

theorem booked_logConnected (p : Pair) (role : Role) (transport : Transport) (peer : Peer) :
    p.Booked (p.logConnected role transport peer) := by
  unfold logConnected
  split
  · exact .refl p
  · exact p.booked_log (by simp)

section Connect

variable {p : Pair} {m : Moment} {role : Role} {transport : Transport} {peer : Peer}

theorem connect_of_refused {refusal : Refusal} (h : p.slots.accept role transport peer m.now = .error refusal) :
    p.connect m role transport peer = (p.logRefusal refusal transport peer, none) := by
  rw [connect, h]

/-- A slot that is replaced is accounted for before the key is read. -/
theorem connect_of_accept {a : Admission} (h : p.slots.accept role transport peer m.now = .ok a) :
    ∃ finished : Pair,
      (a.replaced = none ∧ finished = p.opened a ∨
        ∃ s, a.replaced = some s ∧ finished = (p.opened a).finishSlot s) ∧
      p.connect m role transport peer =
        ((if role = .engineer ∧ p.slots.engineerCount = 0 then finished.reloadKey m else finished).logConnected role
          transport peer, some a.id) := by
  rw [connect, h]
  simp only
  cases a.replaced with
  | none => exact ⟨_, .inl ⟨rfl, rfl⟩, rfl⟩
  | some s => exact ⟨_, .inr ⟨s, rfl, rfl⟩, rfl⟩

end Connect

/-- A refusal touches the books only.  An admission opens a slot, and reads a key only where no engineer is. -/
theorem connect_cases (p : Pair) (m : Moment) (role : Role) (transport : Transport) (peer : Peer) :
    ((p.connect m role transport peer).2 = none ∧ p.Booked (p.connect m role transport peer).1) ∨
      ∃ a q key, p.slots.accept role transport peer m.now = .ok a ∧
        p.connect m role transport peer = (q, some a.id) ∧
        Booked { p with slots := a.table, key := key, history := .opened a.id :: p.history } q ∧
        (key = p.key ∨ role = .engineer ∧ p.slots.engineerCount = 0) := by
  cases haccept : p.slots.accept role transport peer m.now with
  | error refusal =>
    rw [connect_of_refused haccept]
    exact .inl ⟨rfl, p.booked_logRefusal _ transport peer⟩
  | ok a =>
    right
    obtain ⟨finished, hcases, hconnect⟩ := connect_of_accept haccept
    have hfinished : (p.opened a).Booked finished := by
      rcases hcases with ⟨_, rfl⟩ | ⟨s, _, rfl⟩
      · exact .refl _
      · exact booked_finishSlot _ s
    by_cases hfirst : role = .engineer ∧ p.slots.engineerCount = 0
    · rw [if_pos hfirst] at hconnect
      obtain ⟨key, hkey⟩ := finished.booked_reloadKey m
      refine ⟨a, _, key, rfl, hconnect, ?_, .inr hfirst⟩
      exact ((hfinished.withKey key).trans hkey).trans (booked_logConnected _ role transport peer)
    · rw [if_neg hfirst] at hconnect
      refine ⟨a, _, p.key, rfl, hconnect, ?_, .inl rfl⟩
      exact hfinished.trans (booked_logConnected _ role transport peer)

theorem sweep_cases (p : Pair) (m : Moment) :
    ∃ q key, Booked { p with slots := p.slots.without (p.slots.expired m.now p.idleTimeout) } q ∧
      p.sweep m = { q with key := key } ∧ key.map (·.secret) = p.key.map (·.secret) := by
  have hclose := p.booked_closeSlots (p.slots.expired m.now p.idleTimeout)
  unfold sweep
  simp only
  split
  · refine ⟨_, _, hclose, rfl, ?_⟩
    rw [hclose.key, Option.map_map]
    rfl
  · exact ⟨_, p.key, hclose, by rw [← hclose.key], rfl⟩

/-! ## Frames of the user -/

theorem queueEach_eq (p : Pair) (slots : List Slot) (message : Bytes) :
    p.queueEach slots message =
      { p with history := (slots.map fun s => Effect.queued s.id message).reverse ++ p.history } := by
  unfold queueEach
  induction slots generalizing p with
  | nil => rfl
  | cons s rest ih =>
    rw [List.foldl_cons, ih]
    simp [emit]

theorem noteSource_eq (p : Pair) (f : Frame) :
    p.noteSource f = { p with userSource := (p.noteSource f).userSource } := by
  unfold noteSource
  split <;> rfl

/-- A user frame is queued to its recipients, one message for all, and costs a tick only if there are any. -/
theorem fromUser_eq (p : Pair) (f : Frame) :
    p.fromUser f =
      { p with
        userSource := (p.noteSource f).userSource
        key := if p.recipients f = [] then p.key else (outgoing p.key f).1
        history := ((p.recipients f).map fun s => Effect.queued s.id (outgoing p.key f).2).reverse ++ p.history } := by
  have hrecipients : (p.noteSource f).recipients f = p.recipients f := by rw [noteSource_eq]; rfl
  unfold fromUser
  simp only [hrecipients]
  rw [noteSource_eq]
  cases hr : p.recipients f with
  | nil => rfl
  | cons s rest =>
    simp only [queueEach_eq]
    rfl

theorem outgoing_secret (key : Option SigningKey) (f : Frame) :
    (outgoing key f).1.map (·.secret) = key.map (·.secret) := by
  cases key <;> rfl

theorem mem_recipients {p : Pair} {f : Frame} {s : Slot} :
    s ∈ p.recipients f ↔ (s ∈ p.slots.slots ∧ s.role = .engineer) ∧ s.isOpen = true ∧
      (f.msgId = MessageId.heartbeat ∨ s.trust = .authenticated) := by
  simp only [recipients, List.mem_filter, SlotTable.mem_engineers, Bool.and_eq_true, Bool.or_eq_true,
    decide_eq_true_eq]

/-! ## Frames of engineers -/

theorem forward_cases (p : Pair) (f : Frame) :
    p.forward f = p ∨ ∃ user, p.slots.user? = some user ∧ user.isOpen = true ∧
      p.forward f = p.emit (.queued user.id f.withoutSignature.bytes) := by
  unfold forward
  split
  · exact .inl rfl
  · rename_i user huser
    split
    · exact .inr ⟨user, huser, ‹_›, rfl⟩
    · exact .inl rfl

def notice (source : UInt8 × UInt8) (verdict : Verdict) : Frame :=
  StatusText.frame source.1 source.2 StatusText.critical (verdict.notice?.getD "")

theorem sendNotice_eq (p : Pair) (m : Moment) (id : SlotId) (verdict : Verdict) :
    p.sendNotice m id verdict =
      { p with
        slots := p.slots.modify id (·.markNotice m.now)
        history := .queued id (notice (p.userSource.getD defaultSource) verdict).bytes :: p.history } := rfl

theorem report_eq (p : Pair) (m : Moment) (s : Slot) (o : Outcome) :
    ∃ es, (∀ e ∈ es, e.IsNote) ∧
      p.report m s o =
        if o.notify = true ∧ s.noticeDue m.now noticeInterval = true then
          { p with history := es ++ p.history }.sendNotice m s.id o.verdict
        else { p with history := es ++ p.history } := by
  have hlogs : ∃ es, (∀ e ∈ es, e.IsNote) ∧
      (let p := if o.trustChanged ∧ o.trust = .authenticated then p.log .goodSignature else p
       if o.announce then p.log (.problem o.verdict) else p) = { p with history := es ++ p.history } := by
    simp only
    split
    · split
      · exact ⟨[.logged (.problem o.verdict), .logged .goodSignature], by simp [Effect.IsNote], rfl⟩
      · exact ⟨[.logged (.problem o.verdict)], by simp [Effect.IsNote], rfl⟩
    · split
      · exact ⟨[.logged .goodSignature], by simp [Effect.IsNote], rfl⟩
      · exact ⟨[], by simp, rfl⟩
  obtain ⟨es, hes, heq⟩ := hlogs
  simp only at heq
  exact ⟨es, hes, by simp only [report, heq]⟩

theorem rotateKey_cases (p : Pair) (m : Moment) (request : SetupSigning) :
    (∃ store, p.rotateKey m request =
        { p with store := store, history := .logged .keyNotStored :: p.history }) ∨
      ∃ store, p.rotateKey m request =
        { p with
          store := store
          key := some ((SigningKey.load request.secret request.initialTimestamp).observe m.clock)
          savedClock := request.initialTimestamp
          slots := p.slots.resetGates
          history := .logged .keyReplaced :: p.history } := by
  unfold rotateKey
  split
  · exact .inl ⟨_, rfl⟩
  · exact .inr ⟨_, rfl⟩

def rotatedKey (m : Moment) (f : Frame) : SigningKey :=
  let request := SetupSigning.ofPayload f.payload
  (SigningKey.load request.secret request.initialTimestamp).observe m.clock

/-- Behind some bookkeeping, a frame is forwarded or goes no further, or the key is rotated. -/
theorem dispatch_cases (p : Pair) (m : Moment) (f : Frame) (v : Verdict) :
    (∃ q, p.Booked q ∧ (p.dispatch m f v = q ∨ ¬(v.isGood = true ∧ f.msgId = MessageId.setupSigning) ∧
      ∃ user, p.slots.user? = some user ∧ user.isOpen = true ∧
        p.dispatch m f v = q.emit (.queued user.id f.withoutSignature.bytes))) ∨
    v.isGood = true ∧ f.msgId = MessageId.setupSigning ∧ ∃ store clock es, (∀ e ∈ es, e.IsQuiet) ∧
      p.dispatch m f v = { p with
        slots := p.slots.resetGates
        key := some (rotatedKey m f)
        store := store
        savedClock := clock
        history := .logged .keyReplaced :: (es ++ p.history) } := by
  have hforward (q : Pair) (hq : p.Booked q) (hkept : ¬(v.isGood = true ∧ f.msgId = MessageId.setupSigning)) :
      ∃ r, p.Booked r ∧ (q.forward f = r ∨ ¬(v.isGood = true ∧ f.msgId = MessageId.setupSigning) ∧
        ∃ user, p.slots.user? = some user ∧ user.isOpen = true ∧
          q.forward f = r.emit (.queued user.id f.withoutSignature.bytes)) := by
    rcases q.forward_cases f with heq | ⟨user, huser, hopen, heq⟩
    · exact ⟨q, hq, .inl heq⟩
    · rw [hq.slots] at huser
      exact ⟨q, hq, .inr ⟨hkept, user, huser, hopen, heq⟩⟩
  have hsave := p.booked_saveClock
  unfold dispatch
  split
  · rename_i hgood
    split
    · rename_i hsetup
      rcases p.saveClock.rotateKey_cases m (SetupSigning.ofPayload f.payload) with ⟨store, heq⟩ | ⟨store, heq⟩
      · left
        refine ⟨_, ?_, .inl rfl⟩
        rw [heq]
        exact hsave.trans ⟨store, _, [.logged .keyNotStored], rfl, by simp [Effect.IsQuiet]⟩
      · obtain ⟨_, _, es, hsave, hes⟩ := hsave
        rw [hsave] at heq
        exact .inr ⟨hgood, hsetup, store, _, es, hes, by rw [hsave]; exact heq⟩
    · rename_i hsetup
      exact .inl (hforward _ hsave fun h => hsetup h.2)
  · rename_i hgood
    exact .inl (hforward p (.refl p) fun h => hgood h.1)

def checkedSlot (gate : Gate) (note : Option Nat) (s : Slot) : Slot :=
  { s with gate := gate, lastNotice := note.elim s.lastNotice some }

/-- What checking a frame may have queued: a notice to a peer that is not authenticated, or the frame to the user. -/
inductive CheckEffect (p : Pair) (id : SlotId) (s : Slot) (f : Frame) : Effect → Prop where
  | quiet {e : Effect} (h : e.IsQuiet) : CheckEffect p id s f e
  | notice (hgood : (s.gate.judge f p.key).1.isGood = false) (htrust : s.trust ≠ .authenticated) :
      CheckEffect p id s f (.queued id (notice (p.userSource.getD defaultSource) (s.gate.judge f p.key).1).bytes)
  | forward (user : Slot) (hmem : user ∈ p.slots.slots) (hrole : user.role = .user) (hopen : user.isOpen = true)
      (hkept : ¬((s.gate.judge f p.key).1.isGood = true ∧ f.msgId = MessageId.setupSigning)) :
      CheckEffect p id s f (.queued user.id f.withoutSignature.bytes)

/-- The check of the slot's frame asks for a notice, and one is due. -/
def Grants (p : Pair) (m : Moment) (s : Slot) (f : Frame) : Prop :=
  (s.gate.check f p.key).2.2.notify = true ∧ s.noticeDue m.now noticeInterval = true

instance (p : Pair) (m : Moment) (s : Slot) (f : Frame) : Decidable (p.Grants m s f) :=
  inferInstanceAs (Decidable (_ ∧ _))

def answer (p : Pair) (m : Moment) (s : Slot) (f : Frame) : Option Frame :=
  if p.Grants m s f then some (notice (p.userSource.getD defaultSource) (s.gate.judge f p.key).1) else none

theorem report_answer {p : Pair} {id : SlotId} {s : Slot} (hs : p.slots.find? id = some s) (m : Moment) (f : Frame) :
    ∃ es, (∀ e ∈ es, e.IsNote) ∧
      ({ p with
          key := (s.gate.judge f p.key).2.2
          slots := p.slots.modify id fun s' => { s' with gate := (s.gate.check f p.key).1 } }.report m s
            (s.gate.check f p.key).2.2) =
        { p with
          slots := p.slots.modify id
            (checkedSlot (s.gate.check f p.key).1 (if p.Grants m s f then some m.now else none))
          key := (s.gate.judge f p.key).2.2
          history := ((p.answer m s f).map fun g => Effect.queued id g.bytes).toList ++ (es ++ p.history) } := by
  let checked : Pair := { p with
    key := (s.gate.judge f p.key).2.2
    slots := p.slots.modify id fun s' => { s' with gate := (s.gate.check f p.key).1 } }
  obtain ⟨es, hes, heq⟩ := checked.report_eq m s (s.gate.check f p.key).2.2
  refine ⟨es, hes, heq.trans ?_⟩
  by_cases hgrants : p.Grants m s f
  · rw [answer, if_pos hgrants, if_pos hgrants]
    refine (if_pos hgrants).trans ?_
    rw [sendNotice_eq, Gate.check_verdict, (SlotTable.mem_of_find? hs).2]
    have hslots : checked.slots.modify id (·.markNotice m.now) =
        p.slots.modify id (checkedSlot (s.gate.check f p.key).1 (some m.now)) :=
      SlotTable.modify_modify fun _ => rfl
    rw [hslots]
    rfl
  · rw [answer, if_neg hgrants, if_neg hgrants]
    exact if_neg hgrants

/-- A check is reported in the log, and to a peer that is not authenticated by one notice at most. -/
theorem report_checked {p : Pair} {id : SlotId} {s : Slot} (hs : p.slots.find? id = some s) (m : Moment) (f : Frame) :
    ∃ note es,
      (∀ e ∈ es, e.IsNote ∨ (s.gate.judge f p.key).1.isGood = false ∧ s.trust ≠ .authenticated ∧
        e = .queued id (notice (p.userSource.getD defaultSource) (s.gate.judge f p.key).1).bytes) ∧
      ({ p with
          key := (s.gate.judge f p.key).2.2
          slots := p.slots.modify id fun s' => { s' with gate := (s.gate.check f p.key).1 } }.report m s
            (s.gate.check f p.key).2.2) =
        { p with
          slots := p.slots.modify id (checkedSlot (s.gate.check f p.key).1 note)
          key := (s.gate.judge f p.key).2.2
          history := es ++ p.history } := by
  obtain ⟨es, hes, heq⟩ := report_answer hs m f
  rw [← List.append_assoc] at heq
  refine ⟨_, _, ?_, heq⟩
  intro e he
  rcases List.mem_append.mp he with he | he
  · right
    rw [Option.mem_toList, answer] at he
    split at he
    · rename_i hgrants
      obtain ⟨hgood, htrust, _⟩ := (s.gate.check_notify_iff f p.key).mp hgrants.1
      exact ⟨hgood, htrust, (Option.some.inj he).symm⟩
    · cases he
  · exact .inl (hes e he)

theorem report_check {p : Pair} {id : SlotId} {s : Slot} (hs : p.slots.find? id = some s) (m : Moment) (f : Frame) :
    ∃ note es, (∀ e ∈ es, CheckEffect p id s f e) ∧
      ({ p with
          key := (s.gate.judge f p.key).2.2
          slots := p.slots.modify id fun s' => { s' with gate := (s.gate.check f p.key).1 } }.report m s
            (s.gate.check f p.key).2.2) =
        { p with
          slots := p.slots.modify id (checkedSlot (s.gate.check f p.key).1 note)
          key := (s.gate.judge f p.key).2.2
          history := es ++ p.history } := by
  obtain ⟨note, es, hes, heq⟩ := report_checked hs m f
  refine ⟨note, es, ?_, heq⟩
  intro e he
  rcases hes e he with hnote | ⟨hgood, htrust, rfl⟩
  · exact .quiet hnote.isQuiet
  · exact .notice hgood htrust

theorem user_of_checked {t : SlotTable} {id : SlotId} {gate : Gate} {note : Option Nat} {user : Slot}
    (h : (t.modify id (checkedSlot gate note)).user? = some user) :
    ∃ u ∈ t.slots, u.id = user.id ∧ u.role = .user ∧ u.isOpen = user.isOpen := by
  obtain ⟨hmem, hrole⟩ := SlotTable.mem_of_user? h
  obtain ⟨u, hu, huser⟩ := SlotTable.mem_modify.mp hmem
  split at huser
  · subst huser
    exact ⟨u, hu, rfl, hrole, rfl⟩
  · subst huser
    exact ⟨u, hu, rfl, hrole, rfl⟩

theorem fromEngineer_cases {p : Pair} {id : SlotId} {s : Slot} (hs : p.slots.find? id = some s) (m : Moment)
    (f : Frame) :
    ∃ note store clock es,
      (p.fromEngineer m id f = { p with
          slots := p.slots.modify id (checkedSlot (s.gate.check f p.key).1 note)
          key := (s.gate.judge f p.key).2.2
          store := store
          savedClock := clock
          history := es ++ p.history } ∧ ∀ e ∈ es, CheckEffect p id s f e) ∨
      (p.fromEngineer m id f = { p with
          slots := (p.slots.modify id (checkedSlot (s.gate.check f p.key).1 note)).resetGates
          key := some (rotatedKey m f)
          store := store
          savedClock := clock
          history := .logged .keyReplaced :: (es ++ p.history) } ∧ (∀ e ∈ es, CheckEffect p id s f e) ∧
        (s.gate.judge f p.key).1.isGood = true ∧ f.msgId = MessageId.setupSigning) := by
  obtain ⟨note, es, hes, hreport⟩ := report_check hs m f
  simp only [fromEngineer, hs, Gate.check_verdict, Gate.check_key]
  rw [hreport]
  have happend (es' : List Effect) (h : ∀ e ∈ es', e.IsQuiet) : ∀ e ∈ es' ++ es, CheckEffect p id s f e := by
    intro e he
    rcases List.mem_append.mp he with he | he
    · exact .quiet (h e he)
    · exact hes e he
  -- What the report has queued lies below what the dispatch queues, and the slots differ by the check alone.
  rcases dispatch_cases _ m f (s.gate.judge f p.key).1 with ⟨q, hq, heq | ⟨hkept, user, huser, hopen, heq⟩⟩ |
    ⟨hgood, hsetup, store, clock, es', hes', heq⟩
  · obtain ⟨store, clock, es', rfl, hes'⟩ := hq
    refine ⟨note, store, clock, es' ++ es, .inl ⟨?_, happend es' hes'⟩⟩
    rw [heq, List.append_assoc]
  · obtain ⟨store, clock, es', rfl, hes'⟩ := hq
    obtain ⟨u, hu, hid, hrole, hopen'⟩ := user_of_checked huser
    refine ⟨note, store, clock, .queued user.id f.withoutSignature.bytes :: (es' ++ es), .inl ⟨?_, ?_⟩⟩
    · rw [heq]
      simp [emit]
    · intro e he
      rcases List.mem_cons.mp he with rfl | he
      · rw [← hid]
        exact .forward u hu hrole (hopen'.trans hopen) hkept
      · exact happend es' hes' e he
  · refine ⟨note, store, clock, es' ++ es, .inr ⟨?_, happend es' hes', hgood, hsetup⟩⟩
    rw [heq, List.append_assoc]

/-! ## Frames that are not good -/

def forwarded (p : Pair) (f : Frame) : List Effect :=
  match p.slots.user? with
  | none => []
  | some user => if user.isOpen then [.queued user.id f.withoutSignature.bytes] else []

theorem forward_eq (p : Pair) (f : Frame) : p.forward f = { p with history := p.forwarded f ++ p.history } := by
  cases huser : p.slots.user? with
  | none => simp [forward, forwarded, huser]
  | some user => by_cases hopen : user.isOpen = true <;> simp [forward, forwarded, huser, hopen, emit]

theorem mem_forwarded {p : Pair} {f : Frame} {e : Effect} :
    e ∈ p.forwarded f ↔ ∃ user, p.slots.user? = some user ∧ user.isOpen = true ∧
      e = .queued user.id f.withoutSignature.bytes := by
  unfold forwarded
  split
  · rename_i hnone
    simp [hnone]
  · rename_i user huser
    by_cases hopen : user.isOpen = true <;> simp [huser, hopen]

theorem forwarded_checked (p : Pair) (id : SlotId) (gate : Gate) (note : Option Nat) (f : Frame) :
    forwarded { p with slots := p.slots.modify id (checkedSlot gate note) } f = p.forwarded f := by
  have huser : (p.slots.modify id (checkedSlot gate note)).user? =
      p.slots.user?.map fun s => if s.id = id then checkedSlot gate note s else s := by
    refine SlotTable.user?_modify fun s => ?_
    rfl
  unfold forwarded
  rw [huser]
  cases p.slots.user? with
  | none => rfl
  | some user => by_cases h : user.id = id <;> simp [h, checkedSlot, Slot.isOpen]

/-- A frame that is not good is reported and forwarded, whatever it is, and leaves the key as it is. -/
theorem fromEngineer_of_not_good {p : Pair} {id : SlotId} {s : Slot} (hs : p.slots.find? id = some s) (m : Moment)
    {f : Frame} (hbad : (s.gate.judge f p.key).1.isGood = false) :
    ∃ note es, (∀ e ∈ es, e.IsNote ∨ ∃ message, e = .queued id message) ∧
      p.fromEngineer m id f = { p with
        slots := p.slots.modify id (checkedSlot (s.gate.check f p.key).1 note)
        history := p.forwarded f ++ (es ++ p.history) } := by
  obtain ⟨note, es, hes, heq⟩ := report_checked hs m f
  refine ⟨note, es, ?_, ?_⟩
  · intro e he
    rcases hes e he with hnote | ⟨_, _, rfl⟩
    · exact .inl hnote
    · exact .inr ⟨_, rfl⟩
  · have hforwarded := p.forwarded_checked id (s.gate.check f p.key).1 note f
    have hkey := Gate.judge_of_not_good hbad
    simp only [fromEngineer, hs, Gate.check_verdict, Gate.check_key]
    rw [heq, dispatch, hbad, if_neg Bool.false_ne_true, forward_eq, ← hforwarded, hkey]
    rfl

/-! ## Good frames -/

def enterGood (p : Pair) (id : SlotId) (checked : Gate) (k : SigningKey) (es : List Effect) : Pair :=
  { p with
    slots := p.slots.modify id fun s => { s with gate := checked }
    key := some k
    history := es ++ p.history }

theorem report_of_good {g : Gate} {f : Frame} {key : Option SigningKey} (hgood : (g.judge f key).1.isGood = true)
    (p : Pair) (m : Moment) (s : Slot) :
    ∃ es, (∀ e ∈ es, e = .logged .goodSignature) ∧
      p.report m s (g.check f key).2.2 = { p with history := es ++ p.history } := by
  obtain ⟨hannounce, hnotify⟩ := Gate.check_of_good hgood
  simp only [report, hannounce, hnotify, Bool.false_eq_true, false_and, if_false]
  split
  · exact ⟨[.logged .goodSignature], by simp, rfl⟩
  · exact ⟨[], by simp, rfl⟩

/-- After a good frame the clock is written, and the frame is carried out as a rotation request or forwarded. -/
theorem fromEngineer_of_good {p : Pair} {id : SlotId} {s : Slot} (hs : p.slots.find? id = some s) (m : Moment)
    {f : Frame} {k : SigningKey} (hk : p.key = some k) {t : Stamp} (hgood : (s.gate.judge f p.key).1 = .good t) :
    ∃ es, (∀ e ∈ es, e = .logged .goodSignature) ∧
      p.fromEngineer m id f =
        if f.msgId = MessageId.setupSigning then
          (p.enterGood id (s.gate.check f p.key).1 (k.observe t.toClock) es).saveClock.rotateKey m
            (SetupSigning.ofPayload f.payload)
        else (p.enterGood id (s.gate.check f p.key).1 (k.observe t.toClock) es).saveClock.forward f := by
  have hisGood : (s.gate.judge f p.key).1.isGood = true := by rw [hgood]; rfl
  have hkey : (s.gate.judge f p.key).2.2 = some (k.observe t.toClock) := by
    rw [hk] at hgood ⊢
    exact Gate.judge_of_good hgood
  obtain ⟨es, hes, heq⟩ := report_of_good hisGood { p with
    slots := p.slots.modify id fun s' => { s' with gate := (s.gate.check f p.key).1 }
    key := some (k.observe t.toClock) } m s
  refine ⟨es, hes, ?_⟩
  simp only [fromEngineer, hs, Gate.check_verdict, Gate.check_key, hkey]
  rw [heq, dispatch, if_pos hisGood]
  rfl

end GatedRelay.Pair
