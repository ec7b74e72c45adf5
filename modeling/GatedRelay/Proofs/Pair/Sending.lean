import GatedRelay.Proofs.Pair.Handover
import GatedRelay.Proofs.Pair.Settling
import GatedRelay.Proofs.Slot.Outbox

/-!
# Sending on the spot

A session applies the effects of an event to the outboxes when the event is over.  Here outboxes are added, filled and
finished at the very places where a pair does so, and every sender is told whether there was room.  Nobody but the tracing
of lost messages asks for that, so both are the same (`toSession_step`).
-/

set_option autoImplicit false

namespace GatedRelay

/-- The peer of a slot takes the oldest of its messages, so many at most. -/
def Outboxes.receive (o : Outboxes) (id : SlotId) (count : Nat) : List Bytes × Outboxes :=
  match o.find? id with
  | none => ([], o)
  | some b => (b.queue.take count, o.modify id fun _ => { b with queue := b.queue.drop count })

structure Wired extends Session where
  /-- The slots that a message was lost for, as it is traced. -/
  lost : List SlotId := []

namespace Wired

def withPair (w : Wired) (p : Pair) : Wired := { w with pair := p }

def send (w : Wired) (id : SlotId) (message : Bytes) : Bool × Wired :=
  (w.outboxes.hasRoom id,
    { w with pair := w.pair.emit (.queued id message), outboxes := w.outboxes.offer id message })

def deliver (w : Wired) (id : SlotId) (message : Bytes) : Wired :=
  let (sent, w) := w.send id message
  if sent then w else { w with lost := id :: w.lost }

/-! ## Closing slots -/

def finishSlot (w : Wired) (s : Slot) : Wired :=
  { w with pair := w.pair.finishSlot s, outboxes := w.outboxes.modify s.id (·.finish) }

def closeSlot (w : Wired) (id : SlotId) : Wired :=
  match w.pair.slots.close id with
  | (_, none) => w
  | (slots, some s) => (w.withPair { w.pair with slots := slots }).finishSlot s

def closeSlots (w : Wired) (ids : List SlotId) : Wired := ids.foldl closeSlot w

def sweep (w : Wired) (m : Moment) : Wired :=
  let w := w.closeSlots (w.pair.slots.expired m.now w.pair.idleTimeout)
  if 0 < w.pair.slots.engineerCount then w.withPair { w.pair with key := w.pair.key.map (·.observe m.clock) } else w

def shutdown (w : Wired) : Wired :=
  let (slots, closed) := w.pair.slots.closeEach w.pair.slots.ids
  let w := closed.foldl finishSlot (w.withPair { w.pair with slots := slots })
  w.withPair { w.pair.saveClock with live := false }

/-! ## Admitting peers -/

def connect (w : Wired) (capacity : Nat) (m : Moment) (role : Role) (transport : Transport) (peer : Peer) :
    Wired × Option SlotId :=
  match w.pair.slots.accept role transport peer m.now with
  | .error refusal => (w.withPair (w.pair.logRefusal refusal transport peer), none)
  | .ok admission =>
    let first := role = .engineer ∧ w.pair.slots.engineerCount = 0
    let w : Wired := { w with
      pair := { w.pair with slots := admission.table }.emit (.opened admission.id)
      outboxes := w.outboxes.add admission.id capacity }
    let w := match admission.replaced with
      | none => w
      | some s => w.finishSlot s
    let w := if first then w.withPair (w.pair.reloadKey m) else w
    let w := if transport.hasHandshake then w else w.withPair (w.pair.log (.connected role transport peer))
    (w, some admission.id)

/-! ## Forwarding frames -/

def deliverEach (w : Wired) (slots : List Slot) (message : Bytes) : Wired :=
  slots.foldl (fun w s => w.deliver s.id message) w

def fromUser (w : Wired) (f : Frame) : Wired :=
  let w := w.withPair (w.pair.noteSource f)
  match w.pair.recipients f with
  | [] => w
  | slots =>
    let (key, message) := Pair.outgoing w.pair.key f
    (w.withPair { w.pair with key := key }).deliverEach slots message

def forward (w : Wired) (f : Frame) : Wired :=
  match w.pair.slots.user? with
  | none => w
  | some user => if user.isOpen then w.deliver user.id f.withoutSignature.bytes else w

/-- The time of the notice is noted first, and nobody asks what has become of it. -/
def sendNotice (w : Wired) (m : Moment) (id : SlotId) (verdict : Verdict) : Wired :=
  let (sysid, compid) := w.pair.userSource.getD Pair.defaultSource
  let notice := StatusText.frame sysid compid StatusText.critical (verdict.notice?.getD "")
  ((w.withPair { w.pair with slots := w.pair.slots.modify id (·.markNotice m.now) }).send id notice.bytes).2

def report (w : Wired) (m : Moment) (s : Slot) (o : Outcome) : Wired :=
  let w := if o.trustChanged ∧ o.trust = .authenticated then w.withPair (w.pair.log .goodSignature) else w
  let w := if o.announce then w.withPair (w.pair.log (.problem o.verdict)) else w
  if o.notify ∧ s.noticeDue m.now Pair.noticeInterval then w.sendNotice m s.id o.verdict else w

def dispatch (w : Wired) (m : Moment) (f : Frame) (verdict : Verdict) : Wired :=
  if verdict.isGood then
    let w := w.withPair w.pair.saveClock
    if f.msgId = MessageId.setupSigning then w.withPair (w.pair.rotateKey m (SetupSigning.ofPayload f.payload))
    else w.forward f
  else w.forward f

def fromEngineer (w : Wired) (m : Moment) (id : SlotId) (f : Frame) : Wired :=
  match w.pair.slots.find? id with
  | none => w
  | some s =>
    let (gate, key, o) := s.gate.check f w.pair.key
    let w := w.withPair
      { w.pair with key := key, slots := w.pair.slots.modify id fun s => { s with gate := gate } }
    (w.report m s o).dispatch m f o.verdict

def handleFrames (w : Wired) (m : Moment) (id : SlotId) (frames : List Frame) : Wired :=
  match w.pair.slots.find? id with
  | none => w
  | some s =>
    let w := w.withPair
      { w.pair with slots := w.pair.slots.modify id fun s => Pair.received s m.now frames.length }
    match s.role with
    | .user => frames.foldl fromUser w
    | .engineer => frames.foldl (fun w f => w.fromEngineer m id f) w

def datagram (w : Wired) (capacity : Nat) (m : Moment) (role : Role) (peer : Peer) (frames : List Frame) : Wired :=
  match w.pair.slots.findUdp? role peer with
  | some s => w.handleFrames m s.id frames
  | none =>
    if w.pair.refused.contains peer && !w.pair.slots.hasRoom role then w
    else
      match w.connect capacity m role .udp peer with
      | (w, none) => w.withPair { w.pair with refused := w.pair.refused.use peer () }
      | (w, some id) => (w.withPair { w.pair with refused := w.pair.refused.erase peer }).handleFrames m id frames

/-! ## Events -/

def handle (w : Wired) (capacity : Nat) (m : Moment) : Event → Wired
  | .connect role transport peer => (w.connect capacity m role transport peer).1
  | .established id => w.withPair (w.pair.established m id)
  | .frames id frames => w.handleFrames m id frames
  | .datagram role peer frames => w.datagram capacity m role peer frames
  | .disconnected id => w.closeSlot id
  | .sweep => w.sweep m
  | .quit => w.shutdown
  | .storeWrite request => w.withPair { w.pair with store := w.pair.store.post request }
  | .storeChange change => w.withPair { w.pair with store := w.pair.store.outside change }
  | .storeQuit => w.withPair { w.pair with store := w.pair.store.quit }

def happen (w : Wired) (capacity : Nat) (m : Moment) (e : Event) : Wired :=
  if w.pair.live || e.concernsStore then w.handle capacity m e else w

/-- What the pair or a peer does.  A peer need not take everything that waits for it. -/
inductive Action where
  /-- An event, with the capacity of the outboxes that it adds. -/
  | event (m : Moment) (e : Event) (capacity : Nat)
  | receive (slot : SlotId) (count : Nat)
  | abandon (slot : SlotId)

def step (w : Wired) : Action → Wired × List Bytes
  | .event m e capacity => (w.happen capacity m e, [])
  | .receive id count => ({ w with outboxes := (w.outboxes.receive id count).2 }, (w.outboxes.receive id count).1)
  | .abandon id => ({ w with outboxes := w.outboxes.modify id (·.abandon) }, [])

def run (w : Wired) : List Action → Wired × List (List Bytes)
  | [] => (w, [])
  | a :: rest =>
    let (w, messages) := w.step a
    let (w, later) := w.run rest
    (w, messages :: later)

end Wired

/-! ## Logging -/

namespace Pair

def OnlyLogs (p q : Pair) : Prop := ∃ es, q.history = es ++ p.history ∧ ∀ e ∈ es, ∃ entry, e = .logged entry

theorem onlyLogs_of_history {p q : Pair} (h : q.history = p.history) : p.OnlyLogs q := ⟨[], h, by simp⟩

theorem OnlyLogs.trans {p q r : Pair} (h : p.OnlyLogs q) (h' : q.OnlyLogs r) : p.OnlyLogs r := by
  obtain ⟨es, heq, hes⟩ := h
  obtain ⟨es', heq', hes'⟩ := h'
  refine ⟨es' ++ es, by rw [heq', heq, List.append_assoc], ?_⟩
  intro e he
  rcases List.mem_append.mp he with he | he
  · exact hes' e he
  · exact hes e he

theorem onlyLogs_log (p : Pair) (entry : LogEntry) : p.OnlyLogs (p.log entry) :=
  ⟨[.logged entry], rfl, fun _ he => ⟨entry, List.mem_singleton.mp he⟩⟩

theorem onlyLogs_post (p : Pair) (request : Request) : p.OnlyLogs (p.post request) := by
  unfold post
  split
  · exact onlyLogs_of_history rfl
  · exact p.onlyLogs_log .writeDropped

theorem onlyLogs_saveClock (p : Pair) : p.OnlyLogs p.saveClock := by
  obtain ⟨es, hes, heq⟩ := p.history_saveClock
  exact ⟨es, heq, fun e he => ⟨_, hes e he⟩⟩

theorem onlyLogs_rotateKey (p : Pair) (m : Moment) (request : SetupSigning) :
    p.OnlyLogs (p.rotateKey m request) := by
  rcases p.rotateKey_cases m request with ⟨_, heq⟩ | ⟨_, heq⟩
  · rw [heq]
    exact p.onlyLogs_log .keyNotStored
  · rw [heq]
    exact p.onlyLogs_log .keyReplaced

theorem onlyLogs_reloadKey (p : Pair) (m : Moment) : p.OnlyLogs (p.reloadKey m) := by
  unfold reloadKey
  split
  · exact p.onlyLogs_log .keyNotLoaded
  · exact onlyLogs_of_history rfl

theorem onlyLogs_logRefusal (p : Pair) (refusal : Refusal) (transport : Transport) (peer : Peer) :
    p.OnlyLogs (p.logRefusal refusal transport peer) := by
  unfold logRefusal
  split
  · exact onlyLogs_of_history rfl
  · exact p.onlyLogs_log _

theorem onlyLogs_established (p : Pair) (m : Moment) (id : SlotId) : p.OnlyLogs (p.established m id) := by
  unfold established
  split
  · exact onlyLogs_of_history rfl
  · split
    · exact onlyLogs_log _ _
    · exact onlyLogs_of_history rfl

theorem onlyLogs_noteSource (p : Pair) (f : Frame) : p.OnlyLogs (p.noteSource f) := by
  rw [noteSource_eq]
  exact onlyLogs_of_history rfl

theorem onlyLogs_finishSlot (p : Pair) (s : Slot) : (p.emit (.released s.id)).OnlyLogs (p.finishSlot s) := by
  have hclosed : (p.emit (.released s.id)).OnlyLogs (p.released s) := onlyLogs_log _ _
  cases hrole : s.role with
  | user =>
    rw [p.finishSlot_user hrole]
    exact hclosed.trans (onlyLogs_post _ _)
  | engineer =>
    obtain ⟨posted, hposted, heq⟩ := p.finishSlot_engineer hrole
    have hcounted : (p.emit (.released s.id)).OnlyLogs posted := by
      rw [hposted]
      exact hclosed.trans (onlyLogs_post _ _)
    rw [heq]
    split
    · exact hcounted.trans posted.onlyLogs_saveClock
    · exact hcounted

theorem step_eq_handle (p : Pair) (m : Moment) (e : Event) :
    p.step m e = if p.live || e.concernsStore then p.handle m e else p := by
  cases hlive : p.live with
  | true => simp [step, hlive]
  | false => cases e <;> simp [step, hlive, Event.concernsStore, handle]

end Pair

/-! ## Both ways are the same -/

namespace Wired

structure Carries (capacity : Nat) (w w' : Wired) (q : Pair) : Prop where
  pair : w'.pair = q
  outboxes : ∃ es, q.history = es ++ w.pair.history ∧ w'.outboxes = w.outboxes.applyEach capacity es.reverse

theorem Carries.refl (capacity : Nat) (w : Wired) : Carries capacity w w w.pair := ⟨rfl, [], rfl, rfl⟩

theorem Carries.trans {capacity : Nat} {w w' w'' : Wired} {q r : Pair} (h : Carries capacity w w' q)
    (h' : Carries capacity w' w'' r) : Carries capacity w w'' r := by
  obtain ⟨es, heq, hboxes⟩ := h.outboxes
  obtain ⟨es', heq', hboxes'⟩ := h'.outboxes
  refine ⟨h'.pair, es' ++ es, ?_, ?_⟩
  · rw [heq', h.pair, heq, List.append_assoc]
  · rw [hboxes', hboxes, List.reverse_append]
    exact List.foldl_append.symm

theorem Carries.next {capacity : Nat} {w w' : Wired} {q : Pair} (h : Carries capacity w w' q) {g : Wired → Wired}
    (f : Pair → Pair) (hg : ∀ v, Carries capacity v (g v) (f v.pair)) : Carries capacity w (g w') (f q) := by
  obtain rfl := h.pair
  exact h.trans (hg w')

variable (capacity : Nat) (w : Wired)

theorem carries_withPair {q : Pair} (h : w.pair.OnlyLogs q) : Carries capacity w (w.withPair q) q := by
  obtain ⟨es, heq, hes⟩ := h
  refine ⟨rfl, es, heq, (Outboxes.applyEach_logged ?_ capacity w.outboxes).symm⟩
  intro e he
  exact hes e (List.mem_reverse.mp he)

theorem carries_of_history {q : Pair} (h : q.history = w.pair.history) : Carries capacity w (w.withPair q) q :=
  carries_withPair capacity w (Pair.onlyLogs_of_history h)

theorem carries_deliver (id : SlotId) (message : Bytes) :
    Carries capacity w (w.deliver id message) (w.pair.emit (.queued id message)) := by
  unfold deliver
  simp only
  split
  · exact ⟨rfl, [.queued id message], rfl, rfl⟩
  · exact ⟨rfl, [.queued id message], rfl, rfl⟩

theorem Carries.when {capacity : Nat} {w w' : Wired} {q : Pair} (c : Prop) [Decidable c] (h : Carries capacity w w' q) :
    Carries capacity w (if c then w' else w) (if c then q else w.pair) := by
  split
  · exact h
  · exact .refl capacity w

theorem carries_deliverEach (slots : List Slot) (message : Bytes) :
    Carries capacity w (w.deliverEach slots message) (w.pair.queueEach slots message) := by
  induction slots generalizing w with
  | nil => exact .refl capacity w
  | cons s rest ih => exact (carries_deliver capacity w s.id message).next (Pair.queueEach · rest message) ih

/-! ### Closing slots -/

theorem carries_finishSlot (s : Slot) : Carries capacity w (w.finishSlot s) (w.pair.finishSlot s) := by
  obtain ⟨es, heq, hes⟩ := w.pair.onlyLogs_finishSlot s
  refine ⟨rfl, es ++ [.released s.id], ?_, ?_⟩
  · rw [heq, List.append_assoc]
    rfl
  · rw [List.reverse_append]
    refine (Outboxes.applyEach_logged ?_ capacity (w.outboxes.modify s.id (·.finish))).symm
    intro e he
    exact hes e (List.mem_reverse.mp he)

theorem carries_finishEach (closed : List Slot) :
    Carries capacity w (closed.foldl finishSlot w) (closed.foldl Pair.finishSlot w.pair) := by
  induction closed generalizing w with
  | nil => exact .refl capacity w
  | cons s rest ih => exact (carries_finishSlot capacity w s).trans (ih (w.finishSlot s))

theorem carries_closeSlot (id : SlotId) : Carries capacity w (w.closeSlot id) (w.pair.closeSlot id) := by
  rcases hclose : w.pair.slots.close id with ⟨slots, _ | s⟩
  · simp only [closeSlot, Pair.closeSlot, hclose]
    exact .refl capacity w
  · simp only [closeSlot, Pair.closeSlot, hclose]
    have hemptied : Carries capacity w (w.withPair { w.pair with slots := slots }) { w.pair with slots := slots } :=
      carries_of_history capacity w rfl
    exact hemptied.trans (carries_finishSlot capacity _ s)

theorem carries_closeSlots (ids : List SlotId) :
    Carries capacity w (w.closeSlots ids) (w.pair.closeSlots ids) := by
  induction ids generalizing w with
  | nil => exact .refl capacity w
  | cons id rest ih => exact (carries_closeSlot capacity w id).next (Pair.closeSlots · rest) ih

theorem carries_sweep (m : Moment) : Carries capacity w (w.sweep m) (w.pair.sweep m) := by
  have hclosed := carries_closeSlots capacity w (w.pair.slots.expired m.now w.pair.idleTimeout)
  exact hclosed.next
    (fun p => if 0 < p.slots.engineerCount then { p with key := p.key.map (·.observe m.clock) } else p)
    (g := fun v => if 0 < v.pair.slots.engineerCount then
      v.withPair { v.pair with key := v.pair.key.map (·.observe m.clock) } else v)
    fun v => .when _ (carries_of_history capacity v rfl)

theorem carries_shutdown : Carries capacity w w.shutdown w.pair.shutdown := by
  let slots := (w.pair.slots.closeEach w.pair.slots.ids).1
  let closed := (w.pair.slots.closeEach w.pair.slots.ids).2
  have hemptied : Carries capacity w (w.withPair { w.pair with slots := slots }) { w.pair with slots := slots } :=
    carries_of_history capacity w rfl
  have hfinished := hemptied.trans (carries_finishEach capacity _ closed)
  exact hfinished.next (fun p => { p.saveClock with live := false }) fun v =>
    carries_withPair capacity v (v.pair.onlyLogs_saveClock.trans (Pair.onlyLogs_of_history rfl))

/-! ### Admitting peers -/

theorem carries_connect (m : Moment) (role : Role) (transport : Transport) (peer : Peer) :
    Carries capacity w (w.connect capacity m role transport peer).1 (w.pair.connect m role transport peer).1 ∧
      (w.connect capacity m role transport peer).2 = (w.pair.connect m role transport peer).2 := by
  cases haccept : w.pair.slots.accept role transport peer m.now with
  | error refusal =>
    simp only [connect, Pair.connect, haccept]
    exact ⟨carries_withPair capacity w (w.pair.onlyLogs_logRefusal refusal transport peer), trivial⟩
  | ok a =>
    simp only [connect, Pair.connect, haccept]
    refine ⟨?_, trivial⟩
    let opened : Wired := { w with
      pair := { w.pair with slots := a.table }.emit (.opened a.id)
      outboxes := w.outboxes.add a.id capacity }
    -- The outbox is there before the slot that makes room loses its own.
    have hopened : Carries capacity w opened opened.pair := ⟨rfl, [.opened a.id], rfl, rfl⟩
    have hfinished := hopened.next (fun p => match a.replaced with | none => p | some s => p.finishSlot s)
      (g := fun v => match a.replaced with | none => v | some s => v.finishSlot s) fun v => by
        cases a.replaced with
        | none => exact .refl capacity v
        | some s => exact carries_finishSlot capacity v s
    have hloaded := hfinished.next
      (fun p => if role = .engineer ∧ w.pair.slots.engineerCount = 0 then p.reloadKey m else p)
      (g := fun v => if role = .engineer ∧ w.pair.slots.engineerCount = 0 then v.withPair (v.pair.reloadKey m) else v)
      fun v => (carries_withPair capacity v (v.pair.onlyLogs_reloadKey m)).when _
    exact hloaded.next (fun p => if transport.hasHandshake then p else p.log (.connected role transport peer))
      (g := fun v => if transport.hasHandshake then v else v.withPair (v.pair.log (.connected role transport peer)))
      fun v => by
        split
        · exact .refl capacity v
        · exact carries_withPair capacity v (v.pair.onlyLogs_log _)

/-! ### Forwarding frames -/

theorem carries_fromUser (f : Frame) : Carries capacity w (w.fromUser f) (w.pair.fromUser f) := by
  have hnoted : Carries capacity w (w.withPair (w.pair.noteSource f)) (w.pair.noteSource f) :=
    carries_withPair capacity w (w.pair.onlyLogs_noteSource f)
  unfold fromUser Pair.fromUser
  simp only
  cases hr : (w.pair.noteSource f).recipients f with
  | nil =>
    simp only [withPair, hr]
    exact hnoted
  | cons s rest =>
    simp only [withPair, hr]
    let signed : Pair := { w.pair.noteSource f with key := (Pair.outgoing (w.pair.noteSource f).key f).1 }
    have hsigned := hnoted.trans (carries_of_history capacity _ (q := signed) rfl)
    exact hsigned.trans (carries_deliverEach capacity _ (s :: rest) (Pair.outgoing (w.pair.noteSource f).key f).2)

theorem carries_forward (f : Frame) : Carries capacity w (w.forward f) (w.pair.forward f) := by
  unfold forward Pair.forward
  cases w.pair.slots.user? with
  | none => exact .refl capacity w
  | some user =>
    simp only
    split
    · exact carries_deliver capacity w user.id _
    · exact .refl capacity w

theorem carries_sendNotice (m : Moment) (id : SlotId) (verdict : Verdict) :
    Carries capacity w (w.sendNotice m id verdict) (w.pair.sendNotice m id verdict) :=
  ⟨rfl, [_], rfl, rfl⟩

theorem carries_report (m : Moment) (s : Slot) (o : Outcome) :
    Carries capacity w (w.report m s o) (w.pair.report m s o) := by
  have hgood := (carries_withPair capacity w (w.pair.onlyLogs_log .goodSignature)).when
    (o.trustChanged ∧ o.trust = .authenticated)
  have hannounced := hgood.next (fun p => if o.announce then p.log (.problem o.verdict) else p)
    (g := fun v => if o.announce then v.withPair (v.pair.log (.problem o.verdict)) else v)
    fun v => (carries_withPair capacity v (v.pair.onlyLogs_log _)).when _
  exact hannounced.next
    (fun p => if o.notify ∧ s.noticeDue m.now Pair.noticeInterval then p.sendNotice m s.id o.verdict else p)
    (g := fun v => if o.notify ∧ s.noticeDue m.now Pair.noticeInterval then v.sendNotice m s.id o.verdict else v)
    fun v => (carries_sendNotice capacity v m s.id o.verdict).when _

theorem carries_dispatch (m : Moment) (f : Frame) (verdict : Verdict) :
    Carries capacity w (w.dispatch m f verdict) (w.pair.dispatch m f verdict) := by
  unfold dispatch Pair.dispatch
  split
  · have hsaved := carries_withPair capacity w w.pair.onlyLogs_saveClock
    split
    · exact hsaved.trans (carries_withPair capacity _ (w.pair.saveClock.onlyLogs_rotateKey m _))
    · exact hsaved.trans (carries_forward capacity _ f)
  · exact carries_forward capacity w f

theorem carries_fromEngineer (m : Moment) (id : SlotId) (f : Frame) :
    Carries capacity w (w.fromEngineer m id f) (w.pair.fromEngineer m id f) := by
  unfold fromEngineer Pair.fromEngineer
  cases w.pair.slots.find? id with
  | none => exact .refl capacity w
  | some s =>
    simp only
    rcases s.gate.check f w.pair.key with ⟨gate, key, o⟩
    let checked : Pair :=
      { w.pair with key := key, slots := w.pair.slots.modify id fun s => { s with gate := gate } }
    have hchecked : Carries capacity w (w.withPair checked) checked :=
      carries_of_history capacity w rfl
    have hreported := hchecked.trans (carries_report capacity _ m s o)
    exact hreported.next (fun p => p.dispatch m f o.verdict) fun v => carries_dispatch capacity v m f o.verdict

theorem carries_foldl {g : Wired → Frame → Wired} {h : Pair → Frame → Pair}
    (hg : ∀ v f, Carries capacity v (g v f) (h v.pair f)) (frames : List Frame) :
    Carries capacity w (frames.foldl g w) (frames.foldl h w.pair) := by
  induction frames generalizing w with
  | nil => exact .refl capacity w
  | cons f rest ih => exact (hg w f).next (fun p => rest.foldl h p) ih

theorem carries_handleFrames (m : Moment) (id : SlotId) (frames : List Frame) :
    Carries capacity w (w.handleFrames m id frames) (w.pair.handleFrames m id frames) := by
  unfold handleFrames Pair.handleFrames
  cases w.pair.slots.find? id with
  | none => exact .refl capacity w
  | some s =>
    let arrived : Pair :=
      { w.pair with slots := w.pair.slots.modify id fun s => Pair.received s m.now frames.length }
    have harrived : Carries capacity w (w.withPair arrived) arrived :=
      carries_of_history capacity w rfl
    cases hrole : s.role with
    | user =>
      simp only [hrole]
      exact harrived.trans (carries_foldl capacity _ (carries_fromUser capacity) frames)
    | engineer =>
      simp only [hrole]
      exact harrived.trans (carries_foldl capacity _ (fun v => carries_fromEngineer capacity v m id) frames)

theorem carries_datagram (m : Moment) (role : Role) (peer : Peer) (frames : List Frame) :
    Carries capacity w (w.datagram capacity m role peer frames) (w.pair.datagram m role peer frames) := by
  unfold datagram Pair.datagram
  cases w.pair.slots.findUdp? role peer with
  | some s => exact carries_handleFrames capacity w m s.id frames
  | none =>
    simp only
    split
    · exact .refl capacity w
    · obtain ⟨hconnected, hid⟩ := carries_connect capacity w m role .udp peer
      rcases hconnect : w.connect capacity m role .udp peer with ⟨w', id⟩
      rcases hpair : w.pair.connect m role .udp peer with ⟨q, id'⟩
      simp only [hconnect, hpair] at hconnected hid ⊢
      subst hid
      cases id with
      | none =>
        exact hconnected.next (fun p => { p with refused := p.refused.use peer () })
          fun v => carries_of_history capacity v rfl
      | some id =>
        have hwelcomed := hconnected.next (fun p => { p with refused := p.refused.erase peer })
          (g := fun v => v.withPair { v.pair with refused := v.pair.refused.erase peer })
          fun v => carries_of_history capacity v rfl
        exact hwelcomed.next (fun p => p.handleFrames m id frames)
          fun v => carries_handleFrames capacity v m id frames

/-! ### Events -/

theorem carries_handle (m : Moment) (e : Event) :
    Carries capacity w (w.handle capacity m e) (w.pair.handle m e) := by
  cases e with
  | connect role transport peer => exact (carries_connect capacity w m role transport peer).1
  | established id => exact carries_withPair capacity w (w.pair.onlyLogs_established m id)
  | frames id frames => exact carries_handleFrames capacity w m id frames
  | datagram role peer frames => exact carries_datagram capacity w m role peer frames
  | disconnected id => exact carries_closeSlot capacity w id
  | sweep => exact carries_sweep capacity w m
  | quit => exact carries_shutdown capacity w
  | storeWrite => exact carries_of_history capacity w rfl
  | storeChange => exact carries_of_history capacity w rfl
  | storeQuit => exact carries_of_history capacity w rfl

theorem carries_happen (m : Moment) (e : Event) :
    Carries capacity w (w.happen capacity m e) (w.pair.step m e) := by
  rw [Pair.step_eq_handle]
  exact (carries_handle capacity w m e).when _

theorem toSession_happen (m : Moment) (e : Event) :
    (w.happen capacity m e).toSession = w.toSession.happen m e capacity := by
  obtain ⟨hpair, es, hhistory, hboxes⟩ := carries_happen capacity w m e
  have heffects : w.toSession.effects m e = es.reverse := Pair.effectsSince_of_append hhistory
  rw [Session.happen, heffects, ← hboxes, ← hpair]

theorem receive_of_le {o : Outboxes} {id : SlotId} {count : Nat} (h : (Outbox.waiting (o.find? id)).length ≤ count) :
    o.receive id count = o.take id := by
  unfold Outboxes.receive Outboxes.take
  cases hb : o.find? id with
  | none => rfl
  | some b =>
    rw [hb] at h
    simp only [Outbox.waiting] at h
    simp only [Outbox.take, List.take_of_length_le h, List.drop_of_length_le h]

/-- Whatever happens in a session happens with messages sent on the spot as well. -/
theorem toSession_step (a : Session.Action) :
    ∃ b, (w.step b).1.toSession = (w.toSession.step a).1 ∧ (w.step b).2 = (w.toSession.step a).2 := by
  cases a with
  | event m e capacity => exact ⟨.event m e capacity, toSession_happen capacity w m e, rfl⟩
  | take id =>
    let count := (Outbox.waiting (w.outboxes.find? id)).length
    have hall : w.outboxes.receive id count = w.outboxes.take id := receive_of_le (Nat.le_refl _)
    refine ⟨.receive id count, ?_, ?_⟩
    · simp only [step, hall, Session.step]
    · simp only [step, hall, Session.step]
  | abandon id => exact ⟨.abandon id, rfl, rfl⟩

theorem toSession_run (as : List Session.Action) :
    ∃ bs, (w.run bs).1.toSession = (w.toSession.run as).1 ∧ (w.run bs).2 = (w.toSession.run as).2 := by
  induction as generalizing w with
  | nil => exact ⟨[], rfl, rfl⟩
  | cons a rest ih =>
    obtain ⟨b, hstep, hmessages⟩ := toSession_step w a
    obtain ⟨bs, hrun, hlater⟩ := ih (w.step b).1
    rw [hstep] at hrun hlater
    refine ⟨b :: bs, hrun, ?_⟩
    simp only [run, Session.run, hmessages, hlater]

end Wired

end GatedRelay
