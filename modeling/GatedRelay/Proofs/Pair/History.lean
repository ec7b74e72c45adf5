import GatedRelay.Proofs.Pair.Moves

/-!
# What a pair does not look at

A pair keeps its effects but never looks at them, and it looks at the peers that it has refused only when another one
is refused or a datagram comes.  Everything else it does in the same way whatever it has kept of these
(`..._remembering`).  So two pairs that differ in their past go on in the same way (`act_onto`, `moves_onto`).
-/

set_option autoImplicit false

namespace GatedRelay

def Move.isAdmission : Move → Bool
  | connect .. => true
  | refuse _ => true
  | welcome _ => true
  | _ => false

namespace Pair

def remembering (p : Pair) (refused : Recent Peer Unit 256) (past : List Effect) : Pair :=
  { p with refused := refused, history := p.history ++ past }

theorem remembering_nil (p : Pair) (refused : Recent Peer Unit 256) :
    p.remembering refused [] = { p with refused := refused } := by
  rw [remembering, List.append_nil]

section Fields

variable (p : Pair) (refused : Recent Peer Unit 256) (past : List Effect)

@[simp] theorem remembering_slots : (p.remembering refused past).slots = p.slots := rfl

@[simp] theorem remembering_key : (p.remembering refused past).key = p.key := rfl

@[simp] theorem remembering_store : (p.remembering refused past).store = p.store := rfl

@[simp] theorem remembering_savedClock : (p.remembering refused past).savedClock = p.savedClock := rfl

@[simp] theorem remembering_idleTimeout : (p.remembering refused past).idleTimeout = p.idleTimeout := rfl

@[simp] theorem remembering_recordPort : (p.remembering refused past).recordPort = p.recordPort := rfl

end Fields

section Operations

variable (p : Pair) (refused : Recent Peer Unit 256) (past : List Effect)

@[simp] theorem emit_remembering (e : Effect) :
    (p.remembering refused past).emit e = (p.emit e).remembering refused past := rfl

@[simp] theorem log_remembering (entry : LogEntry) :
    (p.remembering refused past).log entry = (p.log entry).remembering refused past := rfl

@[simp] theorem ite_remembering (c : Prop) [Decidable c] (q : Pair) :
    (if c then p.remembering refused past else q.remembering refused past) =
      (if c then p else q).remembering refused past := by
  split
  · rfl
  · rfl

/-! ## Accounting -/

@[simp] theorem post_remembering (request : Request) :
    (p.remembering refused past).post request = (p.post request).remembering refused past := by
  unfold post
  rw [← ite_remembering]
  rfl

@[simp] theorem saveClock_remembering :
    (p.remembering refused past).saveClock = p.saveClock.remembering refused past := by
  cases hk : p.key with
  | none => simp [saveClock, hk]
  | some k =>
    simp only [saveClock, remembering_key, hk, remembering_savedClock, post_remembering, remembering_recordPort]
    rw [← ite_remembering]
    rfl

@[simp] theorem finishSlot_remembering (s : Slot) :
    (p.remembering refused past).finishSlot s = (p.finishSlot s).remembering refused past := by
  cases hrole : s.role with
  | user => simp [finishSlot, hrole]
  | engineer => simp [finishSlot, hrole]

theorem closeSlot_remembering (id : SlotId) :
    (p.remembering refused past).closeSlot id = (p.closeSlot id).remembering refused past := by
  unfold closeSlot
  rw [remembering_slots]
  split
  · rfl
  · rename_i t s _
    exact finishSlot_remembering { p with slots := t } refused past s

theorem closeSlots_remembering (ids : List SlotId) :
    (p.remembering refused past).closeSlots ids = (p.closeSlots ids).remembering refused past := by
  induction ids generalizing p with
  | nil => rfl
  | cons id rest ih =>
    rw [closeSlots, List.foldl_cons, closeSlot_remembering]
    exact ih (p.closeSlot id)

theorem sweep_remembering (m : Moment) :
    (p.remembering refused past).sweep m = (p.sweep m).remembering refused past := by
  unfold sweep
  simp only [remembering_slots, remembering_idleTimeout, closeSlots_remembering]
  rw [← ite_remembering]
  rfl

theorem finishEach_remembering (closed : List Slot) :
    closed.foldl finishSlot (p.remembering refused past) =
      (closed.foldl finishSlot p).remembering refused past := by
  induction closed generalizing p with
  | nil => rfl
  | cons s rest ih =>
    rw [List.foldl_cons, finishSlot_remembering]
    exact ih (p.finishSlot s)

theorem shutdown_remembering : (p.remembering refused past).shutdown = p.shutdown.remembering refused past := by
  have hfinish := finishEach_remembering { p with slots := (p.slots.closeEach p.slots.ids).1 } refused past
    (p.slots.closeEach p.slots.ids).2
  have hsave := congrArg saveClock hfinish
  rw [saveClock_remembering] at hsave
  exact congrArg (fun q : Pair => { q with live := false }) hsave

/-! ## Admission -/

@[simp] theorem reloadKey_remembering (m : Moment) :
    (p.remembering refused past).reloadKey m = (p.reloadKey m).remembering refused past := by
  unfold reloadKey
  simp only [remembering_store, remembering_recordPort]
  split
  · rfl
  · rfl

/-- The refused peers count only when a peer is refused. -/
theorem connect_remembering {m : Moment} {role : Role} {transport : Transport} {peer : Peer} {a : Admission}
    (h : p.slots.accept role transport peer m.now = .ok a) :
    (p.remembering refused past).connect m role transport peer =
      ((p.connect m role transport peer).1.remembering refused past, (p.connect m role transport peer).2) := by
  have hopened : ({ p.remembering refused past with slots := a.table } : Pair).emit (.opened a.id) =
      (({ p with slots := a.table } : Pair).emit (.opened a.id)).remembering refused past := rfl
  unfold connect
  simp only [remembering_slots, h, hopened]
  cases a.replaced with
  | none => simp
  | some s => simp

theorem established_remembering (m : Moment) (id : SlotId) :
    (p.remembering refused past).established m id = (p.established m id).remembering refused past := by
  unfold established
  rw [remembering_slots]
  split
  · rfl
  · rw [← ite_remembering]
    rfl

/-! ## Frames -/

theorem queueEach_remembering (slots : List Slot) (message : Bytes) :
    (p.remembering refused past).queueEach slots message =
      (p.queueEach slots message).remembering refused past := by
  unfold queueEach
  induction slots generalizing p with
  | nil => rfl
  | cons s rest ih =>
    rw [List.foldl_cons, emit_remembering]
    exact ih (p.emit (.queued s.id message))

theorem noteSource_remembering (f : Frame) :
    (p.remembering refused past).noteSource f = (p.noteSource f).remembering refused past := by
  unfold noteSource
  rw [← ite_remembering]
  rfl

theorem fromUser_remembering (f : Frame) :
    (p.remembering refused past).fromUser f = (p.fromUser f).remembering refused past := by
  have hrecipients (q : Pair) : (q.remembering refused past).recipients f = q.recipients f := rfl
  unfold fromUser
  simp only [noteSource_remembering, hrecipients, remembering_key]
  split
  · rfl
  · exact queueEach_remembering { p.noteSource f with key := (outgoing (p.noteSource f).key f).1 } refused past _ _

@[simp] theorem forward_remembering (f : Frame) :
    (p.remembering refused past).forward f = (p.forward f).remembering refused past := by
  unfold forward
  rw [remembering_slots]
  split
  · rfl
  · rw [← ite_remembering]
    rfl

theorem sendNotice_remembering (m : Moment) (id : SlotId) (verdict : Verdict) :
    (p.remembering refused past).sendNotice m id verdict =
      (p.sendNotice m id verdict).remembering refused past := rfl

@[simp] theorem report_remembering (m : Moment) (s : Slot) (o : Outcome) :
    (p.remembering refused past).report m s o = (p.report m s o).remembering refused past := by
  simp only [report, log_remembering, ite_remembering, sendNotice_remembering]

@[simp] theorem rotateKey_remembering (m : Moment) (request : SetupSigning) :
    (p.remembering refused past).rotateKey m request = (p.rotateKey m request).remembering refused past := by
  unfold rotateKey
  simp only [remembering_store, remembering_recordPort]
  split
  · rfl
  · rfl

@[simp] theorem dispatch_remembering (m : Moment) (f : Frame) (verdict : Verdict) :
    (p.remembering refused past).dispatch m f verdict = (p.dispatch m f verdict).remembering refused past := by
  simp only [dispatch, saveClock_remembering, rotateKey_remembering, forward_remembering, ite_remembering]

theorem fromEngineer_remembering (m : Moment) (id : SlotId) (f : Frame) :
    (p.remembering refused past).fromEngineer m id f = (p.fromEngineer m id f).remembering refused past := by
  unfold fromEngineer
  rw [remembering_slots]
  split
  · rfl
  · rename_i s _
    let checked : Pair := { p with
      key := (s.gate.check f p.key).2.1
      slots := p.slots.modify id fun s' => { s' with gate := (s.gate.check f p.key).1 } }
    have hreport := checked.report_remembering refused past m s (s.gate.check f p.key).2.2
    have hdispatch := (checked.report m s (s.gate.check f p.key).2.2).dispatch_remembering refused past m f
      (s.gate.check f p.key).2.2.verdict
    rw [← hreport] at hdispatch
    exact hdispatch

theorem handleFrames_remembering (m : Moment) (id : SlotId) (frames : List Frame) :
    (p.remembering refused past).handleFrames m id frames =
      (p.handleFrames m id frames).remembering refused past := by
  have hfold (step : Pair → Frame → Pair)
      (hstep : ∀ q f, step (q.remembering refused past) f = (step q f).remembering refused past) (q : Pair) :
      frames.foldl step (q.remembering refused past) = (frames.foldl step q).remembering refused past := by
    induction frames generalizing q with
    | nil => rfl
    | cons f rest ih =>
      rw [List.foldl_cons, hstep]
      exact ih (step q f)
  unfold handleFrames
  rw [remembering_slots]
  split
  · rfl
  · rename_i s _
    let arrived : Pair := { p with slots := p.slots.modify id fun s' => received s' m.now frames.length }
    cases s.role with
    | user => exact hfold fromUser (fun q f => q.fromUser_remembering refused past f) arrived
    | engineer => exact hfold _ (fun q f => q.fromEngineer_remembering refused past m id f) arrived

/-! ## Moves -/

theorem act_remembering {b : Moment × Move} (h : b.2.isAdmission = false) :
    (p.remembering refused past).act b = (p.act b).remembering refused past := by
  obtain ⟨m, move⟩ := b
  cases move with
  | connect role transport peer => cases h
  | refuse peer => cases h
  | welcome peer => cases h
  | established id => exact p.established_remembering refused past m id
  | arrival id count => rfl
  | userFrame f => exact p.fromUser_remembering refused past f
  | engineerFrame id f => exact p.fromEngineer_remembering refused past m id f
  | disconnected id => exact p.closeSlot_remembering refused past id
  | sweep => exact p.sweep_remembering refused past m
  | quit => exact p.shutdown_remembering refused past
  | storeChange change => rfl

end Operations

/-! ## The past -/

def onto (p : Pair) (past : List Effect) : Pair := { p with history := p.history ++ past }

def bare (p : Pair) : Pair := { p with history := [] }

theorem bare_onto (p : Pair) : p.bare.onto p.history = p := rfl

section Moves

variable (p : Pair) (past : List Effect)

theorem refused_act_of_not_admission {b : Moment × Move} (h : b.2.isAdmission = false) :
    (p.act b).refused = p.refused := by
  have hself := congrArg refused (p.act_remembering p.refused [] h)
  rw [remembering_nil] at hself
  exact hself

theorem refused_connect {m : Moment} {role : Role} {transport : Transport} {peer : Peer} {a : Admission}
    (h : p.slots.accept role transport peer m.now = .ok a) :
    (p.connect m role transport peer).1.refused = p.refused := by
  have hself := congrArg (fun r => r.1.refused) (p.connect_remembering p.refused [] h)
  rw [remembering_nil] at hself
  exact hself

theorem logRefusal_onto (refusal : Refusal) (transport : Transport) (peer : Peer) :
    (p.onto past).logRefusal refusal transport peer = (p.logRefusal refusal transport peer).onto past := by
  unfold logRefusal
  split
  · rw [if_pos ‹_›]
  · rw [if_neg ‹_›]
    rfl

theorem connect_onto (m : Moment) (role : Role) (transport : Transport) (peer : Peer) :
    (p.onto past).connect m role transport peer =
      ((p.connect m role transport peer).1.onto past, (p.connect m role transport peer).2) := by
  cases haccept : p.slots.accept role transport peer m.now with
  | error refusal =>
    have honto : (p.onto past).slots.accept role transport peer m.now = .error refusal := haccept
    simp only [connect, haccept, honto, logRefusal_onto]
  | ok a =>
    calc
      (p.onto past).connect m role transport peer
        = ((p.connect m role transport peer).1.remembering p.refused past, (p.connect m role transport peer).2) :=
          p.connect_remembering p.refused past haccept
      _ = ((p.connect m role transport peer).1.onto past, (p.connect m role transport peer).2) := by
          rw [← p.refused_connect haccept]
          rfl

theorem act_onto (b : Moment × Move) : (p.onto past).act b = (p.act b).onto past := by
  cases hb : b.2.isAdmission with
  | false =>
    calc
      (p.onto past).act b = (p.act b).remembering p.refused past := p.act_remembering p.refused past hb
      _ = (p.act b).onto past := by
          rw [← p.refused_act_of_not_admission hb]
          rfl
  | true =>
    obtain ⟨m, move⟩ := b
    cases move with
    | connect role transport peer => exact congrArg Prod.fst (p.connect_onto past m role transport peer)
    | refuse peer => rfl
    | welcome peer => rfl
    | _ => cases hb

theorem moves_onto (m : Moment) (e : Event) : (p.onto past).moves m e = p.moves m e := by
  have hlive : (p.onto past).liveMoves m e = p.liveMoves m e := by
    cases e with
    | datagram role peer frames =>
      have hslots : (p.onto past).slots = p.slots := rfl
      have hrefused : (p.onto past).refused = p.refused := rfl
      simp only [liveMoves, hslots, hrefused, connect_onto]
      rcases p.connect m role .udp peer with ⟨q, _ | id⟩
      · rfl
      · rfl
    | _ => rfl
  unfold moves
  rw [hlive]
  rfl

end Moves

theorem act_eq_onto (p : Pair) (b : Moment × Move) : p.act b = (p.bare.act b).onto p.history := by
  rw [← act_onto, bare_onto]

theorem moves_bare (p : Pair) (m : Moment) (e : Event) : p.moves m e = p.bare.moves m e := by
  conv_lhs => rw [← p.bare_onto]
  exact p.bare.moves_onto p.history m e

end Pair

end GatedRelay
