import GatedRelay.Proofs.Frame.Resigning
import GatedRelay.Proofs.Pair.Withholding
import GatedRelay.Proofs.Pair.Writing

/-!
# Delivery to the user

Whatever a check says of a frame of an engineer, the frame goes into the outbox of the user without its signature, if
the user is open and there is room; only a rotation request that is carried out goes no further.  What a user takes out
of its outbox are such frames in the order in which they were handled.
-/

set_option autoImplicit false

namespace GatedRelay

/-! ## The message -/

structure Frame.PlainCopy (g f : Frame) : Prop where
  alone : parseDatagram g.bytes = [g]
  unsigned : g.isSigned = false
  version : g.version = f.version
  msgId : g.msgId = f.msgId
  seq : g.header.seq = f.header.seq
  sysid : g.header.sysid = f.header.sysid
  compid : g.header.compid = f.header.compid
  payload : g.payload = f.payload
  same : f.isSigned = false → g.bytes = f.bytes

/-- The frame without its signature, written with the seed that its checksum tells; if it told none, the frame would
stay as it is. -/
def Frame.stripped (f : Frame) : Frame :=
  if f.isSigned then
    match h : Checksum.recoverSeed f.msgId (f.content f.isSigned) (f.checksum f.isSigned) with
    | none => f
    | some seed => { f.withoutSignature with seed := seed, seed_mem := Checksum.mem_of_recoverSeed h }
  else f

/-- The checksum of a frame always tells its seed. -/
theorem Frame.stripped_eq (f : Frame) : f.stripped = f.withoutSignature := by
  unfold stripped
  split
  · have hseed := Checksum.recoverSeed_seeded f.seed_mem (f.content f.isSigned)
    split
    · rename_i hnone
      exact absurd (hseed.symm.trans hnone) (by simp)
    · rename_i seed hsome
      obtain rfl := Option.some.inj (hseed.symm.trans hsome)
      rfl
  · rename_i hunsigned
    rw [withoutSignature_of_unsigned (by simpa using hunsigned)]

theorem Frame.plainCopy_withoutSignature (f : Frame) : f.withoutSignature.PlainCopy f where
  alone := parseDatagram_bytes _
  unsigned := rfl
  version := rfl
  msgId := rfl
  seq := rfl
  sysid := rfl
  compid := rfl
  payload := rfl
  same h := by rw [withoutSignature_of_unsigned h]

inductive Effect.IsFor (id : SlotId) : Effect → Prop where
  | logged (entry : LogEntry) : IsFor id (.logged entry)
  | queued (message : Bytes) : IsFor id (.queued id message)

theorem Effect.IsNote.isFor {e : Effect} (h : e.IsNote) (id : SlotId) : e.IsFor id := by
  cases e with
  | logged entry => exact .logged entry
  | opened | queued | released => exact h.elim

theorem Outboxes.foldl_applyAt_of_isFor {id slot : SlotId} (hne : slot ≠ id) {es : List Effect}
    (hes : ∀ e ∈ es, e.IsFor id) (capacity : Nat) (b : Option Outbox) : es.foldl (applyAt capacity slot) b = b := by
  induction es with
  | nil => rfl
  | cons e rest ih =>
    have hfirst : applyAt capacity slot b e = b := by
      cases hes e List.mem_cons_self with
      | logged entry => rfl
      | queued message => exact if_neg hne.symm
    rw [List.foldl_cons, hfirst]
    exact ih fun e' he' => hes e' (List.mem_cons_of_mem e he')

namespace Pair

/-! ## One frame -/

theorem forwarded_saveClock (p : Pair) (id : SlotId) (checked : Gate) (k : SigningKey) (es : List Effect) (f : Frame) :
    (p.enterGood id checked k es).saveClock.forwarded f = p.forwarded f := by
  have hslots : (p.enterGood id checked k es).saveClock.slots = p.slots.modify id (checkedSlot checked none) :=
    (booked_saveClock _).slots
  rw [← p.forwarded_checked id checked none f, forwarded, hslots]
  rfl

/-- A frame of an engineer is forwarded behind what is logged and told to the engineer, unless it is a rotation request
that is good. -/
theorem history_fromEngineer {p : Pair} {id : SlotId} {s : Slot} (hs : p.slots.find? id = some s) (m : Moment)
    (f : Frame) :
    ∃ es, (∀ e ∈ es, e.IsFor id) ∧
      ((p.fromEngineer m id f).history = p.forwarded f ++ (es ++ p.history) ∨
        (s.gate.judge f p.key).1.isGood = true ∧ f.msgId = MessageId.setupSigning ∧
          (p.fromEngineer m id f).history = es ++ p.history) := by
  cases hgood : (s.gate.judge f p.key).1.isGood with
  | false =>
    obtain ⟨note, es, hes, heq⟩ := fromEngineer_of_not_good hs m hgood
    refine ⟨es, ?_, .inl (by rw [heq])⟩
    intro e he
    rcases hes e he with hnote | ⟨message, rfl⟩
    · exact hnote.isFor id
    · exact .queued message
  | true =>
    obtain ⟨k, hk, _⟩ := Gate.signedUnder_of_judge hgood
    obtain ⟨t, ht⟩ := Verdict.isGood_iff.mp hgood
    obtain ⟨es, hes, heq⟩ := fromEngineer_of_good hs m hk ht
    let entered := p.enterGood id (s.gate.check f p.key).1 (k.observe t.toClock) es
    obtain ⟨es', hes', hsaved⟩ := entered.history_saveClock
    have hall (e : Effect) (he : e ∈ es' ++ es) : e.IsFor id := by
      rcases List.mem_append.mp he with he | he
      · rw [hes' e he]
        exact .logged _
      · rw [hes e he]
        exact .logged _
    have hhistory : entered.saveClock.history = (es' ++ es) ++ p.history := by
      rw [hsaved, List.append_assoc]
      rfl
    by_cases hsetup : f.msgId = MessageId.setupSigning
    · rw [if_pos hsetup] at heq
      obtain ⟨entry, hrotated⟩ :
          ∃ entry, (p.fromEngineer m id f).history = .logged entry :: entered.saveClock.history := by
        rw [heq]
        rcases entered.saveClock.rotateKey_cases m (SetupSigning.ofPayload f.payload) with ⟨_, hq⟩ | ⟨_, hq⟩
        · exact ⟨.keyNotStored, by rw [hq]⟩
        · exact ⟨.keyReplaced, by rw [hq]⟩
      refine ⟨.logged entry :: (es' ++ es), ?_, .inr ⟨rfl, hsetup, by rw [hrotated, hhistory]; rfl⟩⟩
      intro e he
      rcases List.mem_cons.mp he with rfl | he
      · exact .logged entry
      · exact hall e he
    · rw [if_neg hsetup] at heq
      refine ⟨es' ++ es, hall, .inl ?_⟩
      rw [heq, forward_eq, ← p.forwarded_saveClock id (s.gate.check f p.key).1 (k.observe t.toClock) es f, ← hhistory]

def Greets (p : Pair) (slot : SlotId) : Prop :=
  ∃ user, p.slots.user? = some user ∧ user.id = slot ∧ (user.state = .established ∨ user.state = .active)

theorem forwarded_cases (p : Pair) (f : Frame) :
    (∃ id, (∀ slot, p.Greets slot ↔ slot = id) ∧ p.forwarded f = [.queued id f.withoutSignature.bytes]) ∨
      (∀ slot, ¬p.Greets slot) ∧ p.forwarded f = [] := by
  cases huser : p.slots.user? with
  | none => exact .inr ⟨by simp [Greets, huser], by simp [forwarded, huser]⟩
  | some user =>
    have hgreets (slot : SlotId) : p.Greets slot ↔ slot = user.id ∧ user.isOpen = true := by
      constructor
      · rintro ⟨user', hsome, rfl, hstate⟩
        obtain rfl := Option.some.inj (huser.symm.trans hsome)
        exact ⟨rfl, by simpa [Slot.isOpen] using hstate⟩
      · rintro ⟨rfl, hopen⟩
        exact ⟨user, huser, rfl, by simpa [Slot.isOpen] using hopen⟩
    by_cases hopen : user.isOpen = true
    · exact .inl ⟨user.id, by simp [hgreets, hopen], by simp [forwarded, huser, hopen]⟩
    · exact .inr ⟨by simp [hgreets, hopen], by simp [forwarded, huser, hopen]⟩

theorem foldl_forwarded_of_greets {p : Pair} {slot : SlotId} (h : p.Greets slot) (f : Frame) (capacity : Nat)
    (b : Option Outbox) :
    (p.forwarded f).reverse.foldl (Outboxes.applyAt capacity slot) b = b.map (·.offer f.withoutSignature.bytes) := by
  rcases p.forwarded_cases f with ⟨id, hgreets, heq⟩ | ⟨hnone, _⟩
  · obtain rfl := (hgreets slot).mp h
    simp [heq, Outboxes.applyAt]
  · exact absurd h (hnone slot)

theorem foldl_forwarded_of_not_greets {p : Pair} {slot : SlotId} (h : ¬p.Greets slot) (f : Frame) (capacity : Nat)
    (b : Option Outbox) : (p.forwarded f).reverse.foldl (Outboxes.applyAt capacity slot) b = b := by
  rcases p.forwarded_cases f with ⟨id, hgreets, heq⟩ | ⟨_, heq⟩
  · have hne : id ≠ slot := fun hid => h ((hgreets slot).mpr hid.symm)
    simp [heq, Outboxes.applyAt, hne]
  · simp [heq]

theorem isSigned_of_good {g : Gate} {f : Frame} {key : Option SigningKey} (h : (g.judge f key).1.isGood = true) :
    f.isSigned = true := by
  obtain ⟨k, _, t, ht, _⟩ := Gate.signedUnder_of_judge h
  rw [Frame.isSigned, ht]
  rfl

theorem find?_fromEngineer {p : Pair} {id : SlotId} {s : Slot} (hs : p.slots.find? id = some s) (m : Moment) {f : Frame}
    (hplain : ¬(f.msgId = MessageId.setupSigning ∧ f.isSigned = true)) (o : Outboxes) (capacity : Nat) {slot : SlotId}
    (hne : slot ≠ id) :
    (o.applyEach capacity ((p.fromEngineer m id f).effectsSince p)).find? slot =
      (p.forwarded f).reverse.foldl (Outboxes.applyAt capacity slot) (o.find? slot) := by
  obtain ⟨es, hes, hhistory | ⟨hgood, hsetup, _⟩⟩ := history_fromEngineer hs m f
  · rw [← List.append_assoc] at hhistory
    rw [Outboxes.find?_applyEach, effectsSince_of_append hhistory, List.reverse_append, List.foldl_append,
      Outboxes.foldl_applyAt_of_isFor hne fun e he => hes e (List.mem_reverse.mp he)]
  · exact absurd ⟨hsetup, isSigned_of_good hgood⟩ hplain

end Pair

/-! ## Messages to one slot -/

def Effect.messagesTo (id : SlotId) (es : List Effect) : List Bytes :=
  es.filterMap fun
    | .queued slot message => if slot = id then some message else none
    | _ => none

theorem Effect.messagesTo_append (id : SlotId) (es es' : List Effect) :
    messagesTo id (es ++ es') = messagesTo id es ++ messagesTo id es' := List.filterMap_append

theorem Effect.messagesTo_of_isFor {id slot : SlotId} (hne : slot ≠ id) {es : List Effect}
    (hes : ∀ e ∈ es, e.IsFor id) : messagesTo slot es = [] := by
  rw [messagesTo, List.filterMap_eq_nil_iff]
  intro e he
  cases hes e he with
  | logged entry => rfl
  | queued message => exact if_neg hne.symm

namespace Pair

theorem sentTo_eq (p : Pair) (id : SlotId) : p.sentTo id = Effect.messagesTo id p.history.reverse :=
  List.filterMap_reverse.symm

theorem sentTo_of_append {p q : Pair} {es : List Effect} (h : q.history = es ++ p.history) (id : SlotId) :
    q.sentTo id = p.sentTo id ++ Effect.messagesTo id es.reverse := by
  rw [sentTo_eq, h, List.reverse_append, Effect.messagesTo_append, ← sentTo_eq]

theorem messagesTo_forwarded (p : Pair) (slot : SlotId) (f : Frame) :
    Effect.messagesTo slot (p.forwarded f).reverse = [] ∨
      Effect.messagesTo slot (p.forwarded f).reverse = [f.withoutSignature.bytes] := by
  rcases p.forwarded_cases f with ⟨id, _, heq⟩ | ⟨_, heq⟩
  · by_cases hid : id = slot
    · exact .inr (by simp [heq, Effect.messagesTo, hid])
    · exact .inl (by simp [heq, Effect.messagesTo, hid])
  · exact .inl (by simp [heq, Effect.messagesTo])

def arrivals (moves : List (Moment × Move)) : List Frame :=
  moves.filterMap fun b =>
    match b.2 with
    | .engineerFrame _ f => some f
    | _ => none

theorem arrivals_append (moves later : List (Moment × Move)) :
    arrivals (moves ++ later) = arrivals moves ++ arrivals later := List.filterMap_append

section WasUser

variable {c : Setup} {events : List (Moment × Event)} {id : SlotId} {moves : List (Moment × Move)} {b : Moment × Move}

theorem id_ne_of_engineer (huser : c.pair.WasUser (c.pair.trace events) id) (hfront : moves <+: c.pair.trace events)
    {s : Slot} (hs : s ∈ (c.pair.replay moves).slots.slots) (hrole : s.role = .engineer) : id ≠ s.id := by
  intro hid
  rw [role_of_wasUser huser hfront hs hid.symm] at hrole
  cases hrole

theorem messagesTo_of_origins (huser : c.pair.WasUser (c.pair.trace events) id)
    (hfront : moves <+: c.pair.trace events) (hb : ∀ slot f, b.2 ≠ .engineerFrame slot f) {es : List Effect}
    (hes : ∀ e ∈ es, Origin (c.pair.replay moves) b e) : Effect.messagesTo id es = [] := by
  rw [Effect.messagesTo, List.filterMap_eq_nil_iff]
  intro e he
  cases hes e he with
  | quiet h =>
    cases e with
    | queued slot message => exact h.elim
    | opened | released | logged => rfl
  | admission => rfl
  | user _ hs =>
    obtain ⟨⟨hmem, hrole⟩, _⟩ := mem_recipients.mp hs
    exact if_neg (id_ne_of_engineer huser hfront hmem hrole).symm
  | engineer hframe => exact absurd hframe (hb _ _)
  | rotation => rfl

/-- What a move queues to a user is the frame of an engineer that it handles, at most. -/
theorem sentTo_act (huser : c.pair.WasUser (c.pair.trace events) id) (hpart : moves ++ [b] <+: c.pair.trace events) :
    ∃ later, ((c.pair.replay moves).act b).sentTo id = (c.pair.replay moves).sentTo id ++ later ∧
      later.Sublist ((arrivals [b]).map (·.withoutSignature.bytes)) := by
  have hfront := (List.prefix_append moves [b]).trans hpart
  by_cases hframe : ∃ m slot f, b = (m, .engineerFrame slot f)
  · obtain ⟨m, slot, f, rfl⟩ := hframe
    obtain ⟨s, hs, hrole, _⟩ := slot_of_engineerFrame hpart
    obtain ⟨hmem, rfl⟩ := SlotTable.mem_of_find? hs
    have hne := id_ne_of_engineer huser hfront hmem hrole
    obtain ⟨es, hes, hhistory⟩ := history_fromEngineer hs m f
    have hnone := Effect.messagesTo_of_isFor hne fun e he => hes e (List.mem_reverse.mp he)
    rcases hhistory with hforwarded | ⟨_, _, hrotated⟩
    · rw [← List.append_assoc] at hforwarded
      refine ⟨_, sentTo_of_append hforwarded id, ?_⟩
      rw [List.reverse_append, Effect.messagesTo_append, hnone]
      rcases (c.pair.replay moves).messagesTo_forwarded id f with hsent | hsent
      · rw [hsent]
        exact List.nil_sublist _
      · rw [hsent]
        exact .refl _
    · refine ⟨_, sentTo_of_append hrotated id, ?_⟩
      rw [hnone]
      exact List.nil_sublist _
  · obtain ⟨es, hhistory, hes⟩ := (c.pair.replay moves).history_act b
    refine ⟨_, sentTo_of_append hhistory id, ?_⟩
    rw [messagesTo_of_origins huser hfront ?_ fun e he => hes e (List.mem_reverse.mp he)]
    · exact List.nil_sublist _
    · intro slot f hb
      exact hframe ⟨b.1, slot, f, Prod.ext rfl hb⟩

theorem sentTo_sublist (huser : c.pair.WasUser (c.pair.trace events) id) :
    ((c.pair.run events).sentTo id).Sublist ((arrivals (c.pair.trace events)).map (·.withoutSignature.bytes)) := by
  have hfront (moves : List (Moment × Move)) (h : moves <+: c.pair.trace events) :
      ((c.pair.replay moves).sentTo id).Sublist ((arrivals moves).map (·.withoutSignature.bytes)) := by
    induction moves using List.reverseRecOn with
    | nil => exact List.nil_sublist _
    | append_singleton moves b ih =>
      obtain ⟨later, hsent, hsub⟩ := sentTo_act huser h
      rw [replay_snoc, hsent, arrivals_append, List.map_append]
      exact (ih ((List.prefix_append moves [b]).trans h)).append hsub
  rw [← replay_trace]
  exact hfront _ (List.prefix_refl _)

end WasUser

end Pair

/-! ## What a peer takes -/

def Outbox.waiting : Option Outbox → List Bytes
  | none => []
  | some b => b.queue

namespace Outboxes

/-- An effect adds to an outbox what it queues to it, at most. -/
theorem waiting_applyAt (capacity : Nat) (id : SlotId) (b : Option Outbox) (e : Effect) :
    (Outbox.waiting (applyAt capacity id b e)).Sublist (Outbox.waiting b ++ Effect.messagesTo id [e]) := by
  cases b with
  | none =>
    have hnone : Outbox.waiting (applyAt capacity id none e) = [] := by
      cases e with
      | opened slot => by_cases hid : slot = id <;> simp [applyAt, hid, Outbox.waiting]
      | queued slot message => by_cases hid : slot = id <;> simp [applyAt, hid, Outbox.waiting]
      | released slot => by_cases hid : slot = id <;> simp [applyAt, hid, Outbox.waiting]
      | logged entry => rfl
    rw [hnone]
    exact List.nil_sublist _
  | some b =>
    cases e with
    | queued slot message =>
      by_cases hid : slot = id
      · by_cases hroom : b.hasRoom = true
        · simp [applyAt, hid, Outbox.waiting, Outbox.offer, hroom, Effect.messagesTo]
        · simp [applyAt, hid, Outbox.waiting, Outbox.offer, hroom, Effect.messagesTo]
      · simp [applyAt, hid, Outbox.waiting]
    | opened slot => exact List.sublist_append_left _ _
    | released slot => by_cases hid : slot = id <;> simp [applyAt, hid, Outbox.waiting, Outbox.finish]
    | logged entry => exact List.sublist_append_left _ _

theorem waiting_applyEach (capacity : Nat) (o : Outboxes) (es : List Effect) (id : SlotId) :
    (Outbox.waiting ((o.applyEach capacity es).find? id)).Sublist
      (Outbox.waiting (o.find? id) ++ Effect.messagesTo id es) := by
  rw [find?_applyEach]
  generalize o.find? id = b
  induction es generalizing b with
  | nil => exact List.sublist_append_left _ _
  | cons e rest ih =>
    have hfirst := (waiting_applyAt capacity id b e).append_right (Effect.messagesTo id rest)
    rw [List.foldl_cons, ← List.singleton_append, Effect.messagesTo_append, ← List.append_assoc]
    exact (ih _).trans hfirst

theorem take_fst (o : Outboxes) (id : SlotId) : (o.take id).1 = Outbox.waiting (o.find? id) := by
  unfold take
  cases o.find? id <;> rfl

end Outboxes

namespace Session

/-- The messages that the peer of a slot takes in a run. -/
def received (s : Session) (id : SlotId) : List Action → List Bytes
  | [] => []
  | a :: rest =>
    (match a with
      | .take slot => if slot = id then (s.step a).2 else []
      | _ => []) ++ (s.step a).1.received id rest

def waiting (s : Session) (id : SlotId) : List Bytes := Outbox.waiting (s.outboxes.find? id)

theorem waiting_happen (s : Session) (m : Moment) (e : Event) (capacity : Nat) (id : SlotId) :
    ∃ later, (s.happen m e capacity).pair.sentTo id = s.pair.sentTo id ++ later ∧
      ((s.happen m e capacity).waiting id).Sublist (s.waiting id ++ later) := by
  obtain ⟨es, hes⟩ := s.pair.history_replay (s.pair.moves m e)
  rw [Pair.replay_moves] at hes
  refine ⟨_, Pair.sentTo_of_append hes id, ?_⟩
  have heffects : s.effects m e = es.reverse := Pair.effectsSince_of_append hes
  rw [← heffects]
  exact s.outboxes.waiting_applyEach capacity _ id

theorem waiting_take (s : Session) (slot id : SlotId) :
    (s.step (.take slot)).1.waiting id = if slot = id then [] else s.waiting id := by
  have hfind := s.outboxes.find?_take id slot
  rw [waiting, step, hfind]
  split
  · cases s.outboxes.find? id <;> rfl
  · rfl

theorem waiting_abandon (s : Session) (slot id : SlotId) :
    (s.step (.abandon slot)).1.waiting id = if slot = id then [] else s.waiting id := by
  have hfind := s.outboxes.find?_modify id slot (·.abandon)
  rw [waiting, step, hfind]
  split
  · cases s.outboxes.find? id <;> rfl
  · rfl

/-- What has been taken and what waits are among what waited before and what was queued since, in this order. -/
theorem received_sublist (s : Session) (id : SlotId) (as : List Action) :
    ∃ later, (s.run as).1.pair.sentTo id = s.pair.sentTo id ++ later ∧
      (s.received id as ++ (s.run as).1.waiting id).Sublist (s.waiting id ++ later) := by
  induction as generalizing s with
  | nil => exact ⟨[], (List.append_nil _).symm, by rw [List.append_nil]; exact .refl _⟩
  | cons a rest ih =>
    cases a with
    | event m e capacity =>
      obtain ⟨later, hsent, hsub⟩ := s.waiting_happen m e capacity id
      obtain ⟨later', hsent', hsub'⟩ := ih (s.happen m e capacity)
      refine ⟨later ++ later', ?_, ?_⟩
      · rw [← List.append_assoc, ← hsent]
        exact hsent'
      · rw [← List.append_assoc]
        exact hsub'.trans (hsub.append_right later')
    | take slot =>
      obtain ⟨later, hsent, hsub⟩ := ih (s.step (.take slot)).1
      refine ⟨later, hsent, ?_⟩
      rw [waiting_take] at hsub
      rw [received, List.append_assoc]
      by_cases hid : slot = id
      · have htaken : (s.step (.take slot)).2 = s.waiting id := by rw [step, s.outboxes.take_fst, hid, waiting]
        simp only [if_pos hid] at hsub ⊢
        rw [htaken]
        exact hsub.append_left _
      · simp only [if_neg hid] at hsub ⊢
        exact hsub
    | abandon slot =>
      obtain ⟨later, hsent, hsub⟩ := ih (s.step (.abandon slot)).1
      refine ⟨later, hsent, hsub.trans (.append_right ?_ later)⟩
      rw [waiting_abandon]
      split
      · exact List.nil_sublist _
      · exact .refl _

theorem pair_run (s : Session) (as : List Action) : (s.run as).1.pair = s.pair.run (events as) := by
  induction as generalizing s with
  | nil => rfl
  | cons a rest ih =>
    cases a with
    | event m e capacity => exact ih (s.happen m e capacity)
    | take slot => exact ih (s.step (.take slot)).1
    | abandon slot => exact ih (s.step (.abandon slot)).1

end Session

namespace Pair

/-- While ids name the slots, as they do in every state that a pair reaches, a frame of an engineer goes to the user
alone, as one message, whatever the check says of it; a rotation request may be the exception.  A user that is there in
a run takes the messages of such frames, in order and each of them once at most. -/
theorem hands_over {p : Pair} (hwf : p.slots.WellFormed) {id : SlotId} {s : Slot} (hs : p.slots.find? id = some s)
    (hrole : s.role = .engineer) (m : Moment) {f : Frame}
    (hplain : ¬(f.msgId = MessageId.setupSigning ∧ f.isSigned = true)) (o : Outboxes) (capacity : Nat) (c : Setup)
    (as : List Session.Action) :
    f.stripped.PlainCopy f ∧
      (∀ slot, p.Greets slot → (o.applyEach capacity ((p.fromEngineer m id f).effectsSince p)).find? slot =
        (o.find? slot).map fun b => if b.hasRoom then { b with queue := b.queue ++ [f.stripped.bytes] } else b) ∧
      (∀ slot, slot ≠ id → ¬p.Greets slot →
        (o.applyEach capacity ((p.fromEngineer m id f).effectsSince p)).find? slot = o.find? slot) ∧
      ∀ user, c.pair.WasUser (c.pair.trace (Session.events as)) user →
        (Session.received ⟨c.pair, {}⟩ user as ++ (Session.run ⟨c.pair, {}⟩ as).1.waiting user).Sublist
          ((arrivals (c.pair.trace (Session.events as))).map (·.stripped.bytes)) := by
  rw [f.stripped_eq]
  refine ⟨f.plainCopy_withoutSignature, ?_, ?_, ?_⟩
  · intro slot hgreets
    have hne : slot ≠ id := by
      obtain ⟨user, huser, rfl, _⟩ := hgreets
      obtain ⟨hmem, huserRole⟩ := SlotTable.mem_of_user? huser
      obtain ⟨hsender, hid⟩ := SlotTable.mem_of_find? hs
      intro hsame
      rw [hwf.eq_of_id hmem hsender (hsame.trans hid.symm), hrole] at huserRole
      cases huserRole
    rw [find?_fromEngineer hs m hplain o capacity hne, foldl_forwarded_of_greets hgreets]
    rfl
  · intro slot hne hnot
    rw [find?_fromEngineer hs m hplain o capacity hne, foldl_forwarded_of_not_greets hnot]
  · intro user huser
    obtain ⟨later, hsent, hsub⟩ := Session.received_sublist ⟨c.pair, {}⟩ user as
    have hlater : later = (c.pair.run (Session.events as)).sentTo user := by
      rw [Session.pair_run] at hsent
      exact hsent.symm
    rw [hlater] at hsub
    simp only [Frame.stripped_eq]
    exact hsub.trans (sentTo_sublist huser)

def oneEach : Pair :=
  { (Setup.offline none).pair with
    slots := ⟨1, .rejectNew, [⟨1, .user, .tcp, "user", .established, .new, 0, 0, none⟩,
      ⟨2, .engineer, .tcp, "engineer", .active, .new, 0, 0, none⟩], 3⟩ }

theorem wellFormed_oneEach : oneEach.slots.WellFormed where
  nodup := by decide
  lt_next := by decide

def signedHeartbeat : Frame := heartbeat.sign version_heartbeat ⟨default, 1, 0⟩

def oneEachRun : List Session.Action :=
  [.event ⟨0, 0⟩ (.connect .user .tcp "user") 4, .event ⟨1, 0⟩ (.connect .engineer .tcp "engineer") 4,
    .event ⟨2, 0⟩ (.frames 2 [signedHeartbeat]) 4, .take 1]

theorem wasUser_oneEachRun :
    (Setup.offline none).pair.WasUser ((Setup.offline none).pair.trace (Session.events oneEachRun)) 1 :=
  ⟨[(⟨0, 0⟩, .connect .user .tcp "user")], ⟨1, .user, .tcp, "user", .established, .new, 0, 0, none⟩, ⟨_, rfl⟩,
    List.mem_cons_self, rfl, rfl⟩

theorem hands_over_oneEach :
    oneEach.slots.WellFormed ∧
      oneEach.slots.find? 2 = some ⟨2, .engineer, .tcp, "engineer", .active, .new, 0, 0, none⟩ ∧
      ¬(signedHeartbeat.msgId = MessageId.setupSigning ∧ signedHeartbeat.isSigned = true) ∧
      (Outboxes.applyEach 4 ⟨[(1, { capacity := 4 })]⟩
        ((oneEach.fromEngineer ⟨2, 0⟩ 2 signedHeartbeat).effectsSince oneEach)).find? 1 =
          some { capacity := 4, queue := [signedHeartbeat.stripped.bytes] } ∧
      (Session.received ⟨(Setup.offline none).pair, {}⟩ 1 oneEachRun).Sublist [signedHeartbeat.stripped.bytes] := by
  have hplain : ¬(signedHeartbeat.msgId = MessageId.setupSigning ∧ signedHeartbeat.isSigned = true) :=
    fun h => absurd h.1 (by decide)
  have hs : oneEach.slots.find? 2 = some ⟨2, .engineer, .tcp, "engineer", .active, .new, 0, 0, none⟩ := rfl
  have hgreets : oneEach.Greets 1 := ⟨_, rfl, rfl, .inl rfl⟩
  obtain ⟨_, hgreeted, _, hruns⟩ := hands_over wellFormed_oneEach hs rfl ⟨2, 0⟩ hplain
    ⟨[(1, { capacity := 4 })]⟩ 4 (Setup.offline none) oneEachRun
  refine ⟨wellFormed_oneEach, hs, hplain, hgreeted 1 hgreets, ?_⟩
  exact (List.sublist_append_left _ _).trans (hruns 1 wasUser_oneEachRun)

end Pair

end GatedRelay
