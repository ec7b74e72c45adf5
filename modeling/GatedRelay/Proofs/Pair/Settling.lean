import GatedRelay.Proofs.Pair.Persistence
import GatedRelay.Proofs.Slot.Shares

/-!
# What is entered in the record

A slot that leaves the table is released and its share entered in the record of the pair.  Of every move this is said at
once: which shares are due, that they are entered if no write is dropped, and that what was in the table before is there
afterwards or due.
-/

set_option autoImplicit false

namespace GatedRelay

def Effect.releases (es : List Effect) : List SlotId :=
  es.filterMap fun
    | .released id => some id
    | _ => none

theorem Effect.releases_append (es es' : List Effect) :
    Effect.releases (es ++ es') = Effect.releases es ++ Effect.releases es' := List.filterMap_append

theorem Effect.releases_eq_nil {es : List Effect} (h : ∀ e ∈ es, ∀ id, e ≠ .released id) :
    Effect.releases es = [] := by
  apply List.filterMap_eq_nil_iff.mpr
  intro e he
  cases e with
  | released id => exact absurd rfl (h _ he id)
  | opened | queued | logged => rfl

namespace Pair

def record? (p : Pair) : Option Credential := p.store.database.entries.fetch? p.recordPort

def DropsWrite (p : Pair) : Prop := Effect.logged .writeDropped ∈ p.history

/-- The slots with these shares are released, and unless a write is dropped the shares are entered in the record. -/
structure Settles (p q : Pair) (due : List Share) : Prop where
  port : q.recordPort = p.recordPort
  history : ∃ es, q.history = es ++ p.history ∧ Effect.releases es = (due.map Share.id).reverse
  idle : p.Idle → q.Idle
  tallies : p.Idle → ¬q.DropsWrite → ∀ r, p.record? = some r →
    ∃ r', q.record? = some r' ∧ r'.tallies = r.tallies.enterEach due

theorem Settles.trans {p q r : Pair} {due due' : List Share} (h : p.Settles q due) (h' : q.Settles r due') :
    p.Settles r (due ++ due') where
  port := h'.port.trans h.port
  history := by
    obtain ⟨es, heq, hes⟩ := h.history
    obtain ⟨es', heq', hes'⟩ := h'.history
    refine ⟨es' ++ es, by rw [heq', heq, List.append_assoc], ?_⟩
    rw [Effect.releases_append, hes, hes', List.map_append, List.reverse_append]
  idle hp := h'.idle (h.idle hp)
  tallies := by
    intro hp hkept x hx
    have hbefore : ¬q.DropsWrite := by
      obtain ⟨es', heq', _⟩ := h'.history
      intro hdropped
      rw [DropsWrite, heq'] at hkept
      exact hkept (List.mem_append_right es' hdropped)
    obtain ⟨y, hy, hentered⟩ := h.tallies hp hbefore x hx
    obtain ⟨z, hz, hentered'⟩ := h'.tallies (h.idle hp) hkept y hy
    exact ⟨z, hz, by rw [hentered', hentered, Tallies.enterEach_append]⟩

theorem Settles.then {p q r : Pair} {due : List Share} (h : p.Settles q due) (h' : q.Settles r []) : p.Settles r due := by
  have hboth := h.trans h'
  rwa [List.append_nil] at hboth

theorem settles_of_store {p q : Pair} (hport : q.recordPort = p.recordPort) (hstore : q.store = p.store)
    (hhistory : ∃ es, q.history = es ++ p.history ∧ ∀ e ∈ es, ∀ id, e ≠ .released id) : p.Settles q [] where
  port := hport
  history := by
    obtain ⟨es, heq, hes⟩ := hhistory
    exact ⟨es, heq, Effect.releases_eq_nil hes⟩
  idle hp := by rwa [Idle, hstore]
  tallies _ _ r hr := ⟨r, by rwa [record?, hstore, hport], rfl⟩

theorem settles_of_history {p q : Pair} (hport : q.recordPort = p.recordPort) (hstore : q.store = p.store)
    (hhistory : q.history = p.history) : p.Settles q [] :=
  settles_of_store hport hstore ⟨[], hhistory, by simp⟩

/-- A write that leaves the tallies alone may fail. -/
theorem settles_of_write {p q : Pair} (hport : q.recordPort = p.recordPort) {request : Request}
    {change : Credential → Credential} (hrequest : request.Updates p.recordPort change)
    (hstore : q.store = p.store.post request)
    (hchange : ∀ r, (change r).port2 = r.port2 ∧ (change r).magic = r.magic ∧ (change r).name = r.name ∧
      (change r).tallies = r.tallies)
    (hhistory : ∃ es, q.history = es ++ p.history ∧ ∀ e ∈ es, ∀ id, e ≠ .released id) : p.Settles q [] where
  port := hport
  history := by
    obtain ⟨es, heq, hes⟩ := hhistory
    exact ⟨es, heq, Effect.releases_eq_nil hes⟩
  idle hp := by
    rw [Idle, hstore]
    exact Service.saved_post hp request
  tallies := by
    intro _ _ r hr
    by_cases hcan : p.store.CanChange p.recordPort
    · obtain ⟨hport2, hmagic, hname, htallies⟩ := hchange r
      have hwritten := (Service.post_of_canChange hcan hrequest hr hport2 hmagic hname).2
      exact ⟨change r, by rwa [record?, hstore, hport], htallies⟩
    · have hsame := Service.post_of_not_canChange hcan hrequest
      exact ⟨r, by rwa [record?, hstore, hport, hsame], rfl⟩

theorem settles_saveClock (p : Pair) : p.Settles p.saveClock [] := by
  rcases p.saveClock_cases with ⟨heq, _⟩ | ⟨k, es, _, _, hes, heq⟩
  · rw [heq]
    exact settles_of_history rfl rfl rfl
  · rw [heq]
    refine settles_of_write rfl (updates_advanceTimestamp _ k.clock) rfl (fun r => ⟨rfl, rfl, rfl, rfl⟩) ⟨es, rfl, ?_⟩
    intro e he id
    rw [hes e he]
    exact Effect.noConfusion

theorem settles_rotateKey (p : Pair) (m : Moment) (request : SetupSigning) : p.Settles (p.rotateKey m request) [] := by
  have hupdates := updates_setSigningKey p.recordPort request.secret request.initialTimestamp
  have hstore := p.store_rotateKey m request
  rcases p.rotateKey_cases m request with ⟨_, heq⟩ | ⟨_, heq⟩
  · refine settles_of_write ?_ hupdates hstore (fun r => ⟨rfl, rfl, rfl, rfl⟩) ⟨[.logged .keyNotStored], ?_, by simp⟩
    · rw [heq]
      rfl
    · rw [heq]
      rfl
  · refine settles_of_write ?_ hupdates hstore (fun r => ⟨rfl, rfl, rfl, rfl⟩) ⟨[.logged .keyReplaced], ?_, by simp⟩
    · rw [heq]
      rfl
    · rw [heq]
      rfl

/-! ## Closed slots -/

def released (p : Pair) (s : Slot) : Pair := (p.emit (.released s.id)).log (.closed s.role s.transport)

theorem settles_recordSession {p : Pair} {s : Slot} {count1 count2 : UInt32} {newConnection : Bool}
    (hentered : ∀ r : Credential, (r.addSession count1 count2 newConnection).tallies = r.tallies.enter s.share) :
    p.Settles ((p.released s).post (.recordSession p.recordPort count1 count2 newConnection)) [s.share] := by
  let request : Request := .recordSession p.recordPort count1 count2 newConnection
  obtain ⟨es, hes, heq⟩ := (p.released s).post_eq request
  have hstore : ((p.released s).post request).store = p.store.post request := by
    rw [heq]
    rfl
  have hport : ((p.released s).post request).recordPort = p.recordPort := by
    rw [heq]
    rfl
  refine ⟨hport, ⟨es ++ [.logged (.closed s.role s.transport), .released s.id], ?_, ?_⟩, ?_, ?_⟩
  · rw [heq, List.append_assoc]
    rfl
  · rw [Effect.releases_append, Effect.releases_eq_nil]
    · rfl
    · intro e he id
      rw [hes e he]
      exact Effect.noConfusion
  · intro hp
    rw [Idle, hstore]
    exact Service.saved_post hp request
  · intro hp hkept r hr
    have hrunning : p.store.running = true := by
      by_contra hstopped
      -- Without a running store the write is dropped, and that is logged.
      have hpost : (p.released s).post request = (p.released s).log .writeDropped := if_neg hstopped
      apply hkept
      rw [DropsWrite, hpost]
      exact List.mem_cons_self
    have hcan : p.store.CanChange p.recordPort := ⟨hrunning, hp, Option.isSome_iff_exists.mpr ⟨r, hr⟩⟩
    have hupdates := updates_recordSession p.recordPort count1 count2 newConnection
    have hwritten := (Service.post_of_canChange hcan hupdates hr rfl rfl rfl).2
    exact ⟨_, by rwa [record?, hstore, hport], hentered r⟩

theorem finishSlot_user (p : Pair) {s : Slot} (h : s.role = .user) :
    p.finishSlot s = (p.released s).post (.recordSession p.recordPort s.messages 0 true) := by
  unfold finishSlot
  rw [h]
  simp only [released, h]
  rfl

theorem finishSlot_engineer (p : Pair) {s : Slot} (h : s.role = .engineer) :
    ∃ posted : Pair, posted = (p.released s).post (.recordSession p.recordPort 0 s.messages false) ∧
      p.finishSlot s = if posted.slots.engineerCount = 0 then posted.saveClock else posted := by
  refine ⟨_, rfl, ?_⟩
  unfold finishSlot
  rw [h]
  simp only [released, h]
  rfl

theorem settles_finishSlot (p : Pair) (s : Slot) : p.Settles (p.finishSlot s) [s.share] := by
  cases hrole : s.role with
  | user =>
    rw [p.finishSlot_user hrole]
    apply settles_recordSession
    intro r
    simp [Credential.tallies, Credential.addSession, Tallies.enter, Slot.share, hrole]
  | engineer =>
    obtain ⟨posted, hposted, heq⟩ := p.finishSlot_engineer hrole
    have hsettles : p.Settles posted [s.share] := by
      rw [hposted]
      apply settles_recordSession
      intro r
      simp [Credential.tallies, Credential.addSession, Tallies.enter, Slot.share, hrole]
    rw [heq]
    split
    · exact hsettles.then (settles_saveClock posted)
    · exact hsettles

theorem settles_closeSlot {p : Pair} (h : p.slots.WellFormed) (id : SlotId) :
    ∃ due, p.Settles (p.closeSlot id) due ∧ ((p.closeSlot id).slots.shares ++ due).Perm p.slots.shares := by
  have hshares := h.shares_close id
  unfold closeSlot
  split
  · exact ⟨[], settles_of_history rfl rfl rfl, by simp⟩
  · rename_i slots s heq
    rw [heq] at hshares
    have hemptied : p.Settles { p with slots := slots } [] := settles_of_history rfl rfl rfl
    have hfinished := settles_finishSlot { p with slots := slots } s
    refine ⟨[s.share], hemptied.trans hfinished, ?_⟩
    rw [(booked_finishSlot _ s).slots]
    exact hshares

theorem wellFormed_closeSlot {p : Pair} (h : p.slots.WellFormed) (id : SlotId) :
    (p.closeSlot id).slots.WellFormed := by
  rw [(p.booked_closeSlot id).slots]
  exact h.within (SlotTable.within_without _ [id])

theorem settles_closeSlots {p : Pair} (h : p.slots.WellFormed) (ids : List SlotId) :
    ∃ due, p.Settles (p.closeSlots ids) due ∧ ((p.closeSlots ids).slots.shares ++ due).Perm p.slots.shares := by
  induction ids generalizing p with
  | nil => exact ⟨[], settles_of_history rfl rfl rfl, by simp [closeSlots]⟩
  | cons id rest ih =>
    obtain ⟨due, hsettles, hshares⟩ := settles_closeSlot h id
    obtain ⟨later, hlater, hrest⟩ := ih (wellFormed_closeSlot h id)
    refine ⟨due ++ later, hsettles.trans hlater, ?_⟩
    have hparts := (hrest.append_right due).trans hshares
    rw [List.append_assoc] at hparts
    exact (List.perm_append_comm.append_left _).trans hparts

theorem settles_finishEach (p : Pair) (closed : List Slot) :
    p.Settles (closed.foldl finishSlot p) (closed.map Slot.share) := by
  induction closed generalizing p with
  | nil => exact settles_of_history rfl rfl rfl
  | cons s rest ih => exact (p.settles_finishSlot s).trans (ih (p.finishSlot s))

theorem settles_shutdown {p : Pair} (h : p.slots.WellFormed) :
    ∃ due, p.Settles p.shutdown due ∧ (p.shutdown.slots.shares ++ due).Perm p.slots.shares := by
  let emptied : Pair := { p with slots := (p.slots.closeEach p.slots.ids).1 }
  let closed := (p.slots.closeEach p.slots.ids).2
  have hemptied : p.Settles emptied [] := settles_of_history rfl rfl rfl
  have hclosed := hemptied.trans (emptied.settles_finishEach closed)
  have hsaved := hclosed.then (settles_saveClock (closed.foldl finishSlot emptied))
  refine ⟨closed.map Slot.share, hsaved.then (settles_of_history rfl rfl rfl), ?_⟩
  have hslots : p.shutdown.slots = (p.slots.closeEach p.slots.ids).1 := by
    rw [p.booked_shutdown.slots, SlotTable.closeEach_fst]
  rw [hslots]
  exact h.shares_closeEach p.slots.ids

theorem settles_sweep {p : Pair} (h : p.slots.WellFormed) (m : Moment) :
    ∃ due, p.Settles (p.sweep m) due ∧ ((p.sweep m).slots.shares ++ due).Perm p.slots.shares := by
  obtain ⟨due, hsettles, hshares⟩ := settles_closeSlots h (p.slots.expired m.now p.idleTimeout)
  unfold sweep
  simp only
  split
  · exact ⟨due, hsettles.then (settles_of_history rfl rfl rfl), hshares⟩
  · exact ⟨due, hsettles, hshares⟩

/-! ## Frames -/

theorem settles_forward (p : Pair) (f : Frame) : p.Settles (p.forward f) [] := by
  rw [forward_eq]
  refine settles_of_store rfl rfl ⟨p.forwarded f, rfl, ?_⟩
  intro e he id
  obtain ⟨user, _, _, rfl⟩ := mem_forwarded.mp he
  exact Effect.noConfusion

theorem settles_fromUser (p : Pair) (f : Frame) : p.Settles (p.fromUser f) [] := by
  rw [fromUser_eq]
  refine settles_of_store rfl rfl ⟨_, rfl, ?_⟩
  intro e he id
  rw [List.mem_reverse] at he
  obtain ⟨s, _, rfl⟩ := List.mem_map.mp he
  exact Effect.noConfusion

theorem settles_fromEngineer (p : Pair) (m : Moment) (id : SlotId) (f : Frame) :
    p.Settles (p.fromEngineer m id f) [] := by
  cases hs : p.slots.find? id with
  | none =>
    simp only [fromEngineer, hs]
    exact settles_of_history rfl rfl rfl
  | some s =>
    cases hgood : (s.gate.judge f p.key).1.isGood with
    | false =>
      obtain ⟨note, es, hes, heq⟩ := fromEngineer_of_not_good hs m hgood
      rw [heq]
      refine settles_of_store rfl rfl ⟨p.forwarded f ++ es, by rw [List.append_assoc], ?_⟩
      intro e he released hreleased
      subst hreleased
      rcases List.mem_append.mp he with he | he
      · obtain ⟨_, _, _, hqueued⟩ := mem_forwarded.mp he
        cases hqueued
      · rcases hes _ he with hnote | ⟨message, hqueued⟩
        · exact hnote
        · cases hqueued
    | true =>
      obtain ⟨k, hk, _⟩ := Gate.signedUnder_of_judge hgood
      obtain ⟨t, ht⟩ := Verdict.isGood_iff.mp hgood
      obtain ⟨es, hes, heq⟩ := fromEngineer_of_good hs m hk ht
      let entered := p.enterGood id (s.gate.check f p.key).1 (k.observe t.toClock) es
      have hentered : p.Settles entered [] := by
        refine settles_of_store rfl rfl ⟨es, rfl, ?_⟩
        intro e he released
        rw [hes e he]
        exact Effect.noConfusion
      have hsaved := hentered.then entered.settles_saveClock
      rw [heq]
      split
      · exact hsaved.then (settles_rotateKey _ m _)
      · exact hsaved.then (settles_forward _ f)

theorem shares_engineerFrame (p : Pair) (m : Moment) (id : SlotId) (f : Frame) :
    (p.fromEngineer m id f).slots.shares = p.slots.shares := by
  cases hs : p.slots.find? id with
  | none => simp only [fromEngineer, hs]
  | some s =>
    obtain ⟨note, _, _, _, ⟨heq, _⟩ | ⟨heq, _⟩⟩ := fromEngineer_cases hs m f
    · rw [heq]
      exact SlotTable.shares_modify fun _ => rfl
    · rw [heq, SlotTable.shares_resetGates]
      exact SlotTable.shares_modify fun _ => rfl

/-! ## Admissions -/

theorem settles_reloadKey (p : Pair) (m : Moment) : p.Settles (p.reloadKey m) [] := by
  unfold reloadKey
  split
  · exact settles_of_store rfl rfl ⟨[.logged .keyNotLoaded], rfl, by simp⟩
  · exact settles_of_history rfl rfl rfl

theorem settles_logConnected (p : Pair) (role : Role) (transport : Transport) (peer : Peer) :
    p.Settles (p.logConnected role transport peer) [] := by
  unfold logConnected
  split
  · exact settles_of_history rfl rfl rfl
  · exact settles_of_store rfl rfl ⟨[.logged (.connected role transport peer)], rfl, by simp⟩

theorem settles_logRefusal (p : Pair) (refusal : Refusal) (transport : Transport) (peer : Peer) :
    p.Settles (p.logRefusal refusal transport peer) [] := by
  unfold logRefusal
  split
  · exact settles_of_history rfl rfl rfl
  · exact settles_of_store rfl rfl ⟨[.logged (.refused refusal transport)], rfl, by simp⟩

theorem settles_connect {p : Pair} (h : p.slots.WellFormed) (m : Moment) (role : Role) (transport : Transport)
    (peer : Peer) :
    ∃ due, p.Settles (p.connect m role transport peer).1 due ∧
      ((p.connect m role transport peer).1.slots.shares ++ due).Perm
        (p.slots.shares ++ (p.connect m role transport peer).2.toList.map (⟨·, role, 0⟩)) := by
  cases haccept : p.slots.accept role transport peer m.now with
  | error refusal =>
    rw [connect_of_refused haccept]
    refine ⟨[], p.settles_logRefusal refusal transport peer, ?_⟩
    rw [(p.booked_logRefusal refusal transport peer).slots]
    exact .refl _
  | ok a =>
    obtain ⟨finished, hcases, hconnect⟩ := connect_of_accept haccept
    have hshares := h.shares_accept haccept
    have hopened : p.Settles (p.opened a) [] := settles_of_store rfl rfl ⟨[.opened a.id], rfl, by simp⟩
    have hfinished : p.Settles finished (a.replaced.toList.map Slot.share) ∧ finished.slots = a.table := by
      rcases hcases with ⟨hnone, rfl⟩ | ⟨s, hs, rfl⟩
      · rw [hnone]
        exact ⟨hopened, rfl⟩
      · rw [hs]
        exact ⟨hopened.trans (settles_finishSlot _ s), (booked_finishSlot _ s).slots⟩
    have hloaded (q : Pair) (hq : finished.Settles q []) (hslots : q.slots = finished.slots) :
        p.Settles (q.logConnected role transport peer) (a.replaced.toList.map Slot.share) ∧
          (q.logConnected role transport peer).slots = a.table :=
      ⟨(hfinished.1.then hq).then (q.settles_logConnected role transport peer),
        (q.booked_logConnected role transport peer).slots.trans (hslots.trans hfinished.2)⟩
    rw [hconnect]
    refine ⟨a.replaced.toList.map Slot.share, ?_⟩
    split
    · obtain ⟨key, hkey⟩ := finished.booked_reloadKey m
      obtain ⟨hsettles, hslots⟩ := hloaded _ (finished.settles_reloadKey m) hkey.slots
      exact ⟨hsettles, by rw [hslots]; exact hshares⟩
    · obtain ⟨hsettles, hslots⟩ := hloaded finished (settles_of_history rfl rfl rfl) rfl
      exact ⟨hsettles, by rw [hslots]; exact hshares⟩

theorem settles_established (p : Pair) (m : Moment) (id : SlotId) : p.Settles (p.established m id) [] := by
  unfold established
  split
  · exact settles_of_history rfl rfl rfl
  · rename_i s _
    split
    · exact settles_of_store rfl rfl ⟨[.logged (.connected s.role s.transport s.peer)], rfl, by simp⟩
    · exact settles_of_history rfl rfl rfl

/-! ## Moves -/

def admission (p : Pair) (b : Moment × Move) : List (SlotId × Role) :=
  match b.2 with
  | .connect role transport peer => (p.connect b.1 role transport peer).2.toList.map (·, role)
  | _ => []

def intake (p : Pair) (b : Moment × Move) (id : SlotId) : Nat :=
  match b.2 with
  | .arrival slot count => if slot = id ∧ (p.slots.find? id).isSome then count else 0
  | _ => 0

/-- The shares in the table before a move, with what it brings. -/
def sharesWith (p : Pair) (b : Moment × Move) : List Share :=
  p.slots.shares.map fun x => x.count (p.intake b x.id)

theorem sharesWith_of_intake {p : Pair} {b : Moment × Move} (h : ∀ id, p.intake b id = 0) :
    p.sharesWith b = p.slots.shares := by
  simp [sharesWith, h]

theorem share_received (s : Slot) (now count : Nat) : (received s now count).share = s.share.count count := by
  have hfirst : (if s.state = .new then s.advance .established else s).share = s.share := by
    split
    · exact s.share_advance .established
    · rfl
  have hsecond : (if count = 0 then (if s.state = .new then s.advance .established else s)
      else (if s.state = .new then s.advance .established else s).advance .active).share = s.share := by
    split
    · exact hfirst
    · rw [Slot.share_advance, hfirst]
  exact congrArg (Share.count · count) hsecond

theorem shares_arrival (p : Pair) (m : Moment) (id : SlotId) (count : Nat) :
    (p.act (m, .arrival id count)).slots.shares = p.sharesWith (m, .arrival id count) := by
  simp only [act, SlotTable.modify, SlotTable.shares, sharesWith, List.map_map]
  apply List.map_congr_left
  intro s hs
  have hfound : s.id = id → (p.slots.find? id).isSome := by
    rintro rfl
    exact List.find?_isSome.mpr ⟨s, hs, decide_eq_true rfl⟩
  by_cases hid : s.id = id
  · subst hid
    have hintake : p.intake (m, .arrival s.id count) s.share.id = count := if_pos ⟨rfl, hfound rfl⟩
    simp only [Function.comp_apply, if_pos, share_received, hintake]
  · have hintake : p.intake (m, .arrival id count) s.share.id = 0 := if_neg fun h => hid h.1.symm
    simp only [Function.comp_apply, if_neg hid, hintake, Share.count_zero]

/-- A move makes shares due and enters them, and what was in the table, what the move brings and whom it admits is in the
table afterwards or due.  Of changes that others make to the store something has to be known. -/
theorem settles_act {p : Pair} (h : p.slots.WellFormed) (b : Moment × Move)
    (hothers : ∀ change, b.2 = .storeChange change → p.Settles (p.act b) []) :
    ∃ due, p.Settles (p.act b) due ∧
      ((p.act b).slots.shares ++ due).Perm (p.sharesWith b ++ (p.admission b).map fun a => ⟨a.1, a.2, 0⟩) := by
  obtain ⟨m, move⟩ := b
  have hplain (hintake : ∀ id, p.intake (m, move) id = 0) (hadmission : p.admission (m, move) = [])
      (hclosed : ∃ due, p.Settles (p.act (m, move)) due ∧
        ((p.act (m, move)).slots.shares ++ due).Perm p.slots.shares) :
      ∃ due, p.Settles (p.act (m, move)) due ∧ ((p.act (m, move)).slots.shares ++ due).Perm
        (p.sharesWith (m, move) ++ (p.admission (m, move)).map fun a => ⟨a.1, a.2, 0⟩) := by
    rw [sharesWith_of_intake hintake, hadmission, List.map_nil, List.append_nil]
    exact hclosed
  have hkept (hsettles : p.Settles (p.act (m, move)) [])
      (hshares : (p.act (m, move)).slots.shares = p.slots.shares) :
      ∃ due, p.Settles (p.act (m, move)) due ∧ ((p.act (m, move)).slots.shares ++ due).Perm p.slots.shares :=
    ⟨[], hsettles, by rw [hshares, List.append_nil]⟩
  cases move with
  | connect role transport peer =>
    obtain ⟨due, hsettles, hshares⟩ := settles_connect h m role transport peer
    refine ⟨due, hsettles, ?_⟩
    rw [sharesWith_of_intake fun _ => rfl, admission, List.map_map]
    exact hshares
  | refuse peer => exact hplain (fun _ => rfl) rfl (hkept (settles_of_history rfl rfl rfl) rfl)
  | welcome peer => exact hplain (fun _ => rfl) rfl (hkept (settles_of_history rfl rfl rfl) rfl)
  | established id =>
    refine hplain (fun _ => rfl) rfl (hkept (p.settles_established m id) ?_)
    rcases p.booked_established m id with hq | hq
    · rw [act, hq.slots]
    · rw [act, hq.slots]
      exact SlotTable.shares_modify fun s => by rw [Slot.share_touch, Slot.share_advance]
  | arrival id count =>
    refine ⟨[], settles_of_history rfl rfl rfl, ?_⟩
    rw [shares_arrival, List.append_nil]
    exact (List.append_nil _).symm ▸ .refl _
  | userFrame f =>
    refine hplain (fun _ => rfl) rfl (hkept (p.settles_fromUser f) ?_)
    simp only [act, fromUser_eq]
  | engineerFrame id f =>
    refine hplain (fun _ => rfl) rfl (hkept (p.settles_fromEngineer m id f) ?_)
    exact p.shares_engineerFrame m id f
  | disconnected id => exact hplain (fun _ => rfl) rfl (settles_closeSlot h id)
  | sweep => exact hplain (fun _ => rfl) rfl (settles_sweep h m)
  | quit => exact hplain (fun _ => rfl) rfl (settles_shutdown h)
  | storeChange change => exact hplain (fun _ => rfl) rfl (hkept (hothers change rfl) rfl)

end Pair

end GatedRelay
