import GatedRelay.Proofs.Frame.StatusText
import GatedRelay.Proofs.Pair.Gating
import GatedRelay.Proofs.Pair.Handover

/-!
# Notices to engineers

An engineer is told what is wrong with its frames by status texts, one at a time.  When it was told last is kept in its
slot and survives rotations of the key, so it is the time of the last notice of the whole run.  No notice goes to an
engineer that is vouched for, and each names the source of the latest heartbeat of a user, whatever has become of the
user since.
-/

set_option autoImplicit false

namespace GatedRelay

/-! ## What a notice says -/

theorem Verdict.fits_notice {v : Verdict} {text : String} (h : v.notice? = some text) :
    '\x00' ∉ text.toList ∧ (Utf8.encode text).length ≤ 50 := by
  cases v with
  | good => cases h
  | noKey | unsigned =>
    cases h
    decide
  | rejected fault =>
    cases fault with
    | badSignature | replay | oldTimestamp =>
      cases h
      decide

namespace Pair

structure Tells (source : UInt8 × UInt8) (v : Verdict) (g : Frame) : Prop where
  alone : parseDatagram g.bytes = [g]
  unsigned : g.isSigned = false
  msgId : g.msgId = MessageId.statusText
  text : StatusText.text? g = v.notice?
  source : (g.header.sysid, g.header.compid) = source

theorem tells_notice {v : Verdict} (h : v.isGood = false) (source : UInt8 × UInt8) :
    Tells source v (notice source v) where
  alone := parseDatagram_bytes _
  unsigned := rfl
  msgId := rfl
  text := by
    obtain ⟨text, htext⟩ : ∃ text, v.notice? = some text := by
      cases v with
      | good => cases h
      | noKey | unsigned => exact ⟨_, rfl⟩
      | rejected fault => cases fault <;> exact ⟨_, rfl⟩
    obtain ⟨hzero, hfits⟩ := Verdict.fits_notice htext
    rw [notice, htext]
    exact StatusText.text?_frame _ _ _ hzero hfits
  source := rfl

/-! ## What a frame is answered with -/

theorem messagesTo_eq_nil {id : SlotId} {es : List Effect} (h : ∀ message, .queued id message ∉ es) :
    Effect.messagesTo id es = [] := by
  rw [Effect.messagesTo, List.filterMap_eq_nil_iff]
  intro e he
  cases e with
  | queued slot message =>
    apply if_neg
    rintro rfl
    exact h message he
  | opened | released | logged => rfl

theorem fromEngineer_answer {p : Pair} {id : SlotId} {s : Slot} (hs : p.slots.find? id = some s) (m : Moment)
    (f : Frame) :
    ∃ notes later, (∀ e ∈ notes, e.IsNote) ∧
      (∀ slot message, .queued slot message ∈ later → message = f.withoutSignature.bytes ∧
        ∃ user ∈ p.slots.slots, user.id = slot ∧ user.role = .user) ∧
      (p.fromEngineer m id f).history =
        later ++ (((p.answer m s f).map fun g => Effect.queued id g.bytes).toList ++ (notes ++ p.history)) ∧
      ∃ t, t = p.slots.modify id
          (checkedSlot (s.gate.check f p.key).1 (if p.Grants m s f then some m.now else none)) ∧
        ((p.fromEngineer m id f).slots = t ∨ (p.fromEngineer m id f).slots = t.resetGates) := by
  obtain ⟨notes, hnotes, hreport⟩ := report_answer hs m f
  have hquiet {es : List Effect} (hes : ∀ e ∈ es, e.IsQuiet) (slot : SlotId) (message : Bytes) :
      .queued slot message ∉ es := fun h => hes _ h
  simp only [fromEngineer, hs, Gate.check_verdict, Gate.check_key]
  rw [hreport]
  rcases dispatch_cases _ m f (s.gate.judge f p.key).1 with ⟨q, hq, heq | ⟨_, user, huser, _, heq⟩⟩ |
    ⟨_, _, store, clock, es, hes, heq⟩
  · obtain ⟨store, clock, es, rfl, hes⟩ := hq
    refine ⟨notes, es, hnotes, fun slot message h => absurd h (hquiet hes slot message), ?_, _, rfl, .inl ?_⟩
    · rw [heq]
    · rw [heq]
  · obtain ⟨store, clock, es, rfl, hes⟩ := hq
    obtain ⟨u, hu, hid, hrole, _⟩ := user_of_checked huser
    refine ⟨notes, .queued user.id f.withoutSignature.bytes :: es, hnotes, ?_, ?_, _, rfl, .inl ?_⟩
    · intro slot message h
      rcases List.mem_cons.mp h with h | h
      · cases h
        exact ⟨rfl, u, hu, hid, hrole⟩
      · exact absurd h (hquiet hes slot message)
    · rw [heq]
      rfl
    · rw [heq]
      rfl
  · refine ⟨notes, .logged .keyReplaced :: es, hnotes, ?_, ?_, _, rfl, .inr ?_⟩
    · intro slot message h
      rcases List.mem_cons.mp h with h | h
      · cases h
      · exact absurd h (hquiet hes slot message)
    · rw [heq]
      rfl
    · rw [heq]

/-- What a slot is sent in a move that handles a frame of its own, and when. -/
def told (p : Pair) (id : SlotId) (b : Moment × Move) : List (Nat × Bytes) :=
  match b.2 with
  | .engineerFrame slot _ => if slot = id then (Effect.messagesTo id (p.outgo b)).map (b.1.now, ·) else []
  | _ => []

theorem told_of_find?_none {p : Pair} {id : SlotId} (h : p.slots.find? id = none) (b : Moment × Move) :
    p.told id b = [] := by
  obtain ⟨m, move⟩ := b
  cases move with
  | engineerFrame slot f =>
    simp only [told]
    split
    · rename_i hslot
      subst hslot
      have hact : p.act (m, .engineerFrame slot f) = p := by simp only [act, fromEngineer, h]
      have hnone : p.outgo (m, .engineerFrame slot f) = [] := by
        rw [outgo, hact]
        exact effectsSince_of_append (List.nil_append _).symm
      rw [hnone]
      rfl
    · rfl
  | _ => rfl

theorem told_of_nextId_le {p : Pair} (hwf : p.slots.WellFormed) {id : SlotId} (h : p.slots.nextId ≤ id)
    (b : Moment × Move) : p.told id b = [] := by
  apply told_of_find?_none
  cases hs : p.slots.find? id with
  | none => rfl
  | some s =>
    obtain ⟨hmem, rfl⟩ := SlotTable.mem_of_find? hs
    exact absurd (hwf.lt_next s hmem) (Nat.not_lt.mpr h)

theorem told_engineerFrame {p : Pair} (hwf : p.slots.WellFormed) {id : SlotId} {s : Slot}
    (hs : p.slots.find? id = some s) (hrole : s.role = .engineer) (m : Moment) (f : Frame) :
    p.told id (m, .engineerFrame id f) = ((p.answer m s f).map fun g => (m.now, g.bytes)).toList := by
  obtain ⟨notes, later, hnotes, hlater, hhistory, -⟩ := fromEngineer_answer hs m f
  obtain ⟨hmem, rfl⟩ := SlotTable.mem_of_find? hs
  have hlaterNone : Effect.messagesTo s.id later.reverse = [] := by
    apply messagesTo_eq_nil
    intro message hmessage
    obtain ⟨-, user, huser, hid, huserRole⟩ := hlater _ _ (List.mem_reverse.mp hmessage)
    rw [hwf.eq_of_id huser hmem hid, hrole] at huserRole
    cases huserRole
  have hnotesNone : Effect.messagesTo s.id notes.reverse = [] :=
    messagesTo_eq_nil fun message hmessage => hnotes _ (List.mem_reverse.mp hmessage)
  have houtgo : p.outgo (m, .engineerFrame s.id f) =
      (later ++ ((p.answer m s f).map fun g => Effect.queued s.id g.bytes).toList ++ notes).reverse := by
    apply effectsSince_of_append
    rw [List.append_assoc, List.append_assoc]
    exact hhistory
  simp only [told, if_true]
  rw [houtgo, List.reverse_append, List.reverse_append, Effect.messagesTo_append, Effect.messagesTo_append, hlaterNone,
    hnotesNone, List.nil_append, List.append_nil]
  cases p.answer m s f with
  | none => rfl
  | some g => simp [Effect.messagesTo]

/-! ## What a slot remembers -/

def KeepsNotices (t t' : SlotTable) : Prop :=
  ∀ s' ∈ t'.slots, ∃ s ∈ t.slots, s.id = s'.id ∧ s'.lastNotice = s.lastNotice

theorem KeepsNotices.refl (t : SlotTable) : KeepsNotices t t := fun s hs => ⟨s, hs, rfl, rfl⟩

theorem KeepsNotices.without (t : SlotTable) (ids : List SlotId) : KeepsNotices t (t.without ids) :=
  fun s hs => ⟨s, (SlotTable.mem_without.mp hs).1, rfl, rfl⟩

theorem KeepsNotices.modify (t : SlotTable) (id : SlotId) {g : Slot → Slot}
    (hg : ∀ s, (g s).id = s.id ∧ (g s).lastNotice = s.lastNotice) : KeepsNotices t (t.modify id g) := by
  intro s' hs'
  obtain ⟨s, hs, rfl⟩ := SlotTable.mem_modify.mp hs'
  refine ⟨s, hs, ?_⟩
  split
  · exact ⟨(hg s).1.symm, (hg s).2⟩
  · exact ⟨rfl, rfl⟩

theorem lastNotice_advance (s : Slot) (next : SlotState) :
    (s.advance next).id = s.id ∧ (s.advance next).lastNotice = s.lastNotice := by
  unfold Slot.advance
  split <;> exact ⟨rfl, rfl⟩

theorem lastNotice_received (s : Slot) (now count : Nat) :
    (received s now count).id = s.id ∧ (received s now count).lastNotice = s.lastNotice := by
  have hfirst : (if s.state = .new then s.advance .established else s).id = s.id ∧
      (if s.state = .new then s.advance .established else s).lastNotice = s.lastNotice := by
    split
    · exact lastNotice_advance s _
    · exact ⟨rfl, rfl⟩
  unfold received
  simp only
  split
  · exact hfirst
  · obtain ⟨hid, hlast⟩ := lastNotice_advance (if s.state = .new then s.advance .established else s) .active
    exact ⟨hid.trans hfirst.1, hlast.trans hfirst.2⟩

theorem told_of_ne {p : Pair} {b : Moment × Move} (hb : ∀ slot f, b.2 ≠ .engineerFrame slot f) (id : SlotId) :
    p.told id b = [] := by
  obtain ⟨m, move⟩ := b
  cases move with
  | engineerFrame slot f => exact absurd rfl (hb slot f)
  | _ => rfl

def Remembers (p : Pair) (b : Moment × Move) (t : SlotTable) : Prop :=
  ∀ s' ∈ t.slots, s'.id = p.slots.nextId ∧ s'.lastNotice = none ∨
    ∃ s ∈ p.slots.slots, s.id = s'.id ∧ s'.lastNotice = ((p.told s.id b).getLast?.map (·.1)).or s.lastNotice

theorem KeepsNotices.remembers {p : Pair} {t : SlotTable} (h : KeepsNotices p.slots t) {b : Moment × Move}
    (hb : ∀ slot f, b.2 ≠ .engineerFrame slot f) : p.Remembers b t := by
  intro s' hs'
  obtain ⟨s, hs, hid, hlast⟩ := h s' hs'
  refine .inr ⟨s, hs, hid, ?_⟩
  rw [told_of_ne hb, hlast]
  rfl

theorem remembers_connect (p : Pair) (m : Moment) (role : Role) (transport : Transport) (peer : Peer) :
    p.Remembers (m, .connect role transport peer) (p.connect m role transport peer).1.slots := by
  rcases p.connect_cases m role transport peer with ⟨_, hq⟩ | ⟨a, q, key, ha, hconnect, hq, _⟩
  · rw [hq.slots]
    exact (KeepsNotices.refl _).remembers (by simp)
  · obtain ⟨_, gone, htable, _⟩ := SlotTable.accept_eq_ok ha
    rw [hconnect]
    intro s' hs'
    rw [hq.slots, htable, SlotTable.slots_enter, List.mem_append, List.mem_singleton] at hs'
    rcases hs' with hs' | rfl
    · exact (KeepsNotices.without p.slots gone).remembers (by simp) s' hs'
    · exact .inl ⟨rfl, rfl⟩

theorem remembers_engineerFrame {p : Pair} (hwf : p.slots.WellFormed) {id : SlotId} {s : Slot}
    (hs : p.slots.find? id = some s) (hrole : s.role = .engineer) (m : Moment) (f : Frame) :
    p.Remembers (m, .engineerFrame id f) (p.fromEngineer m id f).slots := by
  have htold := told_engineerFrame hwf hs hrole m f
  obtain ⟨-, -, -, -, -, t, ht, hslots⟩ := fromEngineer_answer hs m f
  have hchecked : p.Remembers (m, .engineerFrame id f) t := by
    subst ht
    intro s' hs'
    obtain ⟨s₀, hs₀, rfl⟩ := SlotTable.mem_modify.mp hs'
    refine .inr ⟨s₀, hs₀, ?_⟩
    split
    · rename_i hid
      refine ⟨rfl, ?_⟩
      rw [hid, htold, answer]
      split <;> rfl
    · rename_i hid
      refine ⟨rfl, ?_⟩
      simp only [told, if_neg (Ne.symm hid)]
      rfl
  rcases hslots with hslots | hslots
  · rw [hslots]
    exact hchecked
  · rw [hslots]
    intro s' hs'
    obtain ⟨s₁, hs₁, rfl⟩ := List.mem_map.mp hs'
    split
    · exact hchecked s₁ hs₁
    · exact hchecked s₁ hs₁

theorem remembers_act {p : Pair} (hwf : p.slots.WellFormed) {b : Moment × Move}
    (hb : ∀ id f, b.2 = .engineerFrame id f → ∃ s, p.slots.find? id = some s ∧ s.role = .engineer) :
    p.Remembers b (p.act b).slots := by
  obtain ⟨m, move⟩ := b
  cases move with
  | connect role transport peer => exact p.remembers_connect m role transport peer
  | refuse | welcome | storeChange => exact (KeepsNotices.refl _).remembers (by simp)
  | established id =>
    refine KeepsNotices.remembers ?_ (by simp)
    rcases p.booked_established m id with h | h
    · simp only [act, h.slots]
      exact .refl _
    · simp only [act, h.slots]
      exact .modify _ _ fun s => lastNotice_advance s _
  | arrival id count => exact (KeepsNotices.modify _ _ fun s => lastNotice_received s _ _).remembers (by simp)
  | userFrame f =>
    refine KeepsNotices.remembers ?_ (by simp)
    simp only [act, fromUser_eq]
    exact .refl _
  | engineerFrame id f =>
    obtain ⟨s, hs, hrole⟩ := hb id f rfl
    exact remembers_engineerFrame hwf hs hrole m f
  | disconnected id =>
    refine KeepsNotices.remembers ?_ (by simp)
    simp only [act, (p.booked_closeSlot id).slots]
    exact .without _ _
  | sweep =>
    refine KeepsNotices.remembers ?_ (by simp)
    obtain ⟨q, key, hq, hsweep, _⟩ := p.sweep_cases m
    simp only [act, hsweep, hq.slots]
    exact .without _ _
  | quit =>
    refine KeepsNotices.remembers ?_ (by simp)
    simp only [act, p.booked_shutdown.slots]
    exact .without _ _

def notices (p : Pair) (id : SlotId) : List (Moment × Move) → List (Nat × Bytes)
  | [] => []
  | b :: rest => p.told id b ++ (p.act b).notices id rest

theorem notices_snoc (p : Pair) (id : SlotId) (moves : List (Moment × Move)) (b : Moment × Move) :
    p.notices id (moves ++ [b]) = p.notices id moves ++ (p.replay moves).told id b := by
  induction moves generalizing p with
  | nil => exact List.append_nil _
  | cons a rest ih =>
    rw [List.cons_append, notices, ih, notices, List.append_assoc]
    rfl

section Run

variable {c : Setup}

theorem notices_of_nextId_le {moves : List (Moment × Move)} {id : SlotId}
    (h : (c.pair.replay moves).slots.nextId ≤ id) : c.pair.notices id moves = [] := by
  induction moves using List.reverseRecOn with
  | nil => rfl
  | append_singleton moves b ih =>
    rw [replay_snoc] at h
    have hbefore := Nat.le_trans ((c.pair.replay moves).nextId_act b) h
    rw [notices_snoc, ih hbefore, told_of_nextId_le (wellFormed_replay c moves) hbefore, List.nil_append]

variable {events : List (Moment × Event)} {moves : List (Moment × Move)}

/-- What a slot remembers is the time of the last notice that it was sent in the whole run. -/
theorem lastNotice_replay (h : moves <+: c.pair.trace events) {s : Slot} (hs : s ∈ (c.pair.replay moves).slots.slots) :
    s.lastNotice = (c.pair.notices s.id moves).getLast?.map (·.1) := by
  induction moves using List.reverseRecOn generalizing s with
  | nil => cases hs
  | append_singleton moves b ih =>
    have hfront := (List.prefix_append moves [b]).trans h
    have hengineer (id : SlotId) (f : Frame) (hb : b.2 = .engineerFrame id f) :
        ∃ s, (c.pair.replay moves).slots.find? id = some s ∧ s.role = .engineer := by
      obtain ⟨m, move⟩ := b
      obtain rfl : move = .engineerFrame id f := hb
      obtain ⟨s, hs, hrole, _⟩ := slot_of_engineerFrame h
      exact ⟨s, hs, hrole⟩
    rw [replay_snoc] at hs
    rw [notices_snoc, List.getLast?_append, Option.map_or]
    rcases remembers_act (wellFormed_replay c moves) hengineer s hs with ⟨hid, hlast⟩ | ⟨s₀, hs₀, hid, hlast⟩
    · have hnew : (c.pair.replay moves).slots.nextId ≤ s.id := Nat.le_of_eq hid.symm
      rw [hlast, told_of_nextId_le (wellFormed_replay c moves) hnew, notices_of_nextId_le hnew]
      rfl
    · rw [hlast, ih hfront hs₀, hid]

/-- A notice is due where the last one of the run, if there is any, is an interval ago. -/
theorem noticeDue_iff (h : moves <+: c.pair.trace events) {s : Slot} (hs : s ∈ (c.pair.replay moves).slots.slots)
    (now : Nat) : s.noticeDue now noticeInterval = true ↔
      ∀ last ∈ (c.pair.notices s.id moves).getLast?, last.1 + noticeInterval ≤ now := by
  have hlast := lastNotice_replay h hs
  have hinterval : 0 < noticeInterval := by decide
  unfold Slot.noticeDue
  rw [hlast]
  cases (c.pair.notices s.id moves).getLast? with
  | none => simp
  | some last =>
    simp only [Option.map_some, decide_eq_true_eq, Option.mem_some_iff, forall_eq']
    omega

variable {b : Moment × Move}

theorem told_cases (h : moves ++ [b] <+: c.pair.trace events) (id : SlotId) :
    (c.pair.replay moves).told id b = [] ∨
      ∃ m f s g, b = (m, .engineerFrame id f) ∧ (c.pair.replay moves).slots.find? id = some s ∧
        (c.pair.replay moves).Grants m s f ∧ (c.pair.replay moves).told id b = [(m.now, g)] := by
  obtain ⟨m, move⟩ := b
  cases move with
  | engineerFrame slot f =>
    by_cases hslot : slot = id
    · subst hslot
      obtain ⟨s, hs, hrole, _⟩ := slot_of_engineerFrame h
      rw [told_engineerFrame (wellFormed_replay c moves) hs hrole, answer]
      split
      · exact .inr ⟨m, f, s, _, rfl, hs, ‹_›, rfl⟩
      · exact .inl rfl
    · exact .inl (by simp only [told, if_neg hslot])
  | _ => exact .inl rfl

/-- Any two notices are an interval apart, since the later one is not due before. -/
theorem spaced_notices (h : moves <+: c.pair.trace events) (id : SlotId) :
    (c.pair.notices id moves).Pairwise fun a b => a.1 + noticeInterval ≤ b.1 := by
  induction moves using List.reverseRecOn with
  | nil => exact .nil
  | append_singleton moves b ih =>
    have hfront := (List.prefix_append moves [b]).trans h
    have hbefore := ih hfront
    rw [notices_snoc]
    rcases told_cases h id with hnone | ⟨m, f, s, g, rfl, hs, ⟨_, hdue⟩, htold⟩
    · rw [hnone, List.append_nil]
      exact hbefore
    · obtain ⟨hmem, rfl⟩ := SlotTable.mem_of_find? hs
      rw [noticeDue_iff hfront hmem] at hdue
      rw [htold, List.pairwise_append]
      refine ⟨hbefore, List.pairwise_singleton _ _, ?_⟩
      intro earlier hearlier later hlater
      rw [List.mem_singleton.mp hlater]
      -- The notices before the last one are even further away.
      rcases List.eq_nil_or_concat' (c.pair.notices s.id moves) with hnil | ⟨front, last, hconcat⟩
      · rw [hnil] at hearlier
        cases hearlier
      · rw [hconcat] at hearlier hdue hbefore
        have hlast := hdue last (by simp)
        rcases List.mem_append.mp hearlier with hearlier | hearlier
        · have hspaced := (List.pairwise_append.mp hbefore).2.2 earlier hearlier last (by simp)
          exact Nat.le_trans (Nat.le_trans hspaced (Nat.le_add_right _ _)) hlast
        · rw [List.mem_singleton.mp hearlier]
          exact hlast

end Run

/-! ## Peers that are vouched for -/

theorem Turn.keeps_trust {p q : Pair} {b : Moment × Move} (h : Turn p b q) (hwf : p.slots.WellFormed)
    (hstays : ¬p.Rotates b) {s' : Slot} (hs' : s' ∈ q.slots.slots) (hid : s'.id < p.slots.nextId) :
    ∃ s ∈ p.slots.slots, s'.Continues s ∧ (s.trust = .authenticated → s'.trust = .authenticated) := by
  have hsame {s : Slot} (hgate : s'.gate = s.gate) (htrust : s.trust = .authenticated) :
      s'.trust = .authenticated := by
    rw [Slot.trust, hgate]
    exact htrust
  cases h with
  | kept gates =>
    obtain ⟨s, hs, hcont, hgate⟩ := gates s' hs'
    exact ⟨s, hs, hcont, hsame hgate⟩
  | admitted new _ opens gates =>
    rcases gates s' hs' with rfl | ⟨s, hs, hcont, hgate⟩
    · exact absurd (id_of_opens opens) (Nat.ne_of_lt hid)
    · exact ⟨s, hs, hcont, hsame hgate⟩
  | @checked id f sender _ hfind gates =>
    obtain ⟨s, hs, hcont, hgate⟩ := gates s' hs'
    refine ⟨s, hs, hcont, fun htrust => ?_⟩
    obtain ⟨hsender, hsenderId⟩ := SlotTable.mem_of_find? hfind
    by_cases hcase : s.id = id
    · obtain rfl := hwf.eq_of_id hs hsender (hcase.trans hsenderId.symm)
      rw [Slot.trust, hgate, if_pos hcase, Gate.check_trust, Trust.after_eq_authenticated_iff]
      exact .inl htrust
    · exact hsame (hgate.trans (if_neg hcase)) htrust
  | rotated _ _ _ _ _ turns => exact absurd turns hstays

theorem authenticated_of_accepts {p : Pair} {b : Moment × Move} {id : SlotId}
    (h : p.Accepts b id) (hstays : ¬p.Rotates b) {s' : Slot} (hs' : s' ∈ (p.act b).slots.slots) (hid : s'.id = id) :
    s'.trust = .authenticated := by
  obtain ⟨m, move⟩ := b
  obtain ⟨s, f, hs, hb, hgood⟩ := h
  obtain rfl : move = .engineerFrame id f := hb
  obtain ⟨note, _, _, es, ⟨heq, _⟩ | ⟨heq, _⟩⟩ := fromEngineer_cases hs m f
  · rw [act_engineerFrame, heq] at hs'
    obtain ⟨s₀, hs₀, hcont, hgate⟩ := mem_checked hs'
    rw [if_pos (hcont.id.symm.trans hid)] at hgate
    rw [Slot.trust, hgate, Gate.check_trust, Trust.after_eq_authenticated_iff]
    exact .inr hgood
  · exact absurd (rotates_of_history es (by simp only [act, heq])) hstays

theorem authenticated_of_vouched (c : Setup) {moves : List (Moment × Move)} {id : SlotId}
    (h : c.pair.Vouched moves id) {s : Slot} (hs : s ∈ (c.pair.replay moves).slots.slots) (hid : s.id = id) :
    s.trust = .authenticated := by
  obtain ⟨earlier, b, later, rfl, -, haccepts, hstays⟩ := h
  have hsender := haccepts
  obtain ⟨sender, -, hsender, -⟩ := hsender
  induction later using List.reverseRecOn generalizing s with
  | nil =>
    rw [replay_snoc] at hs
    refine authenticated_of_accepts haccepts ?_ hs hid
    have hfirst := hstays [] b (List.prefix_refl _)
    rwa [List.append_nil] at hfirst
  | append_singleton later d ih =>
    rw [← List.cons_append, ← List.append_assoc, replay_snoc] at hs
    have hlast := hstays (b :: later) d (List.prefix_refl _)
    have hknown : s.id < (c.pair.replay (earlier ++ b :: later)).slots.nextId := by
      obtain ⟨hmem, hsenderId⟩ := SlotTable.mem_of_find? hsender
      have hlt := (wellFormed_replay c earlier).lt_next sender hmem
      rw [hid, ← hsenderId, replay_append]
      exact Nat.lt_of_lt_of_le hlt (nextId_replay _ _)
    obtain ⟨s₀, hs₀, hcont, htrust⟩ :=
      (turn_act _ d).keeps_trust (wellFormed_replay c _) hlast hs hknown
    apply htrust
    apply ih (hcont.id.symm.trans hid) hs₀
    intro front d' hpart
    exact hstays front d' (hpart.trans (List.prefix_append _ _))

/-! ## The source of notices -/

end Pair

def Move.source? : Move → Option (UInt8 × UInt8)
  | userFrame f => if f.msgId = MessageId.heartbeat then some (f.header.sysid, f.header.compid) else none
  | _ => none

namespace Pair

theorem userSource_fromEngineer (p : Pair) (m : Moment) (id : SlotId) (f : Frame) :
    (p.fromEngineer m id f).userSource = p.userSource := by
  cases hs : p.slots.find? id with
  | none => simp only [fromEngineer, hs]
  | some s =>
    obtain ⟨_, _, _, _, ⟨heq, _⟩ | ⟨heq, _⟩⟩ := fromEngineer_cases hs m f
    · rw [heq]
    · rw [heq]

theorem userSource_act (p : Pair) (b : Moment × Move) : (p.act b).userSource = b.2.source?.or p.userSource := by
  obtain ⟨m, move⟩ := b
  cases move with
  | connect role transport peer =>
    rcases p.connect_cases m role transport peer with ⟨_, hq⟩ | ⟨a, q, key, _, hconnect, hq, _⟩
    · exact hq.userSource
    · simp only [act, hconnect]
      exact hq.userSource
  | refuse | welcome | arrival | storeChange => rfl
  | established id =>
    rcases p.booked_established m id with h | h
    · exact h.userSource
    · exact h.userSource
  | userFrame f =>
    simp only [act, fromUser_eq, noteSource, Move.source?]
    split <;> rfl
  | engineerFrame id f => exact p.userSource_fromEngineer m id f
  | disconnected id => exact (p.booked_closeSlot id).userSource
  | sweep =>
    obtain ⟨q, key, hq, hsweep, _⟩ := p.sweep_cases m
    simp only [act, hsweep]
    exact hq.userSource
  | quit => exact p.booked_shutdown.userSource

/-- The source of the latest heartbeat of a user in a run. -/
def latestSource? (moves : List (Moment × Move)) : Option (UInt8 × UInt8) := moves.reverse.findSome? (·.2.source?)

theorem userSource_replay (c : Setup) (moves : List (Moment × Move)) :
    (c.pair.replay moves).userSource = latestSource? moves := by
  induction moves using List.reverseRecOn with
  | nil => rfl
  | append_singleton moves b ih =>
    rw [replay_snoc, userSource_act, ih, latestSource?, latestSource?, List.reverse_append, List.reverse_singleton,
      List.singleton_append, List.findSome?_cons]
    cases b.2.source? with
    | none => rfl
    | some source => rfl

/-! ## Runs -/

structure Answers (p : Pair) (moves : List (Moment × Move)) (m : Moment) (s : Slot) (f : Frame)
    (told : List (Nat × Bytes)) : Prop where
  granted : told ≠ [] ↔ (s.gate.check f (p.replay moves).key).2.2.notify = true ∧
    ∀ last ∈ (p.notices s.id moves).getLast?, last.1 + noticeInterval ≤ m.now
  trusted : p.Vouched moves s.id → told = []
  tells : ∀ t ∈ told, t.1 = m.now ∧ ∃ g, t.2 = g.bytes ∧
    Tells ((latestSource? moves).getD (1, 1)) (s.gate.check f (p.replay moves).key).2.2.verdict g
  elsewhere : ∀ slot message, .queued slot message ∈ (p.replay moves).outgo (m, .engineerFrame s.id f) → slot ≠ s.id →
    message = f.withoutSignature.bytes

theorem answer_ne_none_iff {p : Pair} {m : Moment} {s : Slot} {f : Frame} : p.answer m s f ≠ none ↔ p.Grants m s f := by
  unfold answer
  split
  · rename_i hgrants
    simp [hgrants]
  · rename_i hgrants
    simp [hgrants]

theorem of_answer_eq_some {p : Pair} {m : Moment} {s : Slot} {f g : Frame} (h : p.answer m s f = some g) :
    p.Grants m s f ∧ g = notice (p.userSource.getD defaultSource) (s.gate.judge f p.key).1 := by
  unfold answer at h
  split at h
  · rename_i hgrants
    exact ⟨hgrants, (Option.some.inj h).symm⟩
  · cases h

theorem answers {c : Setup} {events : List (Moment × Event)} {moves : List (Moment × Move)} {m : Moment} {f : Frame}
    {s : Slot} (h : moves ++ [(m, .engineerFrame s.id f)] <+: c.pair.trace events)
    (hs : (c.pair.replay moves).slots.find? s.id = some s) (hrole : s.role = .engineer) :
    c.pair.Answers moves m s f ((c.pair.replay moves).told s.id (m, .engineerFrame s.id f)) := by
  have hmem := (SlotTable.mem_of_find? hs).1
  have hgrants : (c.pair.replay moves).Grants m s f ↔ (s.gate.check f (c.pair.replay moves).key).2.2.notify = true ∧
      ∀ last ∈ (c.pair.notices s.id moves).getLast?, last.1 + noticeInterval ≤ m.now := by
    rw [Grants, noticeDue_iff ((List.prefix_append moves _).trans h) hmem]
  rw [told_engineerFrame (wellFormed_replay c moves) hs hrole]
  constructor
  · rw [ne_eq, Option.toList_eq_nil_iff, Option.map_eq_none_iff, ← ne_eq, answer_ne_none_iff]
    exact hgrants
  · intro hvouched
    have htrust := authenticated_of_vouched c hvouched hmem rfl
    have hnone : ¬(c.pair.replay moves).Grants m s f := by
      rintro ⟨hnotify, -⟩
      exact ((s.gate.check_notify_iff f _).mp hnotify).2.1 htrust
    rw [answer, if_neg hnone]
    rfl
  · rintro ⟨now, message⟩ ht
    rw [Option.mem_toList, Option.map_eq_some_iff] at ht
    obtain ⟨g, hg, heq⟩ := ht
    cases heq
    obtain ⟨⟨hnotify, -⟩, hnotice⟩ := of_answer_eq_some hg
    refine ⟨rfl, g, rfl, ?_⟩
    rw [hnotice, Gate.check_verdict, ← userSource_replay]
    exact tells_notice ((s.gate.check_notify_iff f _).mp hnotify).1 _
  · intro slot message hqueued hne
    cases origin_of_mem_outgo hqueued with
    | quiet hquiet => exact hquiet.elim
    | user hb => cases hb
    | engineer hb _ hcheck =>
      cases hb
      cases hcheck with
      | quiet hquiet => exact hquiet.elim
      | notice => exact absurd rfl hne
      | forward => rfl

theorem frame_of_queued {p : Pair} {b : Moment × Move} {slot : SlotId} {message : Bytes}
    (h : .queued slot message ∈ p.outgo b) :
    (∃ f, b.2 = .userFrame f ∧ message = (outgoing p.key f).2) ∨ ∃ id f, b.2 = .engineerFrame id f := by
  cases origin_of_mem_outgo h with
  | quiet hquiet => exact hquiet.elim
  | user hb => exact .inl ⟨_, hb, rfl⟩
  | engineer hb => exact .inr ⟨_, _, hb⟩

/-- The notices to a slot are an interval apart in every run, whatever its times.  A frame of an engineer is answered by
one exactly if its check asks for it and the last one is an interval ago, and never if the engineer is vouched for.  All
else that is queued to anyone are frames. -/
theorem notices_of_run (c : Setup) (events : List (Moment × Event)) (id : SlotId) :
    (c.pair.notices id (c.pair.trace events)).Pairwise (fun a b => a.1 + noticeInterval ≤ b.1) ∧
      (∀ moves m f, moves ++ [(m, .engineerFrame id f)] <+: c.pair.trace events →
        ∃ s, (c.pair.replay moves).slots.find? id = some s ∧
          c.pair.Answers moves m s f ((c.pair.replay moves).told id (m, .engineerFrame id f))) ∧
      ∀ moves b message, moves ++ [b] <+: c.pair.trace events → .queued id message ∈ (c.pair.replay moves).outgo b →
        (∃ f, b.2 = .userFrame f ∧ message = (outgoing (c.pair.replay moves).key f).2) ∨
          ∃ slot f, b.2 = .engineerFrame slot f := by
  refine ⟨spaced_notices (List.prefix_refl _) id, ?_, fun _ _ _ _ => frame_of_queued⟩
  intro moves m f h
  obtain ⟨s, hs, hrole, _⟩ := slot_of_engineerFrame h
  obtain ⟨-, rfl⟩ := SlotTable.mem_of_find? hs
  exact ⟨s, hs, answers h hs hrole⟩

def pilotHeartbeat : Frame :=
  (⟨MessageId.heartbeat, 0, 7, 9, heartbeatPayload⟩ : Message).frame 50 (by decide) (by decide) rfl

/-- A user leaves after its heartbeat, and an engineer sends three frames to a pair without a key. -/
def departedRun : List (Moment × Event) :=
  [(⟨0, 0⟩, .connect .user .tcp "user"), (⟨1, 0⟩, .frames 1 [pilotHeartbeat]), (⟨2, 0⟩, .disconnected 1),
    (⟨3, 0⟩, .connect .engineer .tcp "engineer"), (⟨1000, 0⟩, .frames 2 [heartbeat]),
    (⟨2000, 0⟩, .frames 2 [heartbeat]), (⟨3000, 0⟩, .frames 2 [heartbeat])]

def departedMoves : List (Moment × Move) :=
  [(⟨0, 0⟩, .connect .user .tcp "user"), (⟨1, 0⟩, .arrival 1 1), (⟨1, 0⟩, .userFrame pilotHeartbeat),
    (⟨2, 0⟩, .disconnected 1), (⟨3, 0⟩, .connect .engineer .tcp "engineer"), (⟨1000, 0⟩, .arrival 2 1),
    (⟨1000, 0⟩, .engineerFrame 2 heartbeat), (⟨2000, 0⟩, .arrival 2 1), (⟨2000, 0⟩, .engineerFrame 2 heartbeat),
    (⟨3000, 0⟩, .arrival 2 1)]

theorem notices_of_run_departed :
    ((Setup.offline none).pair.notices 2 ((Setup.offline none).pair.trace departedRun)).map (·.1) = [1000, 3000] ∧
      ∃ told, ((Setup.offline none).pair.replay departedMoves).told 2 (⟨3000, 0⟩, .engineerFrame 2 heartbeat) = told ∧
        told ≠ [] ∧ ∀ t ∈ told, ∃ g, t.2 = g.bytes ∧ Tells (7, 9) .noKey g := by
  have hpart : departedMoves ++ [(⟨3000, 0⟩, .engineerFrame 2 heartbeat)] <+:
      (Setup.offline none).pair.trace departedRun := ⟨[], rfl⟩
  obtain ⟨s, hs, h⟩ := (notices_of_run (Setup.offline none) departedRun 2).2.1 departedMoves _ _ hpart
  refine ⟨by decide +kernel, _, rfl, by decide +kernel, ?_⟩
  intro t ht
  obtain ⟨-, g, hbytes, htells⟩ := h.tells t ht
  rw [Gate.check_verdict] at htells
  exact ⟨g, hbytes, htells⟩

end Pair

end GatedRelay
