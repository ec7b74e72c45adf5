import GatedRelay.Proofs.Pair.Turns
import Mathlib.Data.List.Induction

/-!
# What holds all along a run

Runs start with a pair to which nothing has happened yet.  Ids name the slots of every state that a pair reaches, and
each slot of such a state was opened earlier in the run.  A frame of an engineer is handled at an open slot of an
engineer, because its batch has arrived there before.
-/

set_option autoImplicit false

namespace GatedRelay.Pair

structure Setup where
  port1 : UInt16
  port2 : UInt16
  idleTimeout : Nat
  maxEngineers : Nat
  policy : UserPolicy
  key : Option SigningKey
  store : Service

def Setup.pair (c : Setup) : Pair where
  port1 := c.port1
  port2 := c.port2
  idleTimeout := c.idleTimeout
  slots := { maxEngineers := c.maxEngineers, policy := c.policy }
  key := c.key
  store := c.store

/-! ## Ids -/

/-- A move takes slots away, or it admits one peer with the next id. -/
theorem table_act (p : Pair) (b : Moment × Move) :
    (p.act b).slots.Within p.slots ∨
      ∃ gone role transport peer, b.2 = .connect role transport peer ∧
        (p.act b).slots = (p.slots.without gone).enter role transport peer b.1.now := by
  obtain ⟨m, move⟩ := b
  have hbooked {q : Pair} {t : SlotTable} (hq : Booked { p with slots := t } q) (ht : t.Within p.slots) :
      q.slots.Within p.slots := hq.slots ▸ ht
  cases move with
  | connect role transport peer =>
    rcases p.connect_cases m role transport peer with ⟨_, hq⟩ | ⟨a, q, key, ha, hconnect, hq, _⟩
    · exact .inl (hbooked hq (.refl _))
    · obtain ⟨_, gone, htable, _⟩ := SlotTable.accept_eq_ok ha
      have hact : p.act (m, .connect role transport peer) = q := by simp only [act, hconnect]
      exact .inr ⟨gone, role, transport, peer, rfl, by rw [hact, hq.slots, htable]⟩
  | refuse peer => exact .inl (.refl _)
  | welcome peer => exact .inl (.refl _)
  | established id =>
    rcases p.booked_established m id with hq | hq
    · exact .inl (hbooked hq (.refl _))
    · refine .inl (hbooked hq (SlotTable.within_modify _ _ fun s => ?_))
      exact ((Slot.Continues.refl s).advance .established).seat
  | arrival id count =>
    exact .inl (SlotTable.within_modify _ _ fun s => (received_continues s m.now count).1.seat)
  | userFrame f =>
    simp only [act, fromUser_eq]
    exact .inl (.refl _)
  | engineerFrame id f =>
    cases hs : p.slots.find? id with
    | none =>
      simp only [act, fromEngineer, hs]
      exact .inl (.refl _)
    | some s =>
      obtain ⟨note, _, _, _, heq⟩ := fromEngineer_cases hs m f
      have hchecked := SlotTable.within_modify p.slots id
        fun s' => (checkedSlot_continues (s.gate.check f p.key).1 note s').seat
      rcases heq with ⟨heq, _⟩ | ⟨heq, _⟩
      · simp only [act, heq]
        exact .inl hchecked
      · simp only [act, heq]
        exact .inl ((SlotTable.within_resetGates _).trans hchecked)
  | disconnected id => exact .inl (hbooked (p.booked_closeSlot id) (SlotTable.within_without _ _))
  | sweep =>
    obtain ⟨q, key, hq, hsweep, _⟩ := p.sweep_cases m
    simp only [act, hsweep]
    exact .inl (hbooked hq (SlotTable.within_without _ _))
  | quit =>
    have hslots : p.shutdown.slots = p.slots.without p.slots.ids := p.booked_shutdown.slots
    rw [act, hslots]
    exact .inl (SlotTable.within_without _ _)
  | storeChange change => exact .inl (.refl _)

theorem wellFormed_act {p : Pair} (h : p.slots.WellFormed) (b : Moment × Move) : (p.act b).slots.WellFormed := by
  rcases p.table_act b with hwithin | ⟨gone, role, transport, peer, _, htable⟩
  · exact h.within hwithin
  · rw [htable]
    exact (h.within (SlotTable.within_without _ gone)).enter role transport peer b.1.now

theorem policy_act (p : Pair) (b : Moment × Move) : (p.act b).slots.policy = p.slots.policy := by
  rcases p.table_act b with hwithin | ⟨gone, role, transport, peer, _, htable⟩
  · exact hwithin.policy
  · rw [htable]
    rfl

theorem policy_run (c : Setup) (events : List (Moment × Event)) : (c.pair.run events).slots.policy = c.policy := by
  rw [← replay_trace]
  induction c.pair.trace events using List.reverseRecOn with
  | nil => rfl
  | append_singleton moves b ih => rw [replay_snoc, policy_act, ih]

theorem nextId_act (p : Pair) (b : Moment × Move) : p.slots.nextId ≤ (p.act b).slots.nextId := by
  rcases p.table_act b with hwithin | ⟨gone, role, transport, peer, _, htable⟩
  · exact Nat.le_of_eq hwithin.next.symm
  · rw [htable]
    exact Nat.le_succ _

theorem nextId_replay (p : Pair) (moves : List (Moment × Move)) : p.slots.nextId ≤ (p.replay moves).slots.nextId := by
  induction moves generalizing p with
  | nil => exact Nat.le_refl _
  | cons b rest ih => exact Nat.le_trans (p.nextId_act b) (ih (p.act b))

theorem wellFormed_replay (c : Setup) (moves : List (Moment × Move)) : (c.pair.replay moves).slots.WellFormed := by
  induction moves using List.reverseRecOn with
  | nil => exact ⟨List.nodup_nil, fun s hs => absurd hs List.not_mem_nil⟩
  | append_singleton moves b ih =>
    rw [replay_snoc]
    exact wellFormed_act ih b

theorem slot_of_connect {p q : Pair} {m : Moment} {role : Role} {transport : Transport} {peer : Peer} {id : SlotId}
    (hwf : p.slots.WellFormed) (h : p.connect m role transport peer = (q, some id)) :
    ∃ s, q.slots.find? id = some s ∧ s.role = role := by
  rcases p.connect_cases m role transport peer with ⟨hnone, _⟩ | ⟨a, q', key, ha, hconnect, hq, _⟩
  · rw [h] at hnone
    cases hnone
  · rw [h] at hconnect
    cases hconnect
    obtain ⟨hid, gone, htable, _⟩ := SlotTable.accept_eq_ok ha
    have hslots : q.slots = (p.slots.without gone).enter role transport peer m.now := hq.slots.trans htable
    have hwf' := (hwf.within (SlotTable.within_without _ gone)).enter role transport peer m.now
    have hmem : (p.slots.without gone).newSlot role transport peer m.now ∈
        ((p.slots.without gone).enter role transport peer m.now).slots :=
      List.mem_append_right _ List.mem_cons_self
    refine ⟨(p.slots.without gone).newSlot role transport peer m.now, ?_, rfl⟩
    rw [hslots, hid]
    exact hwf'.find?_of_mem hmem

/-! ## Openings -/

def OpenedIn (p : Pair) (moves : List (Moment × Move)) (id : SlotId) : Prop :=
  ∃ earlier b, earlier ++ [b] <+: moves ∧ (p.replay earlier).Opens b id

theorem OpenedIn.snoc {p : Pair} {moves : List (Moment × Move)} {id : SlotId} (h : p.OpenedIn moves id)
    (b : Moment × Move) : p.OpenedIn (moves ++ [b]) id := by
  obtain ⟨earlier, b', hpart, hopens⟩ := h
  exact ⟨earlier, b', hpart.trans (List.prefix_append moves [b]), hopens⟩

theorem Turn.continues {p q : Pair} {b : Moment × Move} (h : Turn p b q) {s : Slot} (hs : s ∈ q.slots.slots) :
    p.Opens b s.id ∨ ∃ s₀ ∈ p.slots.slots, s.Continues s₀ := by
  cases h with
  | kept gates =>
    obtain ⟨s₀, hs₀, hcont, _⟩ := gates s hs
    exact .inr ⟨s₀, hs₀, hcont⟩
  | admitted new _ opens gates =>
    rcases gates s hs with rfl | ⟨s₀, hs₀, hcont, _⟩
    · exact .inl opens
    · exact .inr ⟨s₀, hs₀, hcont⟩
  | checked _ _ gates =>
    obtain ⟨s₀, hs₀, hcont, _⟩ := gates s hs
    exact .inr ⟨s₀, hs₀, hcont⟩
  | rotated _ _ _ _ gates =>
    obtain ⟨s₀, hs₀, hcont, _⟩ := gates s hs
    exact .inr ⟨s₀, hs₀, hcont⟩

theorem openedIn_of_mem (c : Setup) (moves : List (Moment × Move)) {s : Slot}
    (hs : s ∈ (c.pair.replay moves).slots.slots) : c.pair.OpenedIn moves s.id := by
  induction moves using List.reverseRecOn generalizing s with
  | nil => cases hs
  | append_singleton moves b ih =>
    rw [replay_snoc] at hs
    rcases ((c.pair.replay moves).turn_act b).continues hs with hopens | ⟨s₀, hs₀, hcont⟩
    · exact ⟨moves, b, List.prefix_refl _, hopens⟩
    · rw [hcont.id]
      exact (ih hs₀).snoc b

theorem id_of_opens {p : Pair} {b : Moment × Move} {id : SlotId} (h : p.Opens b id) : id = p.slots.nextId := by
  cases origin_of_mem_outgo h with
  | quiet hquiet => exact hquiet.elim
  | admission _ ha => exact (SlotTable.accept_eq_ok ha).1
  | engineer _ _ hcheck =>
    cases hcheck with
    | quiet hquiet => exact hquiet.elim

/-- An id belongs to the same peer for good: no later slot with it has another role. -/
theorem role_of_id {c : Setup} {moves later : List (Moment × Move)} {s s' : Slot}
    (hs : s ∈ (c.pair.replay moves).slots.slots) (hs' : s' ∈ (c.pair.replay (moves ++ later)).slots.slots)
    (hid : s'.id = s.id) : s'.role = s.role := by
  induction later using List.reverseRecOn generalizing s' with
  | nil =>
    rw [List.append_nil] at hs'
    rw [(wellFormed_replay c moves).eq_of_id hs' hs hid]
  | append_singleton later b ih =>
    rw [← List.append_assoc, replay_snoc] at hs'
    rcases ((c.pair.replay (moves ++ later)).turn_act b).continues hs' with hopens | ⟨s₀, hs₀, hcont⟩
    · have hnew := id_of_opens hopens
      have hold := (wellFormed_replay c moves).lt_next s hs
      have hlater := (c.pair.replay moves).nextId_replay later
      rw [← replay_append, ← hnew] at hlater
      exact absurd hid (Nat.ne_of_gt (Nat.lt_of_lt_of_le hold hlater))
    · exact hcont.role.trans (ih hs₀ (hcont.id.symm.trans hid))

/-! ## Frames at open slots -/

theorem connect_of_opens {p : Pair} {b : Moment × Move} {id : SlotId} (h : p.Opens b id) :
    ∃ role transport peer, b.2 = .connect role transport peer := by
  cases origin_of_mem_outgo h with
  | quiet hquiet => exact hquiet.elim
  | admission hb => exact ⟨_, _, _, hb⟩
  | engineer _ _ hcheck =>
    cases hcheck with
    | quiet hquiet => exact hquiet.elim

theorem continues_of_frames {p : Pair} {m : Moment} {id : SlotId} (rest : List (Moment × Move))
    (h : ∀ b ∈ rest, ∃ g, b = (m, .engineerFrame id g)) {s : Slot} (hs : s ∈ (p.replay rest).slots.slots) :
    ∃ s₀ ∈ p.slots.slots, s.Continues s₀ := by
  induction rest using List.reverseRecOn generalizing s with
  | nil => exact ⟨s, hs, .refl s⟩
  | append_singleton rest b ih =>
    rw [replay_snoc] at hs
    obtain ⟨g, rfl⟩ := h b (List.mem_append_right rest List.mem_cons_self)
    rcases ((p.replay rest).turn_act _).continues hs with hopens | ⟨s₁, hs₁, hcont₁⟩
    · obtain ⟨_, _, _, hconnect⟩ := connect_of_opens hopens
      cases hconnect
    · obtain ⟨s₀, hs₀, hcont₀⟩ := ih (fun b hb => h b (List.mem_append_left _ hb)) hs₁
      exact ⟨s₀, hs₀, hcont₁.trans hcont₀⟩

theorem rank_received (s : Slot) (now count : Nat) : 1 ≤ (received s now count).state.rank := by
  cases hstate : s.state <;> by_cases hcount : count = 0 <;>
    simp [received, hstate, hcount, Slot.advance, Slot.touch, Slot.count, SlotState.canEnter, SlotState.rank]

theorem seats_engineerFrame (p : Pair) (m : Moment) (id : SlotId) (f : Frame) :
    (p.act (m, .engineerFrame id f)).slots.slots.map Slot.seat = p.slots.slots.map Slot.seat := by
  cases hs : p.slots.find? id with
  | none => simp only [act, fromEngineer, hs]
  | some s =>
    obtain ⟨note, _, _, _, ⟨heq, _⟩ | ⟨heq, _⟩⟩ := fromEngineer_cases hs m f
    · simp only [act, heq]
      exact SlotTable.seats_modify fun s => (checkedSlot_continues _ note s).seat
    · simp only [act, heq]
      rw [SlotTable.seats_resetGates]
      exact SlotTable.seats_modify fun s => (checkedSlot_continues _ note s).seat

theorem seats_frames {p : Pair} {m : Moment} {id : SlotId} (rest : List (Moment × Move))
    (h : ∀ b ∈ rest, ∃ g, b = (m, .engineerFrame id g)) :
    (p.replay rest).slots.slots.map Slot.seat = p.slots.slots.map Slot.seat := by
  induction rest using List.reverseRecOn with
  | nil => rfl
  | append_singleton rest b ih =>
    obtain ⟨g, rfl⟩ := h b (List.mem_append_right rest List.mem_cons_self)
    rw [replay_snoc, seats_engineerFrame]
    exact ih fun b hb => h b (List.mem_append_left _ hb)

/-- The slot whose frame is handled is in the table, and it is an engineer's and open. -/
theorem slot_of_engineerFrame {c : Setup} {events : List (Moment × Event)} {moves : List (Moment × Move)} {m : Moment}
    {id : SlotId} {f : Frame} (h : moves ++ [(m, .engineerFrame id f)] <+: c.pair.trace events) :
    ∃ s, (c.pair.replay moves).slots.find? id = some s ∧ s.role = .engineer ∧ s.state ≠ .new := by
  have hwf := wellFormed_replay c moves
  obtain ⟨before, count, rest, s₀, rfl, hfind, hrole, hrest⟩ := batch_of_engineerFrame h
  obtain ⟨hmem, hid₀⟩ := SlotTable.mem_of_find? hfind
  rw [replay_append, replay_cons] at hwf ⊢
  -- No id has gone since the batch arrived.
  have hpresent : id ∈ ((((c.pair.replay before).act (m, .arrival id count)).replay rest).slots.slots.map (·.id)) := by
    rw [SlotTable.ids_of_seats (seats_frames rest hrest)]
    have hids : ((c.pair.replay before).act (m, .arrival id count)).slots.slots.map (·.id) =
        (c.pair.replay before).slots.slots.map (·.id) :=
      SlotTable.ids_of_seats (SlotTable.seats_modify fun s => (received_continues s m.now count).1.seat)
    rw [hids, ← hid₀]
    exact List.mem_map_of_mem hmem
  obtain ⟨s, hs, hid⟩ := List.mem_map.mp hpresent
  obtain ⟨s₁, hs₁, hcont⟩ := continues_of_frames rest hrest hs
  obtain ⟨s₂, hs₂, hreceived⟩ := SlotTable.mem_modify.mp hs₁
  have hcont₂ := (received_continues s₂ m.now count).1
  have hid₂ : s₂.id = id := by
    rw [← hid, hcont.id, ← hreceived]
    split
    · exact hcont₂.id.symm
    · rfl
  obtain rfl := (wellFormed_replay c before).eq_of_id hs₂ hmem (hid₂.trans hid₀.symm)
  rw [if_pos hid₂] at hreceived
  subst hreceived
  -- States only advance, and the arrival of the batch has taken the slot past the new one.
  refine ⟨s, hid ▸ hwf.find?_of_mem hs, hcont.role.trans (hcont₂.role.trans hrole), ?_⟩
  intro hnew
  have hrank := Nat.le_trans (rank_received s₂ m.now count) hcont.rank
  rw [hnew] at hrank
  exact absurd hrank (by decide)

/-! ## Authenticated engineers -/

/-- An engineer that is authenticated after a move was so before, or has sent the good frame that the move handles; the
secret is the same as before in either case. -/
theorem Turn.authenticated {p q : Pair} {b : Moment × Move} (h : Turn p b q) (hwf : p.slots.WellFormed) {s : Slot}
    (hs : s ∈ q.slots.slots) (hrole : s.role = .engineer) (htrust : s.trust = .authenticated) :
    ¬p.Rotates b ∧ q.key.map (·.secret) = p.key.map (·.secret) ∧
      ∃ s₀ ∈ p.slots.slots, s.Continues s₀ ∧
        (s₀.trust = .authenticated ∨
          ∃ f, b.2 = .engineerFrame s.id f ∧ (s₀.gate.judge f p.key).1.isGood = true) := by
  have hkept {s₀ : Slot} (hgate : s.gate = s₀.gate) : s₀.trust = .authenticated := by
    rw [Slot.trust, ← hgate]
    exact htrust
  cases h with
  | kept gates secret stays =>
    obtain ⟨s₀, hs₀, hcont, hgate⟩ := gates s hs
    exact ⟨stays, secret, s₀, hs₀, hcont, .inl (hkept hgate)⟩
  | admitted new fresh _ gates secret stays =>
    rcases gates s hs with rfl | ⟨s₀, hs₀, hcont, hgate⟩
    · rw [Slot.trust, fresh] at htrust
      cases htrust
    · rcases secret with secret | hnone
      · exact ⟨stays, secret, s₀, hs₀, hcont, .inl (hkept hgate)⟩
      · exact absurd (hcont.role ▸ hrole) (SlotTable.engineerCount_eq_zero_iff.mp hnone _ hs₀)
  | @checked id f sender hb hfind gates secret stays =>
    obtain ⟨s₀, hs₀, hcont, hgate⟩ := gates s hs
    refine ⟨stays, secret, s₀, hs₀, hcont, ?_⟩
    obtain ⟨hsender, hid⟩ := SlotTable.mem_of_find? hfind
    by_cases hsame : s₀.id = id
    · obtain rfl := hwf.eq_of_id hs₀ hsender (hsame.trans hid.symm)
      rw [Slot.trust, hgate, if_pos hsame, Gate.check_trust, Trust.after_eq_authenticated_iff] at htrust
      rcases htrust with htrust | hgood
      · exact .inl htrust
      · exact .inr ⟨f, by rw [hb, hcont.id, hsame], hgood⟩
    · rw [if_neg hsame] at hgate
      exact .inl (hkept hgate)
  | rotated _ _ _ _ gates =>
    obtain ⟨_, _, _, hnew⟩ := gates s hs
    rw [Slot.trust, hnew hrole] at htrust
    cases htrust

/-! ## A small setup -/

/-- One engineer, and a store that does not answer, so that the key given stays. -/
def Setup.offline (key : Option SigningKey) : Setup where
  port1 := 1
  port2 := 2
  idleTimeout := 10000
  maxEngineers := 1
  policy := .rejectNew
  key := key
  store := { running := false }

def heartbeat : Frame :=
  (⟨MessageId.heartbeat, 0, 1, 1, heartbeatPayload⟩ : Message).frame 50 (by decide) (by decide) rfl

theorem version_heartbeat : heartbeat.version = .v2 := rfl

end GatedRelay.Pair
