import GatedRelay.Proofs.Pair.Settling
import Mathlib.Algebra.BigOperators.Group.List.Basic

/-!
# The books balance

All along a run, the shares in the table and those that were entered in the record are the shares of all slots that were
admitted: each slot is entered once, with what it received while it was in the table.  A pair that has quit has no slot
left, so everything is in the record then.
-/

set_option autoImplicit false

namespace GatedRelay

namespace Pair

def admissions (p : Pair) : List (Moment × Move) → List (SlotId × Role)
  | [] => []
  | b :: rest => p.admission b ++ (p.act b).admissions rest

def framesOf (p : Pair) (id : SlotId) : List (Moment × Move) → Nat
  | [] => 0
  | b :: rest => p.intake b id + (p.act b).framesOf id rest

theorem admissions_snoc (p : Pair) (moves : List (Moment × Move)) (b : Moment × Move) :
    p.admissions (moves ++ [b]) = p.admissions moves ++ (p.replay moves).admission b := by
  induction moves generalizing p with
  | nil => simp [admissions]
  | cons d rest ih => rw [List.cons_append, admissions, ih, admissions, replay_cons, List.append_assoc]

theorem framesOf_snoc (p : Pair) (id : SlotId) (moves : List (Moment × Move)) (b : Moment × Move) :
    p.framesOf id (moves ++ [b]) = p.framesOf id moves + (p.replay moves).intake b id := by
  induction moves generalizing p with
  | nil => simp [framesOf]
  | cons d rest ih => rw [List.cons_append, framesOf, ih, framesOf, replay_cons, Nat.add_assoc]

/-! ## Ids -/

theorem admission_cases (p : Pair) (b : Moment × Move) :
    p.admission b = [] ∨ ∃ role, p.admission b = [(p.slots.nextId, role)] ∧ (∀ id, p.intake b id = 0) ∧
      (p.act b).slots.nextId = p.slots.nextId + 1 := by
  obtain ⟨m, move⟩ := b
  cases move with
  | connect role transport peer =>
    have hadmission : p.admission (m, .connect role transport peer) =
        (p.connect m role transport peer).2.toList.map (·, role) := rfl
    have hact : p.act (m, .connect role transport peer) = (p.connect m role transport peer).1 := rfl
    rcases p.connect_cases m role transport peer with ⟨hnone, _⟩ | ⟨a, q, key, ha, hconnect, hq, _⟩
    · left
      rw [hadmission, hnone]
      rfl
    · obtain ⟨hid, gone, htable, _⟩ := SlotTable.accept_eq_ok ha
      refine .inr ⟨role, ?_, fun _ => rfl, ?_⟩
      · rw [hadmission, hconnect, ← hid]
        rfl
      · rw [hact, hconnect, hq.slots, htable]
        rfl
  | _ => exact .inl rfl

theorem admissions_lt {p : Pair} {moves : List (Moment × Move)} {a : SlotId × Role} (h : a ∈ p.admissions moves) :
    a.1 < (p.replay moves).slots.nextId := by
  induction moves using List.reverseRecOn with
  | nil => cases h
  | append_singleton moves b ih =>
    rw [replay_snoc]
    rw [admissions_snoc] at h
    rcases List.mem_append.mp h with hbefore | hnew
    · exact Nat.lt_of_lt_of_le (ih hbefore) (nextId_act _ b)
    · rcases (p.replay moves).admission_cases b with hnone | ⟨role, hone, _, hnext⟩
      · rw [hnone] at hnew
        cases hnew
      · rw [hone, List.mem_singleton] at hnew
        rw [hnew, hnext]
        exact Nat.lt_succ_self _

theorem nodup_admissions (p : Pair) (moves : List (Moment × Move)) : ((p.admissions moves).map Prod.fst).Nodup := by
  induction moves using List.reverseRecOn with
  | nil => exact List.nodup_nil
  | append_singleton moves b ih =>
    rw [admissions_snoc, List.map_append]
    rcases (p.replay moves).admission_cases b with hnone | ⟨role, hone, _⟩
    · rw [hnone]
      simpa using ih
    · rw [hone]
      refine List.nodup_append.mpr ⟨ih, List.nodup_singleton _, ?_⟩
      intro id hid next hnext
      obtain ⟨a, ha, rfl⟩ := List.mem_map.mp hid
      obtain rfl := List.mem_singleton.mp hnext
      exact Nat.ne_of_lt (admissions_lt ha)

theorem intake_of_absent {p : Pair} {id : SlotId} (h : ∀ s ∈ p.slots.slots, s.id ≠ id) (b : Moment × Move) :
    p.intake b id = 0 := by
  obtain ⟨m, move⟩ := b
  cases move with
  | arrival slot count =>
    refine if_neg fun hfound => ?_
    obtain ⟨s, hs⟩ := Option.isSome_iff_exists.mp hfound.2
    obtain ⟨hmem, hid⟩ := SlotTable.mem_of_find? hs
    exact h s hmem hid
  | _ => rfl

theorem framesOf_of_next_le (c : Setup) {moves : List (Moment × Move)} {id : SlotId}
    (h : (c.pair.replay moves).slots.nextId ≤ id) : c.pair.framesOf id moves = 0 := by
  induction moves using List.reverseRecOn with
  | nil => rfl
  | append_singleton moves b ih =>
    rw [replay_snoc] at h
    have hbefore := Nat.le_trans (nextId_act _ b) h
    rw [framesOf_snoc, ih hbefore]
    refine (Nat.zero_add _).trans (intake_of_absent ?_ b)
    intro s hs
    exact Nat.ne_of_lt (Nat.lt_of_lt_of_le ((wellFormed_replay c moves).lt_next s hs) hbefore)

/-! ## Accounts -/

/-- What a slot's tally shows after some frames. -/
def shareOf (a : SlotId × Role) (frames : Nat) : Share := ⟨a.1, a.2, UInt32.ofNat (min frames (UInt32.size - 1))⟩

theorem toNat_min (n : Nat) : (UInt32.ofNat (min n (UInt32.size - 1))).toNat = min n (UInt32.size - 1) :=
  UInt32.toNat_ofNat_of_lt' (Nat.lt_of_le_of_lt (Nat.min_le_right _ _) (by decide))

theorem count_shareOf {n : Nat} (h : n < UInt32.size) (a : SlotId × Role) (frames : Nat) :
    (shareOf a frames).count n = shareOf a (frames + n) := by
  have hsum : min (min frames (UInt32.size - 1) + n) (UInt32.size - 1) = min (frames + n) (UInt32.size - 1) := by
    omega
  rw [Share.count, shareOf, toNat_min, Nat.mod_eq_of_lt h, hsum]
  rfl

def accounts (p : Pair) (moves : List (Moment × Move)) : List Share :=
  (p.admissions moves).map fun a => shareOf a (p.framesOf a.1 moves)

theorem map_id_accounts (p : Pair) (moves : List (Moment × Move)) :
    (p.accounts moves).map Share.id = (p.admissions moves).map Prod.fst := by
  rw [accounts, List.map_map]
  rfl

theorem accounts_snoc (c : Setup) (moves : List (Moment × Move)) {b : Moment × Move}
    (hb : ∀ id, (c.pair.replay moves).intake b id < UInt32.size) :
    c.pair.accounts (moves ++ [b]) =
      (c.pair.accounts moves).map (fun x => x.count ((c.pair.replay moves).intake b x.id)) ++
        ((c.pair.replay moves).admission b).map fun a => ⟨a.1, a.2, 0⟩ := by
  rw [accounts, admissions_snoc, List.map_append, accounts, List.map_map]
  congr 1
  · apply List.map_congr_left
    intro a _
    rw [framesOf_snoc]
    exact (count_shareOf (hb a.1) a _).symm
  · apply List.map_congr_left
    intro a ha
    rcases (c.pair.replay moves).admission_cases b with hnone | ⟨role, hone, hintake, _⟩
    · rw [hnone] at ha
      cases ha
    · rw [hone, List.mem_singleton] at ha
      subst ha
      rw [framesOf_snoc, framesOf_of_next_le c (Nat.le_refl _), hintake]
      rfl

/-- Some shares have been entered in the record, and with those in the table they are the shares of all slots. -/
structure Balanced (c : Setup) (r : Credential) (moves : List (Moment × Move)) (gone : List Share) : Prop where
  idle : (c.pair.replay moves).Idle
  releases : Effect.releases (c.pair.replay moves).history = (gone.map Share.id).reverse
  accounts : ((c.pair.replay moves).slots.shares ++ gone).Perm (c.pair.accounts moves)
  tallies : ¬(c.pair.replay moves).DropsWrite →
    ∃ r', (c.pair.replay moves).record? = some r' ∧ r'.tallies = r.tallies.enterEach gone

structure Fair (p : Pair) (b : Moment × Move) : Prop where
  intake : ∀ id, p.intake b id < UInt32.size
  others : ∀ change, b.2 = .storeChange change → p.Settles (p.act b) []

theorem Balanced.act {c : Setup} {r : Credential} {moves : List (Moment × Move)} {gone : List Share}
    (h : Balanced c r moves gone) {b : Moment × Move} (hb : (c.pair.replay moves).Fair b) :
    ∃ due, Balanced c r (moves ++ [b]) (gone ++ due) := by
  obtain ⟨due, hsettles, hshares⟩ := settles_act (wellFormed_replay c moves) b hb.others
  obtain ⟨es, hhistory, hes⟩ := hsettles.history
  refine ⟨due, ?_, ?_, ?_, ?_⟩
  · rw [replay_snoc]
    exact hsettles.idle h.idle
  · rw [replay_snoc, hhistory, Effect.releases_append, hes, h.releases, List.map_append, List.reverse_append]
  · have hnodup : (((c.pair.replay moves).slots.shares ++ gone).map Share.id).Nodup := by
      rw [(h.accounts.map Share.id).nodup_iff, map_id_accounts]
      exact c.pair.nodup_admissions moves
    -- A slot that is gone receives nothing any more.
    have hgone : gone.map (fun x => x.count ((c.pair.replay moves).intake b x.id)) = gone := by
      apply (List.map_congr_left ?_).trans (List.map_id gone)
      intro x hx
      have habsent (s) (hs : s ∈ (c.pair.replay moves).slots.slots) : s.id ≠ x.id := by
        rw [List.map_append, SlotTable.map_id_shares] at hnodup
        exact (List.nodup_append.mp hnodup).2.2 _ (List.mem_map_of_mem hs) _ (List.mem_map_of_mem hx)
      rw [intake_of_absent habsent b, Share.count_zero]
      rfl
    rw [replay_snoc, accounts_snoc c moves hb.intake]
    have hcounted := h.accounts.map fun x => x.count ((c.pair.replay moves).intake b x.id)
    rw [List.map_append, hgone] at hcounted
    let live := ((c.pair.replay moves).act b).slots.shares
    let new : List Share := ((c.pair.replay moves).admission b).map fun a => ⟨a.1, a.2, 0⟩
    calc
      live ++ (gone ++ due)
      List.Perm _ (live ++ due ++ gone) := by
        rw [List.append_assoc]
        exact List.perm_append_comm.append_left live
      List.Perm _ ((c.pair.replay moves).sharesWith b ++ new ++ gone) := hshares.append_right gone
      List.Perm _ ((c.pair.replay moves).sharesWith b ++ gone ++ new) := by
        rw [List.append_assoc, List.append_assoc]
        exact List.perm_append_comm.append_left _
      List.Perm _ ((c.pair.accounts moves).map (fun x => x.count ((c.pair.replay moves).intake b x.id)) ++ new) :=
        hcounted.append_right new
  · intro hkept
    rw [replay_snoc] at hkept ⊢
    have hbefore : ¬(c.pair.replay moves).DropsWrite := by
      intro hdropped
      apply hkept
      rw [DropsWrite, hhistory]
      exact List.mem_append_right es hdropped
    obtain ⟨r₁, hr₁, hentered₁⟩ := h.tallies hbefore
    obtain ⟨r₂, hr₂, hentered₂⟩ := hsettles.tallies h.idle hkept r₁ hr₁
    exact ⟨r₂, hr₂, by rw [hentered₂, hentered₁, Tallies.enterEach_append]⟩

theorem Balanced.replay {c : Setup} {r : Credential} {moves : List (Moment × Move)} {gone : List Share}
    (h : Balanced c r moves gone) {later : List (Moment × Move)}
    (hlater : ∀ front b, front ++ [b] <+: later → ((c.pair.replay moves).replay front).Fair b) :
    ∃ due, Balanced c r (moves ++ later) (gone ++ due) := by
  induction later using List.reverseRecOn with
  | nil => exact ⟨[], by simpa using h⟩
  | append_singleton later b ih =>
    obtain ⟨due, hbefore⟩ := ih fun front d hpart => hlater front d (hpart.trans (List.prefix_append later [b]))
    have hfair := hlater later b (List.prefix_refl _)
    rw [← replay_append] at hfair
    obtain ⟨due', hafter⟩ := hbefore.act hfair
    rw [List.append_assoc, List.append_assoc] at hafter
    exact ⟨_, hafter⟩

/-! ## Events -/

theorem intake_lt {p q : Pair} {m : Moment} {e : Event} (he : e.frameCount < UInt32.size) {move : Move}
    (h : move ∈ p.liveMoves m e) (id : SlotId) : q.intake (m, move) id < UInt32.size := by
  have hzero : 0 < UInt32.size := Nat.zero_lt_of_lt he
  rcases p.liveMoves_cases m e with ⟨single, hsingle, hone⟩ | ⟨_, hbatch⟩
  · rw [hone, List.mem_singleton] at h
    subst h
    cases e with
    | frames | datagram => cases hsingle
    | _ =>
      cases hsingle
      exact hzero
  · cases hbatch move h with
    | arrival slot =>
      unfold intake
      simp only
      split
      · exact he
      · exact hzero
    | _ => exact hzero

theorem liveMoves_of_storeChange {p : Pair} {m : Moment} {e : Event} {change : Service → Service}
    (h : .storeChange change ∈ p.liveMoves m e) : e.concernsStore = true ∧ p.liveMoves m e = [.storeChange change] := by
  rcases p.liveMoves_cases m e with ⟨single, hsingle, hone⟩ | ⟨_, hbatch⟩
  · rw [hone, List.mem_singleton] at h
    subst h
    refine ⟨?_, hone⟩
    cases e with
    | storeWrite | storeChange | storeQuit => rfl
    | _ => cases hsingle
  · cases hbatch _ h

/-- There is a record afterwards if there was one before, and its tallies are the same. -/
def KeepsTallies (p q : Pair) : Prop := ∀ r, p.record? = some r → ∃ r', q.record? = some r' ∧ r'.tallies = r.tallies

theorem fair_moves {p : Pair} {m : Moment} {e : Event} (hframes : e.frameCount < UInt32.size)
    (hothers : e.concernsStore = true → p.KeepsTallies (p.step m e)) {front : List (Moment × Move)} {b : Moment × Move}
    (hpart : front ++ [b] <+: p.moves m e) : (p.replay front).Fair b := by
  have hstep := p.replay_moves m e
  have hmem := hpart.subset (List.mem_append_right front List.mem_cons_self)
  unfold moves at hpart hmem hstep
  split at hmem
  · rename_i hlive
    rw [if_pos hlive] at hpart hstep
    obtain ⟨move, hmove, rfl⟩ := List.mem_map.mp hmem
    refine ⟨intake_lt hframes hmove, ?_⟩
    rintro change rfl
    obtain ⟨hconcerns, honly⟩ := liveMoves_of_storeChange hmove
    rw [honly] at hpart hstep
    have hlength := hpart.length_le
    simp only [List.length_append, List.length_cons, List.length_nil, List.length_map] at hlength
    obtain rfl := List.length_eq_zero_iff.mp (Nat.le_zero.mp (Nat.le_of_succ_le_succ hlength))
    rw [List.map_singleton, replay_cons, replay_nil] at hstep
    rw [replay_nil]
    have hkeeps := hothers hconcerns
    rw [← hstep] at hkeeps
    exact ⟨rfl, ⟨[], rfl, rfl⟩, fun hp => idle_of_storeChange hmove hp, fun _ _ => hkeeps⟩
  · cases hmem

inductive Untouched : Pair → List (Moment × Event) → Prop where
  | nil {p : Pair} : Untouched p []
  | own {p : Pair} {m : Moment} {e : Event} {rest : List (Moment × Event)} (own : e.concernsStore = false)
      (later : Untouched (p.step m e) rest) : Untouched p ((m, e) :: rest)
  | others {p : Pair} {m : Moment} {e : Event} {rest : List (Moment × Event)} (kept : p.KeepsTallies (p.step m e))
      (later : Untouched (p.step m e) rest) : Untouched p ((m, e) :: rest)

theorem untouched_of_own {p : Pair} {events : List (Moment × Event)} (h : ∀ b ∈ events, b.2.concernsStore = false) :
    Untouched p events := by
  induction events generalizing p with
  | nil => exact .nil
  | cons b rest ih => exact .own (h b List.mem_cons_self) (ih fun d hd => h d (List.mem_cons_of_mem b hd))

theorem Untouched.append {p : Pair} {events later : List (Moment × Event)} (h : Untouched p events)
    (hlater : Untouched (p.run events) later) : Untouched p (events ++ later) := by
  induction h with
  | nil => exact hlater
  | own own _ ih => exact .own own (ih hlater)
  | others kept _ ih => exact .others kept (ih hlater)

theorem Balanced.step {c : Setup} {r : Credential} {moves : List (Moment × Move)} {gone : List Share}
    (h : Balanced c r moves gone) {m : Moment} {e : Event} (hframes : e.frameCount < UInt32.size)
    (hothers : e.concernsStore = true → (c.pair.replay moves).KeepsTallies ((c.pair.replay moves).step m e)) :
    ∃ due, Balanced c r (moves ++ (c.pair.replay moves).moves m e) (gone ++ due) ∧
      c.pair.replay (moves ++ (c.pair.replay moves).moves m e) = (c.pair.replay moves).step m e := by
  obtain ⟨due, hafter⟩ := h.replay fun front b hpart => fair_moves hframes hothers hpart
  exact ⟨due, hafter, by rw [replay_append, replay_moves]⟩

theorem Balanced.run {c : Setup} {r : Credential} {moves : List (Moment × Move)} {gone : List Share}
    (h : Balanced c r moves gone) {events : List (Moment × Event)}
    (hothers : Untouched (c.pair.replay moves) events) (hframes : ∀ b ∈ events, b.2.frameCount < UInt32.size) :
    ∃ due, Balanced c r (moves ++ (c.pair.replay moves).trace events) (gone ++ due) := by
  induction events generalizing moves gone with
  | nil => exact ⟨[], by simpa [trace] using h⟩
  | cons b rest ih =>
    obtain ⟨m, e⟩ := b
    have hnow : (e.concernsStore = true → (c.pair.replay moves).KeepsTallies ((c.pair.replay moves).step m e)) ∧
        Untouched ((c.pair.replay moves).step m e) rest := by
      cases hothers with
      | own hown later => exact ⟨fun h => absurd (hown.symm.trans h) Bool.false_ne_true, later⟩
      | others kept later => exact ⟨fun _ => kept, later⟩
    obtain ⟨due, hafter, hstate⟩ := h.step (hframes _ List.mem_cons_self) hnow.1
    rw [← hstate] at hnow
    obtain ⟨due', hend⟩ := ih hafter hnow.2 fun d hd => hframes d (List.mem_cons_of_mem _ hd)
    rw [hstate, List.append_assoc, List.append_assoc] at hend
    exact ⟨due ++ due', hend⟩

/-! ## The end -/

theorem live_act {p : Pair} {b : Moment × Move} (hb : b.2 ≠ .quit) : (p.act b).live = p.live := by
  obtain ⟨m, move⟩ := b
  cases move with
  | connect role transport peer =>
    rcases p.connect_cases m role transport peer with ⟨_, hq⟩ | ⟨a, q, key, _, hconnect, hq, _⟩
    · exact hq.live
    · simp only [act, hconnect]
      exact hq.live
  | established id =>
    rcases p.booked_established m id with hq | hq
    · exact hq.live
    · exact hq.live
  | userFrame f => simp only [act, fromUser_eq]
  | engineerFrame id f =>
    cases hs : p.slots.find? id with
    | none => simp only [act, fromEngineer, hs]
    | some s =>
      obtain ⟨_, _, _, _, ⟨heq, _⟩ | ⟨heq, _⟩⟩ := fromEngineer_cases hs m f
      · simp only [act, heq]
      · simp only [act, heq]
  | disconnected id => exact (p.booked_closeSlot id).live
  | sweep =>
    obtain ⟨q, key, hq, hsweep, _⟩ := p.sweep_cases m
    simp only [act, hsweep]
    exact hq.live
  | quit => exact absurd rfl hb
  | _ => rfl

theorem live_replay {p : Pair} {moves : List (Moment × Move)} (h : ∀ b ∈ moves, b.2 ≠ .quit) :
    (p.replay moves).live = p.live := by
  induction moves generalizing p with
  | nil => rfl
  | cons b rest ih =>
    rw [replay_cons, ih fun d hd => h d (List.mem_cons_of_mem b hd)]
    exact live_act (h b List.mem_cons_self)

theorem live_step {p : Pair} (hlive : p.live = true) {e : Event} (he : e ≠ .quit) (m : Moment) :
    (p.step m e).live = true := by
  rw [← replay_moves, ← hlive]
  apply live_replay
  rintro ⟨_, move⟩ hb rfl
  obtain ⟨move, hmove, heq⟩ := mem_moves hb
  obtain rfl : move = .quit := (congrArg Prod.snd heq).symm
  rcases p.liveMoves_cases m e with ⟨single, hsingle, hone⟩ | ⟨_, hbatch⟩
  · rw [hone, List.mem_singleton] at hmove
    subst hmove
    cases e with
    | quit => exact he rfl
    | _ => cases hsingle
  · cases hbatch _ hmove

theorem shares_of_ended (c : Setup) (events : List (Moment × Event)) (h : (c.pair.run events).live = false) :
    (c.pair.run events).slots.shares = [] := by
  induction events using List.reverseRecOn with
  | nil => cases h
  | append_singleton events b ih =>
    obtain ⟨m, e⟩ := b
    have hrun : c.pair.run (events ++ [(m, e)]) = (c.pair.run events).step m e := List.foldl_append
    rw [hrun] at h ⊢
    cases hlive : (c.pair.run events).live with
    | true =>
      by_cases hquit : e = .quit
      · have hstep : (c.pair.run events).step m e = (c.pair.run events).shutdown := by
          subst hquit
          exact if_pos hlive
        rw [hstep, (booked_shutdown _).slots]
        exact SlotTable.shares_without_ids _
      · rw [live_step hlive hquit] at h
        cases h
    | false =>
      have hslots : ((c.pair.run events).step m e).slots = (c.pair.run events).slots := by
        unfold step
        rw [hlive, if_neg Bool.false_ne_true]
        cases e <;> rfl
      rw [hslots]
      exact ih hlive

/-- The frames that all slots of a role have received.  Of each slot no more are counted than its tally can hold. -/
def countedFrames (p : Pair) (role : Role) (moves : List (Moment × Move)) : Nat :=
  (((p.admissions moves).filter (·.2 = role)).map fun a => min (p.framesOf a.1 moves) (UInt32.size - 1)).sum

theorem sum_map_ite {α : Type} (P : α → Prop) [DecidablePred P] (f : α → Nat) (xs : List α) :
    (xs.map fun x => if P x then f x else 0).sum = ((xs.filter P).map f).sum := by
  rw [List.sum_map_ite]
  simp

theorem sum_accounts (p : Pair) (role : Role) (moves : List (Moment × Move)) :
    ((p.accounts moves).map fun x => if x.role = role then x.messages.toNat else 0).sum = p.countedFrames role moves := by
  rw [accounts, List.map_map, countedFrames, ← sum_map_ite]
  congr 1
  apply List.map_congr_left
  intro a _
  simp only [Function.comp_apply, shareOf, toNat_min]

theorem sum_users (p : Pair) (moves : List (Moment × Move)) :
    ((p.accounts moves).map fun x => if x.role = .user then 1 else 0).sum =
      ((p.admissions moves).filter (·.2 = .user)).length := by
  have hones := sum_map_ite (fun a : SlotId × Role => a.2 = .user) (fun _ => 1) (p.admissions moves)
  have hlength (xs : List (SlotId × Role)) : (xs.map fun _ => 1).sum = xs.length := by simp
  rw [hlength] at hones
  rw [← hones, accounts, List.map_map]
  rfl

/-- From spawn to quit, a record that is there throughout and whose tallies nobody else changes grows by what the slots
have received: `count1` by the frames of users, `count2` by those of engineers, and `connections` by the users.  Every
slot that was admitted is released once. -/
theorem sessions_add_up (c : Setup) (events : List (Moment × Event)) {r : Credential}
    (hidle : c.store.database.saved = none) (hr : c.pair.record? = some r)
    (hothers : Untouched c.pair events)
    (hkept : ¬(c.pair.run events).DropsWrite) (hframes : ∀ b ∈ events, b.2.frameCount < UInt32.size)
    (hquit : (c.pair.run events).live = false) :
    (∃ r', (c.pair.run events).record? = some r' ∧
      r'.count1.toNat = (r.count1.toNat + c.pair.countedFrames .user (c.pair.trace events)) % UInt32.size ∧
      r'.count2.toNat = (r.count2.toNat + c.pair.countedFrames .engineer (c.pair.trace events)) % UInt32.size ∧
      r'.connections.toNat =
        (r.connections.toNat + ((c.pair.admissions (c.pair.trace events)).filter (·.2 = .user)).length) %
          UInt32.size) ∧
    (Effect.releases (c.pair.run events).history).Perm ((c.pair.admissions (c.pair.trace events)).map Prod.fst) ∧
    (Effect.releases (c.pair.run events).history).Nodup := by
  have hstart : Balanced c r [] [] := ⟨hidle, rfl, .refl _, fun _ => ⟨r, hr, rfl⟩⟩
  obtain ⟨gone, hbalanced⟩ : ∃ gone, Balanced c r (c.pair.trace events) gone := hstart.run hothers hframes
  have hreplay := c.pair.replay_trace events
  have hall : gone.Perm (c.pair.accounts (c.pair.trace events)) := by
    have haccounts := hbalanced.accounts
    rwa [hreplay, shares_of_ended c events hquit, List.nil_append] at haccounts
  have hreleased : (Effect.releases (c.pair.run events).history).Perm
      ((c.pair.admissions (c.pair.trace events)).map Prod.fst) := by
    rw [← hreplay, hbalanced.releases, ← map_id_accounts]
    exact (List.reverse_perm _).trans (hall.map Share.id)
  refine ⟨?_, hreleased, hreleased.nodup_iff.mpr (c.pair.nodup_admissions _)⟩
  rw [← hreplay] at hkept
  obtain ⟨r', hr', htallies⟩ := hbalanced.tallies hkept
  have h1 := r.tallies.toNat_enterEach Tallies.toNat_count1_enter gone
  have h2 := r.tallies.toNat_enterEach Tallies.toNat_count2_enter gone
  have hconnections := r.tallies.toNat_enterEach Tallies.toNat_connections_enter gone
  rw [← htallies, (hall.map _).sum_eq, sum_accounts] at h1 h2
  rw [← htallies, (hall.map _).sum_eq, sum_users] at hconnections
  exact ⟨r', hreplay ▸ hr', h1, h2, hconnections⟩

/-! ## A run in which slots end in every way -/

def Setup.counting : Setup := { Setup.recorded with policy := .replaceExisting }

/-- A user is replaced, its connection is closed twice, an engineer is refused, and another one is swept away. -/
def countedRun : List (Moment × Event) :=
  [(⟨0, 0⟩, .connect .user .tcp "user"), (⟨1, 0⟩, .frames 1 [heartbeat, heartbeat]),
    (⟨2, 0⟩, .datagram .engineer "engineer" [heartbeat]), (⟨3, 0⟩, .connect .engineer .tcp "late"),
    (⟨4, 0⟩, .connect .user .tcp "next"), (⟨5, 0⟩, .frames 1 [heartbeat]), (⟨6, 0⟩, .disconnected 1),
    (⟨7, 0⟩, .disconnected 1)]

def countedLater : List (Moment × Event) :=
  [(⟨8, 0⟩, .storeWrite (.setName 2 "relay")), (⟨9, 0⟩, .frames 3 [heartbeat]), (⟨10_005, 0⟩, .sweep),
    (⟨10_006, 0⟩, .quit)]

theorem keepsTallies_rename :
    (Setup.counting.pair.run countedRun).KeepsTallies
      ((Setup.counting.pair.run countedRun).step ⟨8, 0⟩ (.storeWrite (.setName 2 "relay"))) := by
  intro r hr
  have hbefore : (Setup.counting.pair.run countedRun).record?.map (·.tallies) = some ⟨2, 0, 1⟩ := by decide +kernel
  have hafter : ((Setup.counting.pair.run countedRun).step ⟨8, 0⟩ (.storeWrite (.setName 2 "relay"))).record?.map
      (·.tallies) = some ⟨2, 0, 1⟩ := by decide +kernel
  rw [hr] at hbefore
  obtain ⟨r', hr', htallies⟩ := Option.map_eq_some_iff.mp hafter
  exact ⟨r', hr', htallies.trans (Option.some.inj hbefore).symm⟩

theorem untouched_countedRun : Untouched Setup.counting.pair (countedRun ++ countedLater) :=
  (untouched_of_own (by decide)).append (.others keepsTallies_rename (untouched_of_own (by decide)))

/-- Of the four frames that a user sent three count, since one came too late. -/
theorem sessions_add_up_countedRun :
    (∃ r, (Setup.counting.pair.run (countedRun ++ countedLater)).record? = some r ∧ r.count1.toNat = 3 ∧
      r.count2.toNat = 1 ∧ r.connections.toNat = 2) ∧
    (Effect.releases (Setup.counting.pair.run (countedRun ++ countedLater)).history).Nodup := by
  have hstored : Setup.counting.pair.record? = some { port2 := 2, timestamp := 10_000_000 } := by decide +kernel
  have hkept : ¬(Setup.counting.pair.run (countedRun ++ countedLater)).DropsWrite := by
    unfold DropsWrite
    decide +kernel
  obtain ⟨⟨r, hr, h1, h2, hconnections⟩, _, hnodup⟩ :=
    sessions_add_up Setup.counting (countedRun ++ countedLater) rfl hstored untouched_countedRun hkept
      (by decide) (by decide +kernel)
  have husers : Setup.counting.pair.countedFrames .user (Setup.counting.pair.trace (countedRun ++ countedLater)) = 3 := by
    decide +kernel
  have hengineers :
      Setup.counting.pair.countedFrames .engineer (Setup.counting.pair.trace (countedRun ++ countedLater)) = 1 := by
    decide +kernel
  have hadmitted : ((Setup.counting.pair.admissions (Setup.counting.pair.trace (countedRun ++ countedLater))).filter
      (·.2 = .user)).length = 2 := by
    decide +kernel
  rw [husers] at h1
  rw [hengineers] at h2
  rw [hadmitted] at hconnections
  exact ⟨⟨r, hr, h1, h2, hconnections⟩, hnodup⟩

end Pair

end GatedRelay
