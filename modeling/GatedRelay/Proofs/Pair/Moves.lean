import GatedRelay.Pair.Session
import Mathlib.Data.List.Basic

/-!
# Runs of a pair, one frame at a time

An event may bring a batch of frames, and a pair acts on them one after the other.  A run is taken apart into moves,
each of which handles one frame at most, so that one can speak of the moment at which a frame is handled.  Replaying the
moves of a run is the run (`replay_trace`).
-/

set_option autoImplicit false

namespace GatedRelay

/-- One thing that a pair does.  A batch of frames is its arrival and then one move for every frame. -/
inductive Move where
  | connect (role : Role) (transport : Transport) (peer : Peer)
  /-- A datagram peer that has just been refused is remembered. -/
  | refuse (peer : Peer)
  /-- A datagram peer that has just been admitted is no longer remembered as refused. -/
  | welcome (peer : Peer)
  | established (slot : SlotId)
  | arrival (slot : SlotId) (count : Nat)
  | userFrame (f : Frame)
  | engineerFrame (slot : SlotId) (f : Frame)
  | disconnected (slot : SlotId)
  | sweep
  | quit
  | storeChange (change : Service → Service)

def Event.concernsStore : Event → Bool
  | .storeWrite _ => true
  | .storeChange _ => true
  | .storeQuit => true
  | _ => false

def Event.frameCount : Event → Nat
  | .frames _ fs => fs.length
  | .datagram _ _ fs => fs.length
  | _ => 0

def Event.move? : Event → Option Move
  | .connect role transport peer => some (.connect role transport peer)
  | .established id => some (.established id)
  | .frames _ _ => none
  | .datagram _ _ _ => none
  | .disconnected id => some (.disconnected id)
  | .sweep => some .sweep
  | .quit => some .quit
  | .storeWrite request => some (.storeChange (·.post request))
  | .storeChange change => some (.storeChange (·.outside change))
  | .storeQuit => some (.storeChange (·.quit))

namespace Pair

def act (p : Pair) (b : Moment × Move) : Pair :=
  match b.2 with
  | .connect role transport peer => (p.connect b.1 role transport peer).1
  | .refuse peer => { p with refused := p.refused.use peer () }
  | .welcome peer => { p with refused := p.refused.erase peer }
  | .established id => p.established b.1 id
  | .arrival id count => { p with slots := p.slots.modify id fun s => received s b.1.now count }
  | .userFrame f => p.fromUser f
  | .engineerFrame id f => p.fromEngineer b.1 id f
  | .disconnected id => p.closeSlot id
  | .sweep => p.sweep b.1
  | .quit => p.shutdown
  | .storeChange change => { p with store := change p.store }

def replay (p : Pair) (moves : List (Moment × Move)) : Pair := moves.foldl act p

def batch (p : Pair) (id : SlotId) (frames : List Frame) : List Move :=
  match p.slots.find? id with
  | none => []
  | some s =>
    .arrival id frames.length :: match s.role with
      | .user => frames.map .userFrame
      | .engineer => frames.map (.engineerFrame id)

def liveMoves (p : Pair) (m : Moment) : Event → List Move
  | .connect role transport peer => [.connect role transport peer]
  | .established id => [.established id]
  | .frames id frames => p.batch id frames
  | .datagram role peer frames =>
    match p.slots.findUdp? role peer with
    | some s => p.batch s.id frames
    | none =>
      if p.refused.contains peer && !p.slots.hasRoom role then []
      else
        match p.connect m role .udp peer with
        | (_, none) => [.connect role .udp peer, .refuse peer]
        | (q, some id) => .connect role .udp peer :: .welcome peer :: q.batch id frames
  | .disconnected id => [.disconnected id]
  | .sweep => [.sweep]
  | .quit => [.quit]
  | .storeWrite request => [.storeChange (·.post request)]
  | .storeChange change => [.storeChange (·.outside change)]
  | .storeQuit => [.storeChange (·.quit)]

def moves (p : Pair) (m : Moment) (e : Event) : List (Moment × Move) :=
  if p.live || e.concernsStore then (p.liveMoves m e).map (m, ·) else []

def trace (p : Pair) : List (Moment × Event) → List (Moment × Move)
  | [] => []
  | (m, e) :: rest => p.moves m e ++ (p.step m e).trace rest

@[simp] theorem replay_nil (p : Pair) : p.replay [] = p := rfl

@[simp] theorem replay_cons (p : Pair) (b : Moment × Move) (rest : List (Moment × Move)) :
    p.replay (b :: rest) = (p.act b).replay rest := rfl

theorem replay_append (p : Pair) (xs ys : List (Moment × Move)) : p.replay (xs ++ ys) = (p.replay xs).replay ys :=
  List.foldl_append

@[simp] theorem replay_snoc (p : Pair) (xs : List (Moment × Move)) (b : Moment × Move) :
    p.replay (xs ++ [b]) = (p.replay xs).act b := by
  rw [replay_append]
  rfl

@[simp] theorem act_engineerFrame (p : Pair) (m : Moment) (id : SlotId) (f : Frame) :
    p.act (m, .engineerFrame id f) = p.fromEngineer m id f := rfl

theorem replay_batch (p : Pair) (m : Moment) (id : SlotId) (frames : List Frame) :
    p.replay ((p.batch id frames).map (m, ·)) = p.handleFrames m id frames := by
  cases hs : p.slots.find? id with
  | none => simp [batch, handleFrames, hs]
  | some s =>
    cases hrole : s.role with
    | user =>
      simp only [batch, handleFrames, hs, hrole, List.map_cons, List.map_map, replay_cons]
      exact List.foldl_map
    | engineer =>
      simp only [batch, handleFrames, hs, hrole, List.map_cons, List.map_map, replay_cons]
      exact List.foldl_map

theorem mem_batch {p : Pair} {id : SlotId} {frames : List Frame} {b : Move} (h : b ∈ p.batch id frames) :
    b = .arrival id frames.length ∨ ∃ f, b = .userFrame f ∨ b = .engineerFrame id f := by
  cases hs : p.slots.find? id with
  | none => simp [batch, hs] at h
  | some s =>
    simp only [batch, hs, List.mem_cons] at h
    refine h.imp_right fun hframe => ?_
    cases hrole : s.role with
    | user =>
      rw [hrole] at hframe
      obtain ⟨f, _, rfl⟩ := List.mem_map.mp hframe
      exact ⟨f, .inl rfl⟩
    | engineer =>
      rw [hrole] at hframe
      obtain ⟨f, _, rfl⟩ := List.mem_map.mp hframe
      exact ⟨f, .inr rfl⟩

inductive InBatch (count : Nat) : Move → Prop where
  | connect (role : Role) (peer : Peer) : InBatch count (.connect role .udp peer)
  | refuse (peer : Peer) : InBatch count (.refuse peer)
  | welcome (peer : Peer) : InBatch count (.welcome peer)
  | arrival (id : SlotId) : InBatch count (.arrival id count)
  | userFrame (f : Frame) : InBatch count (.userFrame f)
  | engineerFrame (id : SlotId) (f : Frame) : InBatch count (.engineerFrame id f)

theorem inBatch_of_mem {p : Pair} {id : SlotId} {frames : List Frame} {b : Move} (h : b ∈ p.batch id frames) :
    InBatch frames.length b := by
  rcases mem_batch h with rfl | ⟨f, rfl | rfl⟩
  · exact .arrival id
  · exact .userFrame f
  · exact .engineerFrame id f

theorem liveMoves_cases (p : Pair) (m : Moment) (e : Event) :
    (∃ move, e.move? = some move ∧ p.liveMoves m e = [move]) ∨
      e.move? = none ∧ ∀ move ∈ p.liveMoves m e, InBatch e.frameCount move := by
  cases e with
  | frames id fs => exact .inr ⟨rfl, fun _ => inBatch_of_mem⟩
  | datagram role peer fs =>
    refine .inr ⟨rfl, ?_⟩
    simp only [liveMoves]
    split
    · exact fun _ => inBatch_of_mem
    · split
      · exact fun _ h => absurd h List.not_mem_nil
      · split
        · intro move hmove
          rcases List.mem_pair.mp hmove with rfl | rfl
          · exact .connect role peer
          · exact .refuse peer
        · intro move hmove
          rcases List.mem_cons.mp hmove with rfl | hmove
          · exact .connect role peer
          · rcases List.mem_cons.mp hmove with rfl | hmove
            · exact .welcome peer
            · exact inBatch_of_mem hmove
  | _ => exact .inl ⟨_, rfl, rfl⟩

theorem mem_moves {p : Pair} {m : Moment} {e : Event} {b : Moment × Move} (h : b ∈ p.moves m e) :
    ∃ move ∈ p.liveMoves m e, b = (m, move) := by
  unfold moves at h
  split at h
  · obtain ⟨move, hmove, rfl⟩ := List.mem_map.mp h
    exact ⟨move, hmove, rfl⟩
  · cases h

theorem replay_liveMoves (p : Pair) (m : Moment) (e : Event) :
    p.replay ((p.liveMoves m e).map (m, ·)) = p.handle m e := by
  cases e with
  | frames id frames => exact p.replay_batch m id frames
  | datagram role peer frames =>
    cases hudp : p.slots.findUdp? role peer with
    | some s =>
      simp only [liveMoves, handle, datagram, hudp]
      exact p.replay_batch m s.id frames
    | none =>
      by_cases hrefused : (p.refused.contains peer && !p.slots.hasRoom role) = true
      · simp [liveMoves, handle, datagram, hudp, hrefused]
      · simp only [liveMoves, handle, datagram, hudp, hrefused, Bool.false_eq_true, if_false]
        rcases hconnect : p.connect m role .udp peer with ⟨q, _ | id⟩
        · simp [act, hconnect]
        · simp only [List.map_cons, replay_cons, act, hconnect]
          exact replay_batch { q with refused := q.refused.erase peer } m id frames
  | _ => rfl

theorem replay_moves (p : Pair) (m : Moment) (e : Event) : p.replay (p.moves m e) = p.step m e := by
  by_cases hlive : p.live = true
  · simp only [moves, step, hlive, Bool.true_or, if_true]
    exact p.replay_liveMoves m e
  · cases e <;> simp [moves, step, hlive, Event.concernsStore, liveMoves, act]

theorem replay_trace (p : Pair) (events : List (Moment × Event)) : p.replay (p.trace events) = p.run events := by
  induction events generalizing p with
  | nil => rfl
  | cons e rest ih =>
    obtain ⟨m, e⟩ := e
    rw [trace, replay_append, replay_moves, ih]
    rfl

theorem snoc_prefix_append {xs ys zs : List (Moment × Move)} {b : Moment × Move} (h : xs ++ [b] <+: ys ++ zs) :
    xs ++ [b] <+: ys ∨ ∃ front, xs = ys ++ front ∧ front ++ [b] <+: zs := by
  rcases List.prefix_or_prefix_of_prefix h (List.prefix_append ys zs) with hfirst | ⟨later, hlater⟩
  · exact .inl hfirst
  · rw [← hlater, List.prefix_append_right_inj] at h
    rcases List.eq_nil_or_concat' later with rfl | ⟨front, c, rfl⟩
    · rw [List.append_nil] at hlater
      exact .inl (hlater ▸ List.prefix_refl _)
    · rw [← List.append_assoc] at hlater
      obtain ⟨hxs, hb⟩ := List.append_inj' hlater rfl
      obtain rfl := List.singleton_inj.mp hb
      exact .inr ⟨front, hxs.symm, h⟩

theorem snoc_prefix_snoc {front moves : List (Moment × Move)} {d b : Moment × Move} :
    front ++ [d] <+: moves ++ [b] ↔ front ++ [d] <+: moves ∨ front = moves ∧ d = b := by
  rw [List.prefix_concat_iff, or_comm]
  constructor
  · rintro (hpart | heq)
    · exact .inl hpart
    · obtain ⟨hfront, hd⟩ := List.append_inj' heq rfl
      exact .inr ⟨hfront, List.singleton_inj.mp hd⟩
  · rintro (hpart | ⟨rfl, rfl⟩)
    · exact .inl hpart
    · exact .inr rfl

/-- Each move of a run belongs to an event of it, behind the moves of the events before. -/
theorem event_of_move {p : Pair} {events : List (Moment × Event)} {moves : List (Moment × Move)} {b : Moment × Move}
    (h : moves ++ [b] <+: p.trace events) :
    ∃ before m e front, moves = p.trace before ++ front ∧ front ++ [b] <+: (p.run before).moves m e := by
  induction events generalizing p moves with
  | nil => simp [trace] at h
  | cons e rest ih =>
    obtain ⟨m, e⟩ := e
    rw [trace] at h
    rcases snoc_prefix_append h with hfirst | ⟨front, rfl, hlater⟩
    · exact ⟨[], m, e, moves, rfl, hfirst⟩
    · obtain ⟨before, m', e', front', rfl, hmove⟩ := ih hlater
      exact ⟨(m, e) :: before, m', e', front', by rw [trace, List.append_assoc], hmove⟩

/-! ## Where the frames of engineers come from -/

theorem liveMoves_eq (p : Pair) (m : Moment) (e : Event) :
    (∀ b ∈ p.liveMoves m e, ∀ id f, b ≠ .engineerFrame id f) ∨
      ∃ before id frames, (∀ b ∈ before, ∀ id f, b ≠ .engineerFrame id f) ∧
        p.liveMoves m e = before ++ (p.replay (before.map (m, ·))).batch id frames := by
  cases e with
  | frames id frames => exact .inr ⟨[], id, frames, by simp, rfl⟩
  | datagram role peer frames =>
    simp only [liveMoves]
    split
    · rename_i s _
      exact .inr ⟨[], s.id, frames, by simp, rfl⟩
    · split
      · exact .inl (by simp)
      · rcases hconnect : p.connect m role .udp peer with ⟨q, _ | id⟩
        · exact .inl (by simp)
        · right
          refine ⟨[.connect role .udp peer, .welcome peer], id, frames, by simp, ?_⟩
          simp only [List.map_cons, List.map_nil, replay_cons, replay_nil, act, hconnect]
          rfl
  | _ => exact .inl (by simp [liveMoves])

theorem batch_of_snoc {p : Pair} {m m' : Moment} {id id' : SlotId} {f : Frame} {frames : List Frame}
    {front : List (Moment × Move)} (h : front ++ [(m', .engineerFrame id' f)] <+: (p.batch id frames).map (m, ·)) :
    m' = m ∧ id' = id ∧ ∃ s rest, p.slots.find? id = some s ∧ s.role = .engineer ∧
      front = (m, .arrival id frames.length) :: rest ∧ ∀ b ∈ rest, ∃ g, b = (m, .engineerFrame id g) := by
  have hlast : (m', .engineerFrame id' f) ∈ (p.batch id frames).map (m, ·) :=
    h.subset (List.mem_append_right front List.mem_cons_self)
  cases hs : p.slots.find? id with
  | none => simp [batch, hs] at hlast
  | some s =>
    cases hrole : s.role with
    | user => simp [batch, hs, hrole] at hlast
    | engineer =>
      have hall (b) (hb : b ∈ (frames.map (Move.engineerFrame id)).map (m, ·)) : ∃ g, b = (m, .engineerFrame id g) := by
        obtain ⟨_, hmove, rfl⟩ := List.mem_map.mp hb
        obtain ⟨g, _, rfl⟩ := List.mem_map.mp hmove
        exact ⟨g, rfl⟩
      simp only [batch, hs, hrole, List.map_cons] at h
      cases front with
      | nil =>
        obtain ⟨hhead, _⟩ := List.cons_prefix_cons.mp h
        cases hhead
      | cons b rest =>
        obtain ⟨rfl, hrest⟩ := List.cons_prefix_cons.mp h
        obtain ⟨g, hg⟩ := hall _ (hrest.subset (List.mem_append_right rest List.mem_cons_self))
        cases hg
        exact ⟨rfl, rfl, s, rest, rfl, hrole, rfl, fun b hb => hall b (hrest.subset (List.mem_append_left _ hb))⟩

/-- When a frame of an engineer is handled, its batch has arrived at its slot, an engineer's, and nothing but frames of
the batch has been handled since. -/
theorem batch_of_engineerFrame {p : Pair} {events : List (Moment × Event)} {moves : List (Moment × Move)} {m : Moment}
    {id : SlotId} {f : Frame} (h : moves ++ [(m, .engineerFrame id f)] <+: p.trace events) :
    ∃ before count rest s, moves = before ++ (m, .arrival id count) :: rest ∧
      (p.replay before).slots.find? id = some s ∧ s.role = .engineer ∧
      ∀ b ∈ rest, ∃ g, b = (m, .engineerFrame id g) := by
  obtain ⟨events', m', e, front, rfl, hfront⟩ := event_of_move h
  have hother {other : List Move} (hall : ∀ b ∈ other, ∀ id f, b ≠ .engineerFrame id f) :
      ¬front ++ [(m, .engineerFrame id f)] <+: other.map (m', ·) := by
    intro hpart
    obtain ⟨b, hb, hbeq⟩ := List.mem_map.mp (hpart.subset (List.mem_append_right front List.mem_cons_self))
    exact hall b hb id f (Prod.mk.inj hbeq).2
  unfold Pair.moves at hfront
  split at hfront
  · rcases (p.run events').liveMoves_eq m' e with hall | ⟨before, id', frames, hall, heq⟩
    · exact absurd hfront (hother hall)
    · rw [heq, List.map_append] at hfront
      rcases snoc_prefix_append hfront with hbefore | ⟨front', rfl, hbatch⟩
      · exact absurd hbefore (hother hall)
      · obtain ⟨rfl, rfl, s, rest, hs, hrole, rfl, hrest⟩ := batch_of_snoc hbatch
        refine ⟨p.trace events' ++ before.map (m, ·), frames.length, rest, s, ?_, ?_, hrole, hrest⟩
        · rw [List.append_assoc]
        · rw [replay_append, replay_trace]
          exact hs
  · simp at hfront

end Pair

end GatedRelay
