import GatedRelay.Proofs.Frame.Chunks
import GatedRelay.Proofs.Pair.Batches
import GatedRelay.Relay.Link

/-!
# Where a stream is cut does not show

A read brings the bytes that have arrived so far, and completes any number of frames.  At one instant, two batches of
frames leave a pair, its outboxes and its relay as one batch does, and a parser gives the same frames wherever the bytes
are cut.  So the reads of a stream have one effect, however its bytes are cut (`streams_cut_anywhere`).
-/

set_option autoImplicit false

namespace GatedRelay

/-! ## Two batches of a pair -/

namespace Pair

theorem step_frames_append (p : Pair) (m : Moment) (id : SlotId) {a b : List Frame}
    (h : a.length + b.length < UInt32.size) :
    p.step m (.frames id (a ++ b)) = (p.step m (.frames id a)).step m (.frames id b) := by
  cases hlive : p.live with
  | false => simp [step, hlive]
  | true =>
    have hlater : (p.handleFrames m id a).live = true := (p.attended_handleFrames m id a).live.trans hlive
    simp only [step, hlive, if_true, handle, hlater]
    exact p.handleFrames_append m id h

theorem attended_step_frames (p : Pair) (m : Moment) (id : SlotId) (frames : List Frame) :
    p.Attended (p.step m (.frames id frames)) := by
  unfold step
  split
  · exact p.attended_handleFrames m id frames
  · exact .refl p

theorem history_step (p : Pair) (m : Moment) (e : Event) : ∃ es, (p.step m e).history = es ++ p.history := by
  rw [← replay_moves]
  exact p.history_replay (p.moves m e)

theorem effectsSince_trans {p q r : Pair} (hq : ∃ es, q.history = es ++ p.history)
    (hr : ∃ es, r.history = es ++ q.history) : r.effectsSince p = q.effectsSince p ++ r.effectsSince q := by
  obtain ⟨es, hq⟩ := hq
  obtain ⟨es', hr⟩ := hr
  have hboth : r.history = (es' ++ es) ++ p.history := by rw [hr, hq, List.append_assoc]
  rw [effectsSince_of_append hboth, effectsSince_of_append hq, effectsSince_of_append hr, List.reverse_append]

end Pair

namespace Session

theorem happen_frames_append (s : Session) (m : Moment) (id : SlotId) {a b : List Frame}
    (h : a.length + b.length < UInt32.size) (capacity : Nat) :
    s.happen m (.frames id (a ++ b)) capacity =
      (s.happen m (.frames id a) capacity).happen m (.frames id b) capacity := by
  have hpair := s.pair.step_frames_append m id h
  have heffects : s.effects m (.frames id (a ++ b)) =
      s.effects m (.frames id a) ++ (s.happen m (.frames id a) capacity).effects m (.frames id b) := by
    simp only [effects, hpair]
    exact Pair.effectsSince_trans (s.pair.history_step m _) (Pair.history_step _ m _)
  simp only [happen, hpair, heffects, Outboxes.applyEach, List.foldl_append]

def happenEach (s : Session) (m : Moment) (capacity : Nat) (events : List Event) : Session :=
  events.foldl (fun s e => s.happen m e capacity) s

end Session

namespace Relay

def withPair (r : Relay) (port2 : UInt16) (after : Pair) : Relay :=
  { r with store := after.store, pairs := r.pairs.map fun q => if q.port2 = port2 then after else q }

section Pairs

variable {r : Relay} {port2 : UInt16} {p : Pair}

theorem step_of_pair? (h : r.pair? port2 = some p) (m : Moment) (e : Event) :
    r.step m port2 e = r.withPair port2 (({ p with store := r.store } : Pair).step m e) := by
  rw [step, h]
  rfl

theorem pair?_withPair (h : r.pair? port2 = some p) {after : Pair} (hafter : after.port2 = port2) :
    (r.withPair port2 after).pair? port2 = some after := by
  have hsame : ((fun q : Pair => decide (q.port2 = port2)) ∘ fun q => if q.port2 = port2 then after else q) =
      fun q => decide (q.port2 = port2) := by
    funext q
    by_cases hq : q.port2 = port2 <;> simp [hq, hafter]
  have hport : p.port2 = port2 := by simpa using List.find?_some h
  rw [pair?, withPair, List.find?_map, hsame]
  rw [pair?] at h
  rw [h, Option.map_some, if_pos hport]

theorem withPair_withPair (r : Relay) {after : Pair} (hafter : after.port2 = port2) (later : Pair) :
    (r.withPair port2 after).withPair port2 later = r.withPair port2 later := by
  simp only [withPair, List.map_map, Relay.mk.injEq, true_and, and_true]
  apply List.map_congr_left
  intro q _
  by_cases hq : q.port2 = port2 <;> simp [hq, hafter]

end Pairs

theorem step_frames_append (r : Relay) (m : Moment) (port2 : UInt16) (id : SlotId) {a b : List Frame}
    (h : a.length + b.length < UInt32.size) :
    r.step m port2 (.frames id (a ++ b)) = (r.step m port2 (.frames id a)).step m port2 (.frames id b) := by
  cases hp : r.pair? port2 with
  | none => simp only [step, hp]
  | some p =>
    have hport : p.port2 = port2 := by simpa using List.find?_some hp
    have hafter := (({ p with store := r.store } : Pair).attended_step_frames m id a).port2.trans hport
    rw [step_of_pair? hp, step_of_pair? hp, step_of_pair? (pair?_withPair hp hafter), withPair_withPair r hafter,
      Pair.step_frames_append _ m id h]
    rfl

end Relay

/-! ## Reads -/

def arrivals (id : SlotId) (frames : List Frame) : List Event := if frames = [] then [] else [.frames id frames]

/-- Two batches at one instant may be joined. -/
def Joins {σ : Type} (f : σ → Event → σ) : Prop :=
  ∀ s id a b, a.length + b.length < UInt32.size →
    f s (.frames id (a ++ b)) = f (f s (.frames id a)) (.frames id b)

def singly (id : SlotId) (frames : List Frame) : List Event := frames.map fun f => .frames id [f]

theorem Joins.foldl_arrivals {σ : Type} {f : σ → Event → σ} (hf : Joins f) (s : σ) (id : SlotId) {frames : List Frame}
    (h : frames.length < UInt32.size) : (arrivals id frames).foldl f s = (singly id frames).foldl f s := by
  induction frames generalizing s with
  | nil => rfl
  | cons x rest ih =>
    cases rest with
    | nil => rfl
    | cons y rest =>
      have hrest := ih (f s (.frames id [x])) (Nat.lt_of_succ_lt h)
      have hsplit := hf s id [x] (y :: rest) (by rwa [List.length_singleton, Nat.add_comm])
      exact hsplit.trans hrest

namespace Link

def reads (l : Link) : List Bytes → Link × List Event
  | [] => (l, [])
  | d :: rest =>
    let (l, event) := l.receive d
    let (l, events) := l.reads rest
    (l, event.toList ++ events)

theorem toList_receive (l : Link) (d : Bytes) : (l.receive d).2.toList = arrivals l.slot (l.parser.push d).2 := by
  simp only [receive, arrivals, List.isEmpty_iff]
  split
  · rfl
  · rfl

theorem reads_fst (l : Link) (chunks : List Bytes) :
    (l.reads chunks).1 = { l with parser := (l.parser.pushEach chunks).1 } := by
  induction chunks generalizing l with
  | nil => rfl
  | cons d rest ih => exact ih (l.receive d).1

theorem reads_cons (l : Link) (d : Bytes) (rest : List Bytes) :
    (l.reads (d :: rest)).2 = arrivals l.slot (l.parser.push d).2 ++ ((l.receive d).1.reads rest).2 := by
  rw [← toList_receive]
  rfl

theorem pushEach_cons (l : Link) (d : Bytes) (rest : List Bytes) :
    (l.parser.pushEach (d :: rest)).2 = (l.parser.push d).2 ++ ((l.receive d).1.parser.pushEach rest).2 := rfl

/-- No read brings more frames than a slot can count at once. -/
def ReadsFit (l : Link) (chunks : List Bytes) : Prop := ∀ e ∈ (l.reads chunks).2, e.frameCount < UInt32.size

theorem frameCount_reads {l : Link} {chunks : List Bytes} {e : Event} (h : e ∈ (l.reads chunks).2) :
    e.frameCount ≤ (l.parser.pushEach chunks).2.length := by
  induction chunks generalizing l with
  | nil => cases h
  | cons d rest ih =>
    rw [reads_cons, List.mem_append] at h
    rw [pushEach_cons, List.length_append]
    rcases h with h | h
    · unfold arrivals at h
      split at h
      · cases h
      · rw [List.mem_singleton.mp h]
        exact Nat.le_add_right _ _
    · exact Nat.le_add_left_of_le (ih h)

/-- Reads do together what their frames do one by one. -/
theorem foldl_reads {σ : Type} {f : σ → Event → σ} (hf : Joins f) {l : Link} {chunks : List Bytes}
    (h : l.ReadsFit chunks) (s : σ) :
    (l.reads chunks).2.foldl f s = (singly l.slot (l.parser.pushEach chunks).2).foldl f s := by
  induction chunks generalizing l s with
  | nil => rfl
  | cons d rest ih =>
    simp only [ReadsFit, reads_cons, List.mem_append] at h
    have hfew : (l.parser.push d).2.length < UInt32.size := by
      by_cases hnone : (l.parser.push d).2 = []
      · rw [hnone]
        decide
      · exact h _ (.inl (by rw [arrivals, if_neg hnone]; exact List.mem_cons_self))
    have hrest := ih (fun e he => h e (.inr he)) ((arrivals l.slot (l.parser.push d).2).foldl f s)
    rw [reads_cons, List.foldl_append, hrest, hf.foldl_arrivals s l.slot hfew, pushEach_cons, singly, singly, singly,
      List.map_append, List.foldl_append]
    rfl

def after (l : Link) (before : List Bytes) : Link := { l with parser := (({} : Parser).pushEach before).1 }

theorem pushEach_after (l : Link) (before chunks : List Bytes) :
    (l.after before).parser.pushEach chunks = (l.after before).parser.push chunks.flatten :=
  Parser.pushEach_of_settled (Parser.settled_pushEach Parser.settled_empty before) chunks

/-- Two ways to cut the same bytes leave the link alike, and their events have the same effect. -/
theorem reads_of_flatten_eq {σ : Type} {f : σ → Event → σ} (hf : Joins f) (l : Link) (before : List Bytes)
    {chunks chunks' : List Bytes} (hbytes : chunks'.flatten = chunks.flatten)
    (h : (l.after before).ReadsFit chunks) (h' : (l.after before).ReadsFit chunks') (s : σ) :
    ((l.after before).reads chunks').1 = ((l.after before).reads chunks).1 ∧
      ((l.after before).reads chunks').2.foldl f s = ((l.after before).reads chunks).2.foldl f s := by
  constructor
  · rw [reads_fst, reads_fst, pushEach_after, pushEach_after, hbytes]
  · rw [foldl_reads hf h, foldl_reads hf h', pushEach_after, pushEach_after, hbytes]

end Link

namespace Relay

def receiveEach (r : Relay) (m : Moment) (l : Link) : List Bytes → Relay × Link
  | [] => (r, l)
  | d :: rest => (r.receive m l d).1.receiveEach m (r.receive m l d).2 rest

theorem receive_eq (r : Relay) (m : Moment) (l : Link) (d : Bytes) :
    r.receive m l d = ((l.receive d).2.toList.foldl (fun r e => r.step m l.port2 e) r, (l.receive d).1) := by
  simp only [receive, Link.receive]
  cases (l.parser.push d).2.isEmpty with
  | true => rfl
  | false => rfl

theorem receiveEach_eq (r : Relay) (m : Moment) (l : Link) (chunks : List Bytes) :
    r.receiveEach m l chunks = ((l.reads chunks).2.foldl (fun r e => r.step m l.port2 e) r, (l.reads chunks).1) := by
  induction chunks generalizing r l with
  | nil => rfl
  | cons d rest ih =>
    rw [receiveEach, ih, receive_eq, Link.reads_cons, ← Link.toList_receive, List.foldl_append]
    rfl

end Relay

/-- How the frames of a slot are divided into batches at one instant makes no difference to the pair, whatever its
state, nor to any outbox.  How the bytes of a link are cut into reads makes none either, also to the relay, as long as
a slot can count the frames of every read. -/
theorem streams_cut_anywhere (m : Moment) :
    (∀ (s : Session) (capacity : Nat) (id : SlotId) (a b : List Frame), a.length + b.length < UInt32.size →
      s.happen m (.frames id (a ++ b)) capacity =
        (s.happen m (.frames id a) capacity).happen m (.frames id b) capacity) ∧
    ∀ (l : Link) (before chunks chunks' : List Bytes), chunks'.flatten = chunks.flatten →
      (l.after before).ReadsFit chunks → (l.after before).ReadsFit chunks' →
      (∀ (s : Session) (capacity : Nat),
        s.happenEach m capacity ((l.after before).reads chunks').2 =
          s.happenEach m capacity ((l.after before).reads chunks).2) ∧
      ∀ r : Relay, r.receiveEach m (l.after before) chunks' = r.receiveEach m (l.after before) chunks := by
  have hsession (capacity : Nat) : Joins fun s e => Session.happen s m e capacity :=
    fun s id a b h => s.happen_frames_append m id h capacity
  have hrelay (port2 : UInt16) : Joins fun r e => Relay.step r m port2 e :=
    fun r id a b h => r.step_frames_append m port2 id h
  refine ⟨fun s capacity id a b h => hsession capacity s id a b h, ?_⟩
  intro l before chunks chunks' hbytes hfit hfit'
  constructor
  · intro s capacity
    exact (l.reads_of_flatten_eq (hsession capacity) before hbytes hfit hfit' s).2
  · intro r
    obtain ⟨hlink, hevents⟩ := l.reads_of_flatten_eq (hrelay (l.after before).port2) before hbytes hfit hfit' r
    rw [Relay.receiveEach_eq, Relay.receiveEach_eq, hlink, hevents]

def engineerAlone : Session :=
  Session.happen ⟨(Pair.Setup.offline none).pair, {}⟩ ⟨0, 0⟩ (.connect .engineer .tcp "engineer") 4

def engineerLink : Link := { port2 := 2, slot := 1, transport := .tcp }

def twoHeartbeats : Bytes := Pair.heartbeat.bytes ++ Pair.heartbeat.bytes

theorem frames_twoHeartbeats :
    ((engineerLink.after []).parser.push twoHeartbeats).2 = [Pair.heartbeat, Pair.heartbeat] := by
  have hsift : sift twoHeartbeats = ⟨[Pair.heartbeat, Pair.heartbeat], [], 0⟩ := by
    rw [twoHeartbeats, sift_of_frame (Frame.read_bytes _ _), sift_of_frame (Frame.read_bytes_alone _), sift_nil]
  have hpushed : ((engineerLink.after []).parser.push twoHeartbeats).2 = (sift twoHeartbeats).frames := rfl
  rw [hpushed, hsift]

def engineerMessages (s : Session) : Option UInt32 := (s.pair.slots.find? 1).map (·.messages)

def cutHeartbeats : List Bytes := [twoHeartbeats.take 5, twoHeartbeats.drop 5]

theorem readsFit_of_twoHeartbeats {chunks : List Bytes} (h : chunks.flatten = twoHeartbeats) :
    (engineerLink.after []).ReadsFit chunks := by
  intro e he
  have hcount := Link.frameCount_reads he
  rw [Link.pushEach_after, h, frames_twoHeartbeats] at hcount
  exact Nat.lt_of_le_of_lt hcount (by decide)

/-- Two heartbeats count as two in one batch, in two batches, and if the first of them is cut. -/
theorem streams_cut_anywhere_twoHeartbeats :
    [Pair.heartbeat].length + [Pair.heartbeat].length < UInt32.size ∧
      cutHeartbeats.flatten = [twoHeartbeats].flatten ∧
      (engineerLink.after []).ReadsFit [twoHeartbeats] ∧ (engineerLink.after []).ReadsFit cutHeartbeats ∧
      engineerMessages ((engineerAlone.happen ⟨1, 0⟩ (.frames 1 [Pair.heartbeat]) 4).happen ⟨1, 0⟩
        (.frames 1 [Pair.heartbeat]) 4) = some 2 ∧
      engineerMessages (engineerAlone.happenEach ⟨1, 0⟩ 4 ((engineerLink.after []).reads cutHeartbeats).2) =
        some 2 := by
  have hjoined : engineerMessages (engineerAlone.happen ⟨1, 0⟩ (.frames 1 [Pair.heartbeat, Pair.heartbeat]) 4) =
      some 2 := rfl
  have hbytes : cutHeartbeats.flatten = [twoHeartbeats].flatten := by simp [cutHeartbeats]
  have hfew : [Pair.heartbeat].length + [Pair.heartbeat].length < UInt32.size := by decide
  have hfit : (engineerLink.after []).ReadsFit [twoHeartbeats] := readsFit_of_twoHeartbeats (by simp)
  have hfit' : (engineerLink.after []).ReadsFit cutHeartbeats := readsFit_of_twoHeartbeats (by simp [cutHeartbeats])
  obtain ⟨hbatches, hcuts⟩ := streams_cut_anywhere ⟨1, 0⟩
  obtain ⟨hreads, _⟩ := hcuts engineerLink [] [twoHeartbeats] cutHeartbeats hbytes hfit hfit'
  refine ⟨hfew, hbytes, hfit, hfit', ?_, ?_⟩
  · rw [← hbatches engineerAlone 4 1 [Pair.heartbeat] [Pair.heartbeat] hfew]
    exact hjoined
  · have hone : ((engineerLink.after []).reads [twoHeartbeats]).2 = [.frames 1 [Pair.heartbeat, Pair.heartbeat]] := by
      rw [Link.reads_cons, frames_twoHeartbeats]
      rfl
    rw [hreads engineerAlone 4, hone]
    exact hjoined

end GatedRelay
