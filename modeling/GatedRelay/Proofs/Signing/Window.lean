import GatedRelay.Frame.StatusText
import GatedRelay.Proofs.Recent
import GatedRelay.Proofs.Signing.Check
import Mathlib.Data.List.Induction

/-!
# The replay window of a gate

A gate is followed through the checks that it makes, while its key also signs, follows the time of day and serves other
gates.  What decides about the next frame can be read from the verdicts so far: the streams of the last good and
replayed frames are remembered, each with the timestamp of its last good frame.  A frame is good twice only if its
stream was forgotten in between and then taken up again by a frame inside the window, itself or an earlier one.
-/

set_option autoImplicit false

namespace GatedRelay

def Frame.stream? (f : Frame) : Option Stream := f.trailer.map (Gate.streamOf f)

theorem Frame.stream?_eq {f : Frame} {t : Trailer} (ht : f.trailer = some t) :
    f.stream? = some (Gate.streamOf f t) := by
  rw [stream?, ht, Option.map_some]

namespace Gate

variable {streams streams' : Recent Stream Stamp 16} {f : Frame} {k k' : SigningKey} {v : Verdict}

theorem Judgement.find?_of_good (hj : Judgement streams f k v streams' k') (h : v.isGood = true) {t : Trailer}
    (ht : f.trailer = some t) : streams'.find? (streamOf f t) = some t.timestamp := by
  cases hj with
  | unsigned | forged | replay | late => cases h
  | good ht' =>
    obtain rfl := Option.some.inj (ht.symm.trans ht')
    exact Recent.find?_use_self _ _ _ (by decide)

theorem Judgement.of_find? (hj : Judgement streams f k v streams' k') {s : Stream} {u' : Stamp}
    (h : streams'.find? s = some u') :
    streams.find? s = some u' ∨
      f.stream? = some s ∧ v = .good u' ∧ ∀ u, streams.find? s = some u → u < u' := by
  cases hj with
  | unsigned | forged | late => exact .inl h
  | @replay t last ht hv hlast hle =>
    by_cases hsame : s = streamOf f t
    · subst hsame
      rw [Recent.find?_use_self _ _ _ (by decide)] at h
      exact .inl (hlast.trans h)
    · exact .inl (Recent.find?_of_find?_use h hsame)
  | @good t ht hv hnew =>
    by_cases hsame : s = streamOf f t
    · subst hsame
      rw [Recent.find?_use_self _ _ _ (by decide)] at h
      obtain rfl := Option.some.inj h
      refine .inr ⟨Frame.stream?_eq ht, rfl, ?_⟩
      intro u hu
      rcases hnew with ⟨last, hlast, hlt⟩ | ⟨hnone, _⟩
      · obtain rfl := Option.some.inj (hu.symm.trans hlast)
        exact hlt
      · rw [hu] at hnone
        cases hnone
    · exact .inl (Recent.find?_of_find?_use h hsame)

theorem not_isGood_again {g : Gate} (h : (g.judge f (some k)).1.isGood = true) (k' : SigningKey) :
    ((g.check f (some k)).1.judge f (some k')).1.isGood = false := by
  have hj := judgement g.streams f k
  obtain ⟨t, ht, _⟩ := hj.signedUnder h
  have hfind := hj.find?_of_good h ht
  have hagain := (judgement (g.check f (some k)).1.streams f k').isGood_iff ht
  rw [check_streams] at hagain
  rw [Bool.eq_false_iff, judge]
  intro hgood
  rw [check_streams] at hgood
  rcases (hagain.mp hgood).2 with ⟨last, hlast, hlt⟩ | ⟨hnone, _⟩
  · obtain rfl := Option.some.inj (hfind.symm.trans hlast)
    exact absurd hlt (Fin.lt_irrefl _)
  · cases hfind.symm.trans hnone

end Gate

structure Checkpoint where
  gate : Gate
  key : SigningKey

namespace Checkpoint

inductive Act where
  | check (f : Frame)
  | observe (clock : UInt64)
  | sign (f : Frame)
  /-- Another gate checks a frame against the key. -/
  | elsewhere (gate : Gate) (f : Frame)

def start (gate : Gate) (k : SigningKey) : Checkpoint := ⟨gate.reset, k⟩

def act (c : Checkpoint) : Act → Checkpoint
  | .check f => ⟨(c.gate.check f (some c.key)).1, (c.gate.check f (some c.key)).2.1.getD c.key⟩
  | .observe clock => { c with key := c.key.observe clock }
  | .sign f => { c with key := (c.key.sign f).1 }
  | .elsewhere gate f => { c with key := (gate.check f (some c.key)).2.1.getD c.key }

def run (c : Checkpoint) (acts : List Act) : Checkpoint := acts.foldl act c

def verdict (c : Checkpoint) (f : Frame) : Verdict := (c.gate.check f (some c.key)).2.2.verdict

def Accepts (c : Checkpoint) (f : Frame) : Prop := (c.verdict f).isGood = true

def Remembers (c : Checkpoint) (s : Stream) : Prop := s ∈ c.gate.streams.keys

/-- The timestamp is not behind the clock of the key by more than a new stream may be. -/
def InWindow (c : Checkpoint) (t : Stamp) : Prop := c.key.clock.toNat ≤ t.val + Gate.newStreamWindow

def judged (c : Checkpoint) : Act → List (Frame × Verdict)
  | .check f => [(f, c.verdict f)]
  | _ => []

def verdicts : Checkpoint → List Act → List (Frame × Verdict)
  | _, [] => []
  | c, a :: rest => c.judged a ++ verdicts (c.act a) rest

end Checkpoint

namespace Verdict

def isUse : Verdict → Bool
  | good _ => true
  | rejected .replay => true
  | _ => false

theorem not_isGood_of_not_isUse {v : Verdict} (h : v.isUse = false) : v.isGood = false := by
  cases v with
  | good t => cases h
  | noKey | unsigned | rejected => rfl

/-- The streams that were used, the latest last. -/
def used (seen : List (Frame × Verdict)) : List Stream :=
  seen.filterMap fun (f, v) => if v.isUse then f.stream? else none

def lastGood? (seen : List (Frame × Verdict)) (s : Stream) : Option Stamp :=
  (seen.filterMap fun (f, v) =>
    match v with
    | good t => if f.stream? = some s then some t else none
    | _ => none).getLast?

theorem used_append (seen later : List (Frame × Verdict)) : used (seen ++ later) = used seen ++ used later :=
  List.filterMap_append

theorem used_singleton {f : Frame} {v : Verdict} (hv : v.isUse = true) {s : Stream} (hs : f.stream? = some s) :
    used [(f, v)] = [s] := by
  simp [used, hv, hs]

theorem lastGood?_concat_of_not_good {f : Frame} {v : Verdict} (h : v.isGood = false) (seen : List (Frame × Verdict))
    (s : Stream) : lastGood? (seen ++ [(f, v)]) s = lastGood? seen s := by
  cases v <;> simp_all [lastGood?, isGood]

theorem lastGood?_concat_good (seen : List (Frame × Verdict)) (f : Frame) (t : Stamp) (s : Stream) :
    lastGood? (seen ++ [(f, good t)]) s = if f.stream? = some s then some t else lastGood? seen s := by
  unfold lastGood?
  rw [List.filterMap_append]
  split
  · rename_i h
    simp [h]
  · rename_i h
    simp [h]

end Verdict

namespace Checkpoint

open Verdict

theorem run_append (c : Checkpoint) (acts later : List Act) : c.run (acts ++ later) = (c.run acts).run later :=
  List.foldl_append

theorem run_concat (c : Checkpoint) (acts : List Act) (a : Act) : c.run (acts ++ [a]) = (c.run acts).act a := by
  rw [run_append]
  rfl

theorem verdicts_append (c : Checkpoint) (acts later : List Act) :
    c.verdicts (acts ++ later) = c.verdicts acts ++ (c.run acts).verdicts later := by
  induction acts generalizing c with
  | nil => rfl
  | cons a rest ih => rw [List.cons_append, verdicts, ih, verdicts, List.append_assoc]; rfl

theorem verdicts_concat (c : Checkpoint) (acts : List Act) (a : Act) :
    c.verdicts (acts ++ [a]) = c.verdicts acts ++ (c.run acts).judged a := by
  rw [verdicts_append, verdicts, verdicts, List.append_nil]

/-! ## One check -/

theorem act_check (c : Checkpoint) (f : Frame) :
    c.act (.check f) = ⟨(c.gate.check f (some c.key)).1, (Gate.verify c.gate.streams f c.key).2.2⟩ := rfl

theorem judgement (c : Checkpoint) (f : Frame) :
    Gate.Judgement c.gate.streams f c.key (c.verdict f) (c.act (.check f)).gate.streams (c.act (.check f)).key := by
  have h := Gate.judgement c.gate.streams f c.key
  rwa [verdict, Gate.check_verdict, act_check, Gate.check_streams]

theorem streams_act {c : Checkpoint} {a : Act} (h : c.judged a = []) : (c.act a).gate.streams = c.gate.streams := by
  cases a with
  | check f => cases h
  | observe clock => rfl
  | sign f => rfl
  | elsewhere gate f => rfl

theorem secret_act (c : Checkpoint) (a : Act) : (c.act a).key.secret = c.key.secret := by
  cases a with
  | check f => exact Gate.verify_secret _ f c.key
  | observe clock => rfl
  | sign f => rfl
  | elsewhere gate f => exact Gate.verify_secret _ f c.key

theorem secret_run (c : Checkpoint) (acts : List Act) : (c.run acts).key.secret = c.key.secret := by
  induction acts using List.reverseRecOn with
  | nil => rfl
  | append_singleton acts a ih => rw [run_concat, secret_act, ih]

theorem streams_eq_of_not_signedUnder {c : Checkpoint} {f : Frame} (h : ¬f.SignedUnder c.key.secret) :
    (c.act (.check f)).gate.streams = c.gate.streams := (c.judgement f).streams_eq h

/-! ## The verdicts decide what is remembered -/

structure Reflects (seen : List (Frame × Verdict)) (streams : Recent Stream Stamp 16) : Prop where
  keys : streams.keys = Recent.latest (used seen) 16
  last : ∀ s t, streams.find? s = some t → lastGood? seen s = some t

theorem Reflects.use {seen : List (Frame × Verdict)} {streams : Recent Stream Stamp 16} (h : Reflects seen streams)
    {f : Frame} {s : Stream} (hs : f.stream? = some s) {v : Verdict} (hv : v.isUse = true) {t : Stamp}
    (ht : lastGood? (seen ++ [(f, v)]) s = some t)
    (hother : ∀ s', s' ≠ s → lastGood? (seen ++ [(f, v)]) s' = lastGood? seen s') :
    Reflects (seen ++ [(f, v)]) (streams.use s t) where
  keys := by
    rw [used_append, used_singleton hv hs]
    exact Recent.keys_use_latest h.keys s t
  last := by
    intro s' t' hfind
    by_cases hsame : s' = s
    · subst hsame
      rw [Recent.find?_use_self _ _ _ (by decide)] at hfind
      rw [ht, hfind]
    · rw [hother s' hsame]
      exact h.last s' t' (Recent.find?_of_find?_use hfind hsame)

theorem Reflects.unused {seen : List (Frame × Verdict)} {streams : Recent Stream Stamp 16} (h : Reflects seen streams)
    (f : Frame) {v : Verdict} (hv : v.isUse = false) : Reflects (seen ++ [(f, v)]) streams where
  keys := by
    have hused : used [(f, v)] = [] := by simp [used, hv]
    rw [used_append, hused, List.append_nil]
    exact h.keys
  last := by
    intro s t hfind
    rw [lastGood?_concat_of_not_good (not_isGood_of_not_isUse hv)]
    exact h.last s t hfind

theorem Reflects.judge {seen : List (Frame × Verdict)} {streams streams' : Recent Stream Stamp 16} {f : Frame}
    {k k' : SigningKey} {v : Verdict} (h : Reflects seen streams) (hj : Gate.Judgement streams f k v streams' k') :
    Reflects (seen ++ [(f, v)]) streams' := by
  cases hj with
  | unsigned ht => exact h.unused f rfl
  | forged ht hv => exact h.unused f rfl
  | late ht hv hnone hlt => exact h.unused f rfl
  | replay ht hv hlast hle =>
    have hsame := lastGood?_concat_of_not_good (f := f) (v := .rejected .replay) rfl seen
    refine h.use (Frame.stream?_eq ht) rfl ?_ fun s' _ => hsame s'
    rw [hsame]
    exact h.last _ _ hlast
  | @good t ht hv hnew =>
    have hstream := Frame.stream?_eq ht
    refine h.use hstream rfl ?_ fun s' hs' => ?_
    · rw [lastGood?_concat_good, if_pos hstream]
    · rw [lastGood?_concat_good, if_neg (by rw [hstream]; simpa using hs'.symm)]

theorem reflects_run (gate : Gate) (k : SigningKey) (acts : List Act) :
    Reflects ((start gate k).verdicts acts) ((start gate k).run acts).gate.streams := by
  induction acts using List.reverseRecOn with
  | nil => exact ⟨rfl, fun s t h => by cases h⟩
  | append_singleton acts a ih =>
    rw [run_concat, verdicts_concat]
    cases hseen : ((start gate k).run acts).judged a with
    | nil => rwa [streams_act hseen, List.append_nil]
    | cons entry rest =>
      cases a with
      | check f =>
        rw [← hseen]
        exact ih.judge (judgement _ f)
      | observe clock => cases hseen
      | sign f => cases hseen
      | elsewhere gate' f => cases hseen

/-- A good frame of a remembered stream is later than the last good one, and one of any other stream in the window. -/
theorem accepts_run_iff (gate : Gate) (k : SigningKey) (acts : List Act) {f : Frame} {t : Trailer}
    (ht : f.trailer = some t) :
    ((start gate k).run acts).Accepts f ↔
      k.secret.verifies (f.signedPart t) t.signature.bytes = true ∧
        (((start gate k).run acts).Remembers (Gate.streamOf f t) ∧
            (∃ last, lastGood? ((start gate k).verdicts acts) (Gate.streamOf f t) = some last ∧ last < t.timestamp) ∨
          ¬((start gate k).run acts).Remembers (Gate.streamOf f t) ∧
            ((start gate k).run acts).InWindow t.timestamp) := by
  have hsecret : ((start gate k).run acts).key.secret = k.secret := secret_run _ _
  have hreflects := reflects_run gate k acts
  rw [Accepts, (judgement _ f).isGood_iff ht, hsecret]
  refine and_congr_right fun _ => ?_
  cases hfind : ((start gate k).run acts).gate.streams.find? (Gate.streamOf f t) with
  | none =>
    have hforgotten := Recent.find?_eq_none_iff.mp hfind
    simp [Remembers, hforgotten, InWindow]
  | some last =>
    have hremembered : ((start gate k).run acts).Remembers (Gate.streamOf f t) := by
      by_contra hforgotten
      rw [Recent.find?_eq_none_iff.mpr hforgotten] at hfind
      cases hfind
    simp [hremembered, hreflects.last _ _ hfind]

/-! ## Frames that are good twice -/

theorem of_find?_act {c : Checkpoint} {a : Act} {s : Stream} {u' : Stamp}
    (h : (c.act a).gate.streams.find? s = some u') :
    c.gate.streams.find? s = some u' ∨
      ∃ f, a = .check f ∧ f.stream? = some s ∧ c.verdict f = .good u' ∧
        ∀ u, c.gate.streams.find? s = some u → u < u' := by
  cases a with
  | check f =>
    rcases (c.judgement f).of_find? h with hold | hnew
    · exact .inl hold
    · exact .inr ⟨f, rfl, hnew⟩
  | observe clock => exact .inl h
  | sign f => exact .inl h
  | elsewhere gate f => exact .inl h

/-- The next act, if there is one, is the check of a good frame of the stream with an earlier timestamp. -/
def TakenUpBefore (c : Checkpoint) (s : Stream) (t : Stamp) (acts : List Act) : Prop :=
  acts = [] ∨ ∃ f u rest, acts = .check f :: rest ∧ f.stream? = some s ∧ c.verdict f = .good u ∧ u < t

/-- What has become of a stream of which this timestamp or a later one was remembered: it still is, or the stream was
forgotten and, unless that is where things stand, taken up again by an earlier frame. -/
inductive Since (c : Checkpoint) (s : Stream) (t : Stamp) : List Act → Prop where
  | kept {acts : List Act} {u : Stamp} (h : (c.run acts).gate.streams.find? s = some u) (hle : t ≤ u) : Since c s t acts
  | lost {out back : List Act} (h : (c.run out).gate.streams.find? s = none)
      (hback : (c.run out).TakenUpBefore s t back) : Since c s t (out ++ back)

theorem since_run {c : Checkpoint} {s : Stream} {t : Stamp} (h : c.gate.streams.find? s = some t) (acts : List Act) :
    c.Since s t acts := by
  induction acts using List.reverseRecOn with
  | nil => exact .kept h (Fin.le_refl t)
  | append_singleton acts a ih =>
    have hlost (hnone : (c.run (acts ++ [a])).gate.streams.find? s = none) : c.Since s t (acts ++ [a]) := by
      rw [← List.append_nil (acts ++ [a])]
      exact .lost hnone (.inl rfl)
    cases ih with
    | kept hu hle =>
      cases hfind : (c.run (acts ++ [a])).gate.streams.find? s with
      | none => exact hlost hfind
      | some u' =>
        refine .kept hfind ?_
        rw [run_concat] at hfind
        rcases of_find?_act hfind with hold | ⟨_, _, _, _, hlater⟩
        · rw [hu] at hold
          exact Option.some.inj hold ▸ hle
        · exact Fin.le_trans hle (Nat.le_of_lt (hlater _ hu))
    | @lost out back hnone hback =>
      rcases hback with rfl | ⟨f, u, rest, rfl, hf⟩
      · rw [List.append_nil] at hlost ⊢
        cases hfind : (c.run (out ++ [a])).gate.streams.find? s with
        | none => exact hlost hfind
        | some u' =>
          by_cases hle : t ≤ u'
          · exact .kept hfind hle
          · rw [run_concat] at hfind
            rcases of_find?_act hfind with hold | ⟨f, rfl, hf, hgood, _⟩
            · rw [hnone] at hold
              cases hold
            · exact .lost hnone (.inr ⟨f, u', [], rfl, hf, hgood, Fin.not_le.mp hle⟩)
      · rw [List.append_assoc]
        exact .lost hnone (.inr ⟨f, u, rest ++ [a], rfl, hf⟩)

theorem Accepts.inWindow {c : Checkpoint} {f : Frame} (h : c.Accepts f) {t : Trailer} (ht : f.trailer = some t)
    (hnone : c.gate.streams.find? (Gate.streamOf f t) = none) : c.InWindow t.timestamp := by
  rcases (((c.judgement f).isGood_iff ht).mp h).2 with ⟨last, hlast, _⟩ | ⟨_, hwindow⟩
  · rw [hnone] at hlast
    cases hlast
  · exact hwindow

theorem inWindow_of_takenUp {c : Checkpoint} {s : Stream} {f : Frame} {u t : Stamp} (hf : f.stream? = some s)
    (hgood : c.verdict f = .good u) (hlt : u < t) (hnone : c.gate.streams.find? s = none) : c.InWindow t := by
  obtain ⟨t', ht', rfl⟩ := Option.map_eq_some_iff.mp hf
  have haccepts : c.Accepts f := by rw [Accepts, hgood]; rfl
  obtain rfl := Verdict.good.inj (hgood.symm.trans ((c.judgement f).eq_good haccepts ht'))
  exact Nat.le_trans (haccepts.inWindow ht' hnone) (Nat.add_le_add_right (Nat.le_of_lt hlt) _)

theorem used_verdicts_of_accepts {c : Checkpoint} {front : List Act} {f : Frame} (h : (c.run front).Accepts f)
    {t : Trailer} (ht : f.trailer = some t) (later : List Act) :
    used (c.verdicts (front ++ .check f :: later)) =
      used (c.verdicts front) ++ Gate.streamOf f t :: used ((c.run (front ++ [.check f])).verdicts later) := by
  have hgood := ((c.run front).judgement f).eq_good h ht
  have hone : used [(f, Verdict.good t.timestamp)] = [Gate.streamOf f t] :=
    used_singleton rfl (Frame.stream?_eq ht)
  rw [← List.singleton_append, ← List.append_assoc, verdicts_append, verdicts_concat, used_append, used_append, judged,
    hgood, hone, List.append_assoc]
  rfl

/-- Between two times that a frame is good its stream gives way to 16 others, and is taken up again in the window. -/
theorem forgotten_of_accepts_twice (gate : Gate) (k : SigningKey) {front between : List Act} {f : Frame} {t : Trailer}
    (ht : f.trailer = some t) (hfirst : ((start gate k).run front).Accepts f)
    (hsecond : ((start gate k).run (front ++ .check f :: between)).Accepts f) :
    ∃ out back, between = out ++ back ∧
      16 ≤ ((used (((start gate k).run (front ++ [.check f])).verdicts out)).filter
        (· ≠ Gate.streamOf f t)).dedup.length ∧
      ((start gate k).run (front ++ .check f :: out)).InWindow t.timestamp ∧
      ((start gate k).run (front ++ .check f :: out)).TakenUpBefore (Gate.streamOf f t) t.timestamp back := by
  let c := (start gate k).run (front ++ [.check f])
  have hrun (acts : List Act) : (start gate k).run (front ++ .check f :: acts) = c.run acts := by
    rw [← run_append, List.append_assoc, List.singleton_append]
  have hfind : c.gate.streams.find? (Gate.streamOf f t) = some t.timestamp := by
    rw [show c = _ from run_concat _ _ _]
    exact (((start gate k).run front).judgement f).find?_of_good hfirst ht
  rw [hrun] at hsecond
  cases since_run hfind between with
  | @kept _ u hu hle =>
    rcases (((c.run between).judgement f).isGood_iff ht).mp hsecond with ⟨_, ⟨last, hlast, hlt⟩ | ⟨hnone, _⟩⟩
    · obtain rfl := Option.some.inj (hu.symm.trans hlast)
      exact absurd hlt (Fin.not_lt.mpr hle)
    · rw [hu] at hnone
      cases hnone
  | @lost out back hnone hback =>
    refine ⟨out, back, rfl, ?_, ?_, ?_⟩
    · have hforgotten := Recent.find?_eq_none_iff.mp hnone
      rw [← hrun, (reflects_run gate k _).keys, used_verdicts_of_accepts hfirst ht] at hforgotten
      exact Recent.le_length_of_notMem_latest hforgotten
    · rw [hrun]
      rcases hback with rfl | ⟨f', u, rest, rfl, hf', hgood', hlt⟩
      · rw [List.append_nil] at hsecond
        exact hsecond.inWindow ht hnone
      · exact inWindow_of_takenUp hf' hgood' hlt hnone
    · rw [hrun]
      exact hback

/-- What decides about the next frame of a gate, and what a frame needs that is good twice. -/
theorem replay_window (gate : Gate) (k : SigningKey) (acts : List Act) :
    ((start gate k).run acts).gate.streams.keys = Recent.latest (used ((start gate k).verdicts acts)) 16 ∧
    (∀ f t, f.trailer = some t →
      (((start gate k).run acts).Accepts f ↔
        k.secret.verifies (f.signedPart t) t.signature.bytes = true ∧
          (((start gate k).run acts).Remembers (Gate.streamOf f t) ∧
              (∃ last, lastGood? ((start gate k).verdicts acts) (Gate.streamOf f t) = some last ∧
                last < t.timestamp) ∨
            ¬((start gate k).run acts).Remembers (Gate.streamOf f t) ∧
              ((start gate k).run acts).InWindow t.timestamp))) ∧
    (∀ f, ¬f.SignedUnder k.secret →
      (((start gate k).run acts).act (.check f)).gate.streams = ((start gate k).run acts).gate.streams) ∧
    ∀ f t front between, f.trailer = some t → acts = front ++ .check f :: between →
      ((start gate k).run front).Accepts f → ((start gate k).run acts).Accepts f →
      ∃ out back, between = out ++ back ∧
        16 ≤ ((used (((start gate k).run (front ++ [.check f])).verdicts out)).filter
          (· ≠ Gate.streamOf f t)).dedup.length ∧
        ((start gate k).run (front ++ .check f :: out)).InWindow t.timestamp ∧
        ((start gate k).run (front ++ .check f :: out)).TakenUpBefore (Gate.streamOf f t) t.timestamp back := by
  refine ⟨(reflects_run gate k acts).keys, ?_, ?_, ?_⟩
  · intro f t ht
    exact accepts_run_iff gate k acts ht
  · intro f hunsigned
    refine streams_eq_of_not_signedUnder ?_
    rwa [secret_run]
  · intro f t front between ht hacts hfirst hsecond
    subst hacts
    exact forgotten_of_accepts_twice gate k ht hfirst hsecond

/-! ## A frame that is good again behind the window -/

def weigh (streams : Recent Stream Stamp 16) (clock : UInt64) (s : Stream) (t : Stamp) :
    Recent Stream Stamp 16 × UInt64 :=
  match streams.find? s with
  | some last => if t ≤ last then (streams.use s last, clock) else (streams.use s t, Clock.later clock t.toClock)
  | none =>
    if t.val + Gate.newStreamWindow < clock.toNat then (streams, clock)
    else (streams.use s t, Clock.later clock t.toClock)

theorem act_of_verifies {c : Checkpoint} {f : Frame} {t : Trailer} (ht : f.trailer = some t)
    (hv : c.key.secret.verifies (f.signedPart t) t.signature.bytes = true) :
    ((c.act (.check f)).gate.streams, (c.act (.check f)).key.clock) =
      weigh c.gate.streams c.key.clock (Gate.streamOf f t) t.timestamp := by
  have hj := c.judgement f
  generalize c.verdict f = v at hj
  generalize (c.act (.check f)).gate.streams = streams at hj ⊢
  generalize (c.act (.check f)).key = k at hj ⊢
  cases hj with
  | unsigned hnone => cases hnone.symm.trans ht
  | forged ht' hv' =>
    obtain rfl := Option.some.inj (ht.symm.trans ht')
    cases hv.symm.trans hv'
  | replay ht' _ hlast hle =>
    obtain rfl := Option.some.inj (ht.symm.trans ht')
    simp only [weigh, hlast, if_pos hle]
  | late ht' _ hnone hlt =>
    obtain rfl := Option.some.inj (ht.symm.trans ht')
    simp only [weigh, hnone, if_pos hlt]
  | good ht' _ hnew =>
    obtain rfl := Option.some.inj (ht.symm.trans ht')
    rcases hnew with ⟨last, hlast, hlt⟩ | ⟨hnone, hclock⟩
    · simp only [weigh, hlast, if_neg (Fin.not_le.mpr hlt), SigningKey.observe]
    · simp only [weigh, hnone, if_neg (Nat.not_lt.mpr hclock), SigningKey.observe]

def sampleKey : SigningKey := ⟨Block.ofBytes 32 [], 0⟩

def sampleParams (x : UInt8 × UInt64) : SigningParams := ⟨sampleKey.secret, x.1, x.2⟩

def sampleText : Frame := StatusText.frame 1 1 StatusText.critical ""

def sample (x : UInt8 × UInt64) : Frame := sampleText.sign rfl (sampleParams x)

def checkSamples (xs : List (UInt8 × UInt64)) : List Act := xs.map fun x => .check (sample x)

def weighSamples (xs : List (UInt8 × UInt64)) (clock : UInt64) : Recent Stream Stamp 16 × UInt64 :=
  xs.foldl (fun r x => weigh r.1 r.2 ⟨x.1, 1, 1⟩ (Stamp.ofClock x.2)) (.empty, clock)

theorem verifies_sample {secret : Secret} (h : secret = sampleKey.secret) (x : UInt8 × UInt64) :
    secret.verifies ((sample x).signedPart (sampleText.trailerFor (sampleParams x)))
      (sampleText.trailerFor (sampleParams x)).signature.bytes = true := by
  rw [h]
  exact sampleText.verifies_sign rfl (sampleParams x)

theorem accepts_sample_iff {c : Checkpoint} (hc : c.key.secret = sampleKey.secret) (x : UInt8 × UInt64) :
    c.Accepts (sample x) ↔
      (∃ last, c.gate.streams.find? ⟨x.1, 1, 1⟩ = some last ∧ last < Stamp.ofClock x.2) ∨
        c.gate.streams.find? ⟨x.1, 1, 1⟩ = none ∧ c.InWindow (Stamp.ofClock x.2) := by
  have hiff := (c.judgement (sample x)).isGood_iff (t := sampleText.trailerFor (sampleParams x)) rfl
  rw [Accepts, hiff, and_iff_right (verifies_sample hc x)]
  rfl

theorem run_checkSamples (gate : Gate) (xs : List (UInt8 × UInt64)) :
    (((start gate sampleKey).run (checkSamples xs)).gate.streams,
      ((start gate sampleKey).run (checkSamples xs)).key.clock) = weighSamples xs sampleKey.clock := by
  induction xs using List.reverseRecOn with
  | nil => rfl
  | append_singleton xs x ih =>
    have hsecret := secret_run (start gate sampleKey) (checkSamples xs)
    have hv := verifies_sample (secret_run (start gate sampleKey) (checkSamples xs)) x
    have hx := act_of_verifies (t := sampleText.trailerFor (sampleParams x)) rfl hv
    simp only [checkSamples, List.map_append, List.map_cons, List.map_nil, run_concat] at ih hx ⊢
    rw [hx, weighSamples, List.foldl_append]
    exact congrArg (fun r => weigh r.1 r.2 ⟨x.1, 1, 1⟩ (Stamp.ofClock x.2)) ih

theorem streams_checkSamples (gate : Gate) (xs : List (UInt8 × UInt64)) :
    ((start gate sampleKey).run (checkSamples xs)).gate.streams = (weighSamples xs sampleKey.clock).1 :=
  congrArg Prod.fst (run_checkSamples gate xs)

/-- Samples of 16 other streams, and after them an early one of the stream that they drive out. -/
def drivenOut : List (UInt8 × UInt64) :=
  (List.range 16).map (fun i => (UInt8.ofNat (i + 2), 3_000_000)) ++ [(1, 2_000_000)]

def late : UInt8 × UInt64 := (1, 3_000_000)

def away : List Act := checkSamples drivenOut ++ [.observe 100_000_000]

theorem run_away (gate : Gate) :
    (start gate sampleKey).run (.check (sample late) :: away) =
      ((start gate sampleKey).run (checkSamples (late :: drivenOut))).act (.observe 100_000_000) := by
  have hacts : .check (sample late) :: away = checkSamples (late :: drivenOut) ++ [.observe 100_000_000] := rfl
  rw [hacts, run_concat]

theorem find?_away (gate : Gate) :
    ((start gate sampleKey).run (.check (sample late) :: away)).gate.streams.find? ⟨1, 1, 1⟩ =
      some (Stamp.ofClock 2_000_000) := by
  have hobserve (c : Checkpoint) : (c.act (.observe 100_000_000)).gate.streams = c.gate.streams := rfl
  rw [run_away, hobserve, streams_checkSamples]
  decide

theorem not_inWindow_away (gate : Gate) :
    ¬((start gate sampleKey).run (.check (sample late) :: away)).InWindow (Stamp.ofClock late.2) := by
  rw [run_away, InWindow, act, SigningKey.clock_observe]
  intro h
  have hclock := Nat.le_trans (Nat.le_max_right _ _) h
  revert hclock
  decide

theorem accepts_late (gate : Gate) : (start gate sampleKey).Accepts (sample late) := by
  rw [accepts_sample_iff rfl]
  exact .inr ⟨rfl, Nat.zero_le _⟩

theorem accepts_late_away (gate : Gate) :
    ((start gate sampleKey).run (.check (sample late) :: away)).Accepts (sample late) := by
  rw [accepts_sample_iff (secret_run _ _)]
  exact .inl ⟨_, find?_away gate, by decide⟩

theorem replay_window_away :
    (start .new sampleKey).Accepts (sample late) ∧
      ((start .new sampleKey).run (.check (sample late) :: away)).Accepts (sample late) ∧
      ∃ out back, away = out ++ back ∧
        16 ≤ ((used (((start .new sampleKey).run [.check (sample late)]).verdicts out)).filter
          (· ≠ ⟨1, 1, 1⟩)).dedup.length ∧
        ((start .new sampleKey).run (.check (sample late) :: out)).InWindow (Stamp.ofClock late.2) ∧
        ((start .new sampleKey).run (.check (sample late) :: out)).TakenUpBefore ⟨1, 1, 1⟩ (Stamp.ofClock late.2)
          back :=
  ⟨accepts_late .new, accepts_late_away .new,
    (replay_window .new sampleKey (.check (sample late) :: away)).2.2.2 (sample late)
      (sampleText.trailerFor (sampleParams late)) [] away rfl rfl (accepts_late .new) (accepts_late_away .new)⟩

/-- A frame is good a second time although its timestamp has left the window, since its stream was taken up again by
an earlier frame while that was in the window. -/
theorem accepts_again_behind_window :
    ¬∀ (gate : Gate) (k : SigningKey) (front between : List Act) (f : Frame) (t : Trailer), f.trailer = some t →
      ((start gate k).run front).Accepts f → ((start gate k).run (front ++ .check f :: between)).Accepts f →
      16 ≤ ((used (((start gate k).run (front ++ [.check f])).verdicts between)).filter
        (· ≠ Gate.streamOf f t)).dedup.length ∧
      ((start gate k).run (front ++ .check f :: between)).InWindow t.timestamp := by
  intro h
  have hwindow := (h .new sampleKey [] away (sample late) (sampleText.trailerFor (sampleParams late)) rfl
    (accepts_late .new) (accepts_late_away .new)).2
  exact not_inWindow_away .new hwindow

end Checkpoint

end GatedRelay
