import GatedRelay.Proofs.Signing.Window
import Mathlib.Data.List.TakeWhile

/-!
# What a gate makes of a row of verdicts

A gate keeps four things: the trust, the streams, the last problem and a count of rejections.  All that it says of the
next frame can be read from the verdicts since it was made or reset, under whatever keys they were given.  Trust is the
best that they have earned.  The log is told of a problem that is not the one before it, so a problem that comes back
after another one is announced again (`announcedOnce_iff_not_returns`).
-/

set_option autoImplicit false

namespace GatedRelay

/-! ## Verdicts so far -/

namespace Verdict

def trustOf (seen : List Verdict) : Trust :=
  if seen.any isGood then .authenticated else if seen.any isRejection then .badSignature else .unauthenticated

def rejections (seen : List Verdict) : Nat := seen.countP isRejection

theorem trustOf_concat (seen : List Verdict) (v : Verdict) : trustOf (seen ++ [v]) = (trustOf seen).after v := by
  cases v with
  | noKey | unsigned => simp [trustOf, Trust.after, isGood, isRejection]
  | rejected fault =>
    by_cases hgood : seen.any isGood = true
    · simp [trustOf, Trust.after, hgood]
    · by_cases hrejected : seen.any isRejection = true <;>
        simp [trustOf, Trust.after, isGood, isRejection, hgood, hrejected]
  | good t => simp [trustOf, Trust.after, isGood]

theorem trustOf_eq_authenticated_iff {seen : List Verdict} :
    trustOf seen = .authenticated ↔ ∃ v ∈ seen, v.isGood = true := by
  rw [← List.any_eq_true, trustOf]
  split
  · rename_i hgood
    simp [hgood]
  · rename_i hgood
    split <;> simp [hgood]

def sinceGood (seen : List Verdict) : List Verdict := (seen.reverse.takeWhile fun v => !v.isGood).reverse

theorem sinceGood_of_no_good {seen : List Verdict} (h : ∀ v ∈ seen, v.isGood = false) : sinceGood seen = seen := by
  have hall : seen.reverse.takeWhile (fun v => !v.isGood) = seen.reverse := by
    rw [List.takeWhile_eq_self_iff]
    intro v hv
    rw [h v (List.mem_reverse.mp hv)]
    rfl
  rw [sinceGood, hall, List.reverse_reverse]

end Verdict

structure Hearing where
  gate : Gate := .new
  verdicts : List Verdict := []

namespace Hearing

open Verdict

/-- What happens to a gate.  Every frame is checked under a key of its own, or under none. -/
inductive Act where
  | check (f : Frame) (key : Option SigningKey)
  | reset

def act (h : Hearing) : Act → Hearing
  | .check f key => ⟨(h.gate.check f key).1, h.verdicts ++ [(h.gate.judge f key).1]⟩
  | .reset => ⟨h.gate.reset, []⟩

def run (h : Hearing) (acts : List Act) : Hearing := acts.foldl act h

def after (acts : List Act) : Hearing := ({} : Hearing).run acts

def outcome (h : Hearing) (f : Frame) (key : Option SigningKey) : Outcome := (h.gate.check f key).2.2

theorem after_concat (acts : List Act) (a : Act) : after (acts ++ [a]) = (after acts).act a := List.foldl_append

/-- The four things that a gate keeps, as they follow from the verdicts.  The last problem and the count are of use
only until a frame is good. -/
structure Recalled (h : Hearing) : Prop where
  trust : h.gate.trust = trustOf h.verdicts
  coherent : h.gate.Coherent
  streams : h.gate.trust = .authenticated → 0 < h.gate.streams.size
  problem : h.gate.trust ≠ .authenticated → h.gate.lastProblem = h.verdicts.getLast?
  faults : h.gate.trust ≠ .authenticated → h.gate.faults = rejections h.verdicts

theorem recalled_new : Recalled {} where
  trust := rfl
  coherent := Gate.coherent_new
  streams h := by cases h
  problem _ := rfl
  faults _ := rfl

theorem Recalled.faultsAfter {h : Hearing} (hh : h.Recalled) (htrust : h.gate.trust ≠ .authenticated) {v : Verdict}
    (hbad : v.isGood = false) : h.gate.faultsAfter v = rejections (h.verdicts ++ [v]) := by
  rw [rejections, List.countP_append, ← rejections, ← hh.faults htrust]
  cases v with
  | noKey | unsigned | rejected => rfl
  | good t => cases hbad

theorem Recalled.check {h : Hearing} (hh : h.Recalled) (f : Frame) (key : Option SigningKey) :
    (h.act (.check f key)).Recalled := by
  have hkept (hlater : ((h.act (.check f key)).gate.trust ≠ .authenticated)) :
      (h.gate.judge f key).1.isGood = false ∧ h.gate.trust ≠ .authenticated := by
    rw [act, Gate.check_trust, Ne, Trust.after_eq_authenticated_iff, not_or] at hlater
    exact ⟨by simpa using hlater.2, hlater.1⟩
  refine ⟨?_, hh.coherent.check f key, ?_, ?_, ?_⟩
  · rw [act, Gate.check_trust, trustOf_concat, hh.trust]
  · intro htrust
    rw [act, Gate.check_trust, Trust.after_eq_authenticated_iff] at htrust
    rw [act, Gate.check_streams]
    rcases htrust with htrust | hgood
    · exact Gate.judge_size_pos (.inr (hh.streams htrust))
    · exact Gate.judge_size_pos (.inl hgood)
  · intro hlater
    obtain ⟨hbad, htrust⟩ := hkept hlater
    rw [act, (Gate.check_of_problem hbad htrust).1, List.getLast?_concat]
  · intro hlater
    obtain ⟨hbad, htrust⟩ := hkept hlater
    rw [act, (Gate.check_of_problem hbad htrust).2, hh.faultsAfter htrust hbad]

theorem recalled_after (acts : List Act) : (after acts).Recalled := by
  induction acts using List.reverseRecOn with
  | nil => exact recalled_new
  | append_singleton acts a ih =>
    rw [after_concat]
    cases a with
    | check f key => exact ih.check f key
    | reset => exact recalled_new

/-! ## What the next check says -/

section Next

variable {h : Hearing} (hh : h.Recalled) (f : Frame) (key : Option SigningKey)

include hh

theorem Recalled.not_authenticated_iff : h.gate.trust ≠ .authenticated ↔ ∀ v ∈ h.verdicts, v.isGood = false := by
  rw [hh.trust, Ne, trustOf_eq_authenticated_iff]
  simp

theorem Recalled.announce_iff :
    (h.outcome f key).announce = true ↔
      (h.outcome f key).verdict.isGood = false ∧ (∀ v ∈ h.verdicts, v.isGood = false) ∧
        h.verdicts.getLast? ≠ some (h.outcome f key).verdict := by
  rw [outcome, Gate.check_announce_iff, Gate.check_verdict, ← hh.not_authenticated_iff]
  refine and_congr_right fun _ => and_congr_right fun htrust => ?_
  rw [hh.problem htrust]

/-- A peer is told of every problem, but of bad signatures only from the third rejection on. -/
theorem Recalled.notify_iff :
    (h.outcome f key).notify = true ↔
      (∀ v ∈ h.verdicts ++ [(h.outcome f key).verdict], v.isGood = false) ∧
        ((h.outcome f key).verdict = .noKey ∨ (h.outcome f key).verdict = .unsigned ∨
          (h.outcome f key).verdict = .rejected .oldTimestamp ∨
          (h.outcome f key).verdict = .rejected .badSignature ∧
            3 ≤ rejections (h.verdicts ++ [(h.outcome f key).verdict])) := by
  have hreplay : (h.gate.judge f key).1 = .rejected .replay → h.gate.trust = .authenticated :=
    hh.coherent.authenticated_of_replay
  rw [outcome, Gate.check_notify_iff, Gate.check_verdict, List.forall_mem_append, List.forall_mem_singleton,
    ← hh.not_authenticated_iff, and_left_comm, and_assoc]
  refine and_congr_right fun htrust => and_congr_right fun hbad => ?_
  rw [hh.faultsAfter htrust hbad]
  generalize (h.gate.judge f key).1 = v at hreplay hbad ⊢
  cases v with
  | noKey | unsigned => simp [Gate.tells]
  | rejected fault =>
    cases fault with
    | badSignature => simp [Gate.tells_badSignature_iff]
    | oldTimestamp => simp [Gate.tells]
    | replay => exact absurd (hreplay rfl) htrust
  | good t => cases hbad

end Next

/-- The verdicts so far tell the trust, and what comes of one more frame.  A gate remembers streams exactly when it is
authenticated, so a replay is neither announced nor told. -/
structure Explains (seen : List Verdict) (g : Gate) (o : Outcome) : Prop where
  before : g.trust = trustOf seen
  streams : 0 < g.streams.size ↔ g.trust = .authenticated
  trust : o.trust = trustOf (seen ++ [o.verdict])
  changed : o.trustChanged = true ↔ trustOf (seen ++ [o.verdict]) ≠ trustOf seen
  replay : o.verdict = .rejected .replay → o.announce = false ∧ o.notify = false
  notice : o.notify = true ↔
    (∀ v ∈ seen ++ [o.verdict], v.isGood = false) ∧
      (o.verdict = .noKey ∨ o.verdict = .unsigned ∨ o.verdict = .rejected .oldTimestamp ∨
        o.verdict = .rejected .badSignature ∧ 3 ≤ rejections (seen ++ [o.verdict]))

theorem verdicts_explain (acts : List Act) (f : Frame) (key : Option SigningKey) :
    Explains (after acts).verdicts (after acts).gate ((after acts).outcome f key) := by
  have hh := recalled_after acts
  refine ⟨hh.trust, ⟨?_, hh.streams⟩, ?_, ?_, ?_, hh.notify_iff f key⟩
  · intro hsize
    by_contra htrust
    rw [hh.coherent htrust] at hsize
    cases hsize
  · rw [outcome, Gate.check_outcome_trust, Gate.check_verdict, trustOf_concat, hh.trust]
  · rw [outcome, Gate.check_trustChanged_iff, Gate.check_verdict, trustOf_concat, hh.trust, ne_comm]
  · intro hreplay
    rw [outcome, Gate.check_verdict] at hreplay
    have htrust := hh.coherent.authenticated_of_replay hreplay
    constructor
    · rw [Bool.eq_false_iff, outcome, Ne, Gate.check_announce_iff]
      exact fun h => h.2.1 htrust
    · rw [Bool.eq_false_iff, outcome, Ne, Gate.check_notify_iff]
      exact fun h => h.2.1 htrust

/-! ## Announcements -/

/-- Every announcement is of a problem that the peer, which was not authenticated, had not shown since the last good
frame. -/
def AnnouncedOnce (acts : List Act) : Prop :=
  ∀ front f key, front ++ [.check f key] <+: acts → ((after front).outcome f key).announce = true →
    ((after front).outcome f key).verdict.isGood = false ∧ (after front).gate.trust ≠ .authenticated ∧
      ((after front).outcome f key).verdict ∉ sinceGood (after front).verdicts

/-- Before the first good frame a problem comes back after another one. -/
def Returns (acts : List Act) : Prop :=
  ∃ front f key, front ++ [.check f key] <+: acts ∧ ((after front).outcome f key).verdict.isGood = false ∧
    (∀ v ∈ (after front).verdicts, v.isGood = false) ∧
    ((after front).outcome f key).verdict ∈ (after front).verdicts ∧
    (after front).verdicts.getLast? ≠ some ((after front).outcome f key).verdict

/-- A problem is announced unless it is the one before it, so each is announced once exactly where none comes back. -/
theorem announcedOnce_iff_not_returns (acts : List Act) :
    (∀ f key, ((after acts).outcome f key).announce = true ↔
      ((after acts).outcome f key).verdict.isGood = false ∧ (∀ v ∈ (after acts).verdicts, v.isGood = false) ∧
        (after acts).verdicts.getLast? ≠ some ((after acts).outcome f key).verdict) ∧
    (AnnouncedOnce acts ↔ ¬Returns acts) := by
  refine ⟨(recalled_after acts).announce_iff, ?_, ?_⟩
  · rintro honce ⟨front, f, key, hfront, hbad, hclean, hmem, hlast⟩
    have hannounce := ((recalled_after front).announce_iff f key).mpr ⟨hbad, hclean, hlast⟩
    have hnew := (honce front f key hfront hannounce).2.2
    rw [sinceGood_of_no_good hclean] at hnew
    exact hnew hmem
  · intro hreturns front f key hfront hannounce
    have hh := recalled_after front
    obtain ⟨hbad, hclean, hlast⟩ := (hh.announce_iff f key).mp hannounce
    refine ⟨hbad, hh.not_authenticated_iff.mpr hclean, ?_⟩
    rw [sinceGood_of_no_good hclean]
    exact fun hmem => hreturns ⟨front, f, key, hfront, hbad, hclean, hmem, hlast⟩

/-! ## A peer that shows two problems in turn -/

def lateKey : SigningKey := { Checkpoint.sampleKey with clock := 10_000_000 }

def early : Frame := Checkpoint.sample (1, 0)

def turn (i : Nat) : Frame := if i % 2 = 0 then Checkpoint.sampleText else early

def problem (i : Nat) : Verdict := if i % 2 = 0 then .unsigned else .rejected .oldTimestamp

def byTurns (n : Nat) : List Act := (List.range n).map fun i => .check (turn i) (some lateKey)

theorem isGood_problem (i : Nat) : (problem i).isGood = false := by
  unfold problem
  split <;> rfl

theorem problem_succ_ne (i : Nat) : problem i ≠ problem (i + 1) := by
  unfold problem
  split <;> split
  · omega
  · simp
  · simp
  · omega

theorem judge_turn {g : Gate} (hg : g.streams = .empty) (i : Nat) :
    (g.judge (turn i) (some lateKey)).1 = problem i := by
  have hjudge : (g.judge (turn i) (some lateKey)).1 = (Gate.verify g.streams (turn i) lateKey).1 := rfl
  rw [hjudge, hg]
  unfold turn problem
  split
  · rfl
  · have hsecret : lateKey.secret = Checkpoint.sampleKey.secret := rfl
    have hv := Checkpoint.verifies_sample hsecret (1, 0)
    have hlate : (Stamp.ofClock 0).val + Gate.newStreamWindow < lateKey.clock.toNat := by decide
    exact (Gate.judgement .empty early lateKey).eq_oldTimestamp rfl hv rfl hlate

theorem byTurns_succ (n : Nat) : byTurns (n + 1) = byTurns n ++ [.check (turn n) (some lateKey)] := by
  rw [byTurns, List.range_succ, List.map_append]
  rfl

theorem clean_of_problems {seen : List Verdict} {n : Nat} (h : seen = (List.range n).map problem) :
    ∀ v ∈ seen, v.isGood = false := by
  intro v hv
  rw [h] at hv
  obtain ⟨i, _, rfl⟩ := List.mem_map.mp hv
  exact isGood_problem i

theorem verdicts_byTurns (n : Nat) : (after (byTurns n)).verdicts = (List.range n).map problem := by
  induction n with
  | zero => rfl
  | succ n ih =>
    have hh := recalled_after (byTurns n)
    have hstreams := hh.coherent (hh.not_authenticated_iff.mpr (clean_of_problems ih))
    rw [byTurns_succ, after_concat, act, judge_turn hstreams, ih, List.range_succ, List.map_append]
    rfl

theorem verdict_byTurns (n : Nat) : ((after (byTurns n)).outcome (turn n) (some lateKey)).verdict = problem n := by
  have hh := recalled_after (byTurns n)
  have hclean := clean_of_problems (verdicts_byTurns n)
  rw [outcome, Gate.check_verdict, judge_turn (hh.coherent (hh.not_authenticated_iff.mpr hclean))]

/-- Every frame of such a peer is announced, however many there are. -/
theorem announce_byTurns (n : Nat) : ((after (byTurns n)).outcome (turn n) (some lateKey)).announce = true := by
  have hverdicts := verdicts_byTurns n
  rw [(recalled_after (byTurns n)).announce_iff, verdict_byTurns]
  refine ⟨isGood_problem n, clean_of_problems hverdicts, ?_⟩
  rw [hverdicts]
  cases n with
  | zero => simp
  | succ n =>
    rw [List.range_succ, List.map_append, List.map_singleton, List.getLast?_concat]
    exact fun h => problem_succ_ne n (Option.some.inj h)

theorem not_announcedOnce_byTurns : ¬AnnouncedOnce (byTurns 3) := by
  intro honce
  have hverdicts := verdicts_byTurns 2
  have hfront : byTurns 2 ++ [.check (turn 2) (some lateKey)] <+: byTurns 3 := byTurns_succ 2 ▸ List.prefix_refl _
  have hnew := (honce _ _ _ hfront (announce_byTurns 2)).2.2
  rw [sinceGood_of_no_good (clean_of_problems hverdicts), verdict_byTurns, hverdicts] at hnew
  exact hnew (by decide)

end Hearing

end GatedRelay
