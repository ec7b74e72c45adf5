import GatedRelay.Proofs.Recent
import GatedRelay.Signing.Gate

/-!
# What a check of a frame does

A verdict can be good only on a frame that verifies under the secret of the key, and whatever the verdict the secret
stays.  A gate remembers streams only after a good frame, so the first good frame of a peer is one that verifies and is
not behind the clock by more than the window; nothing else is asked of it.
-/

set_option autoImplicit false

namespace GatedRelay

/-- The frame carries a signature that the secret verifies. -/
def Frame.SignedUnder (f : Frame) (secret : Secret) : Prop :=
  ∃ t, f.trailer = some t ∧ secret.verifies (f.signedPart t) t.signature.bytes = true

theorem Verdict.isGood_iff {v : Verdict} : v.isGood = true ↔ ∃ t, v = .good t := by
  cases v <;> simp [isGood]

theorem Frame.verifies_sign (f : Frame) (h : f.version = .v2) (p : SigningParams) :
    p.secret.verifies ((f.sign h p).signedPart (f.trailerFor p)) (f.trailerFor p).signature.bytes = true :=
  p.secret.verifies_sign _

namespace Gate

@[simp] theorem check_verdict (g : Gate) (f : Frame) (key : Option SigningKey) :
    (g.check f key).2.2.verdict = (g.judge f key).1 := by
  simp only [check, enter]
  split
  · rfl
  · split <;> rfl

@[simp] theorem check_key (g : Gate) (f : Frame) (key : Option SigningKey) :
    (g.check f key).2.1 = (g.judge f key).2.2 := rfl

@[simp] theorem check_trust (g : Gate) (f : Frame) (key : Option SigningKey) :
    (g.check f key).1.trust = g.trust.after (g.judge f key).1 := by
  simp only [check, enter]
  split
  · rfl
  · split <;> rfl

@[simp] theorem check_streams (g : Gate) (f : Frame) (key : Option SigningKey) :
    (g.check f key).1.streams = (g.judge f key).2.1 := by
  simp only [check, enter]
  split
  · rfl
  · split <;> rfl

theorem check_outcome_trust (g : Gate) (f : Frame) (key : Option SigningKey) :
    (g.check f key).2.2.trust = g.trust.after (g.judge f key).1 := by
  simp only [check, enter]
  split
  · rfl
  · split <;> rfl

theorem check_trustChanged_iff (g : Gate) (f : Frame) (key : Option SigningKey) :
    (g.check f key).2.2.trustChanged = true ↔ g.trust ≠ g.trust.after (g.judge f key).1 := by
  simp only [check, enter]
  split
  · exact decide_eq_true_iff
  · split <;> exact decide_eq_true_iff

/-- The log is told of a problem, unless the peer is authenticated or the problem is the last one. -/
theorem check_announce_iff (g : Gate) (f : Frame) (key : Option SigningKey) :
    (g.check f key).2.2.announce = true ↔
      (g.judge f key).1.isGood = false ∧ g.trust ≠ .authenticated ∧ g.lastProblem ≠ some (g.judge f key).1 := by
  simp only [check, enter]
  split
  · rename_i hgood
    simp [hgood]
  · split
    · rename_i htrust
      simp [htrust]
    · rename_i hgood htrust
      simp [hgood, htrust]

theorem tells_badSignature_iff {faults : Nat} : tells faults (.rejected .badSignature) = true ↔ 3 ≤ faults :=
  decide_eq_true_iff

theorem check_notify_iff (g : Gate) (f : Frame) (key : Option SigningKey) :
    (g.check f key).2.2.notify = true ↔
      (g.judge f key).1.isGood = false ∧ g.trust ≠ .authenticated ∧
        tells (g.faultsAfter (g.judge f key).1) (g.judge f key).1 = true := by
  simp only [check, enter]
  split
  · rename_i hgood
    simp [hgood]
  · split
    · rename_i htrust
      simp [htrust]
    · rename_i hgood htrust
      simp [hgood, htrust]

/-- What is kept of a problem of a peer that is not authenticated. -/
theorem check_of_problem {g : Gate} {f : Frame} {key : Option SigningKey} (hbad : (g.judge f key).1.isGood = false)
    (htrust : g.trust ≠ .authenticated) :
    (g.check f key).1.lastProblem = some (g.judge f key).1 ∧
      (g.check f key).1.faults = g.faultsAfter (g.judge f key).1 := by
  simp [check, enter, hbad, htrust]

theorem check_of_good {g : Gate} {f : Frame} {key : Option SigningKey} (h : (g.judge f key).1.isGood = true) :
    (g.check f key).2.2.announce = false ∧ (g.check f key).2.2.notify = false := by
  simp [check, enter, h]

/-! ## What a check under a key comes to -/

/-- What a check under a key comes to: the verdict, the streams after it and the key after it. -/
inductive Judgement (streams : Recent Stream Stamp 16) (f : Frame) (k : SigningKey) :
    Verdict → Recent Stream Stamp 16 → SigningKey → Prop where
  | unsigned (ht : f.trailer = none) : Judgement streams f k .unsigned streams k
  | forged {t : Trailer} (ht : f.trailer = some t)
      (hv : k.secret.verifies (f.signedPart t) t.signature.bytes = false) :
      Judgement streams f k (.rejected .badSignature) streams k
  | replay {t : Trailer} {last : Stamp} (ht : f.trailer = some t)
      (hv : k.secret.verifies (f.signedPart t) t.signature.bytes = true)
      (hlast : streams.find? (streamOf f t) = some last) (hle : t.timestamp ≤ last) :
      Judgement streams f k (.rejected .replay) (streams.use (streamOf f t) last) k
  | late {t : Trailer} (ht : f.trailer = some t)
      (hv : k.secret.verifies (f.signedPart t) t.signature.bytes = true)
      (hnone : streams.find? (streamOf f t) = none) (hlt : t.timestamp.val + newStreamWindow < k.clock.toNat) :
      Judgement streams f k (.rejected .oldTimestamp) streams k
  | good {t : Trailer} (ht : f.trailer = some t)
      (hv : k.secret.verifies (f.signedPart t) t.signature.bytes = true)
      (h : (∃ last, streams.find? (streamOf f t) = some last ∧ last < t.timestamp) ∨
        streams.find? (streamOf f t) = none ∧ k.clock.toNat ≤ t.timestamp.val + newStreamWindow) :
      Judgement streams f k (.good t.timestamp) (streams.use (streamOf f t) t.timestamp)
        (k.observe t.timestamp.toClock)

theorem judgement (streams : Recent Stream Stamp 16) (f : Frame) (k : SigningKey) :
    Judgement streams f k (verify streams f k).1 (verify streams f k).2.1 (verify streams f k).2.2 := by
  unfold verify
  split
  · exact .unsigned ‹_›
  · rename_i t ht
    split
    · rename_i hv
      simp only
      split
      · rename_i last hlast
        split
        · exact .replay ht hv hlast ‹_›
        · rename_i hlt
          exact .good ht hv (.inl ⟨last, hlast, Fin.not_le.mp hlt⟩)
      · rename_i hnone
        split
        · exact .late ht hv hnone ‹_›
        · rename_i hlt
          exact .good ht hv (.inr ⟨hnone, Nat.le_of_not_lt hlt⟩)
    · rename_i hv
      exact .forged ht (Bool.not_eq_true _ ▸ hv)

section Judgement

variable {streams streams' : Recent Stream Stamp 16} {f : Frame} {k k' : SigningKey} {v : Verdict}

theorem Judgement.secret_eq (hj : Judgement streams f k v streams' k') : k'.secret = k.secret := by
  cases hj <;> rfl

theorem Judgement.key_of_good {t : Stamp} (hj : Judgement streams f k (.good t) streams' k') :
    k' = k.observe t.toClock := by
  cases hj
  rfl

theorem Judgement.key_of_not_good (hj : Judgement streams f k v streams' k') (h : v.isGood = false) : k' = k := by
  cases hj with
  | unsigned | forged | replay | late => rfl
  | good => cases h

theorem Judgement.signedUnder (hj : Judgement streams f k v streams' k') (h : v.isGood = true) :
    f.SignedUnder k.secret := by
  cases hj with
  | unsigned | forged | replay | late => cases h
  | good ht hv => exact ⟨_, ht, hv⟩

theorem Judgement.streams_eq (hj : Judgement streams f k v streams' k') (h : ¬f.SignedUnder k.secret) :
    streams' = streams := by
  cases hj with
  | unsigned | forged | late => rfl
  | replay ht hv | good ht hv => exact absurd ⟨_, ht, hv⟩ h

/-- A good frame of a stream that is known is later than the last one, and one of any other stream is in the window. -/
theorem Judgement.isGood_iff (hj : Judgement streams f k v streams' k') {t : Trailer} (ht : f.trailer = some t) :
    v.isGood = true ↔ k.secret.verifies (f.signedPart t) t.signature.bytes = true ∧
      ((∃ last, streams.find? (streamOf f t) = some last ∧ last < t.timestamp) ∨
        streams.find? (streamOf f t) = none ∧ k.clock.toNat ≤ t.timestamp.val + newStreamWindow) := by
  cases hj with
  | unsigned ht' => simp [ht] at ht'
  | forged ht' hv =>
    obtain rfl := Option.some.inj (ht.symm.trans ht')
    simp [Verdict.isGood, hv]
  | replay ht' hv hlast hle =>
    obtain rfl := Option.some.inj (ht.symm.trans ht')
    simp [Verdict.isGood, hlast, Fin.not_lt.mpr hle]
  | late ht' hv hnone hlt =>
    obtain rfl := Option.some.inj (ht.symm.trans ht')
    simp [Verdict.isGood, hnone, Nat.not_le.mpr hlt]
  | good ht' hv hnew =>
    obtain rfl := Option.some.inj (ht.symm.trans ht')
    exact ⟨fun _ => ⟨hv, hnew⟩, fun _ => rfl⟩

theorem Judgement.eq_good (hj : Judgement streams f k v streams' k') (h : v.isGood = true) {t : Trailer}
    (ht : f.trailer = some t) : v = .good t.timestamp := by
  cases hj with
  | unsigned | forged | replay | late => cases h
  | good ht' => rw [Option.some.inj (ht.symm.trans ht')]

theorem Judgement.eq_oldTimestamp (hj : Judgement streams f k v streams' k') {t : Trailer} (ht : f.trailer = some t)
    (hv : k.secret.verifies (f.signedPart t) t.signature.bytes = true) (hnone : streams.find? (streamOf f t) = none)
    (hlt : t.timestamp.val + newStreamWindow < k.clock.toNat) : v = .rejected .oldTimestamp := by
  cases hj with
  | unsigned hnone' => cases ht.symm.trans hnone'
  | forged ht' hforged =>
    obtain rfl := Option.some.inj (ht.symm.trans ht')
    cases hv.symm.trans hforged
  | replay ht' _ hlast hle =>
    obtain rfl := Option.some.inj (ht.symm.trans ht')
    cases hnone.symm.trans hlast
  | late => rfl
  | good ht' _ hnew =>
    obtain rfl := Option.some.inj (ht.symm.trans ht')
    rcases hnew with ⟨_, hlast, _⟩ | ⟨_, hclock⟩
    · cases hnone.symm.trans hlast
    · exact absurd hclock (Nat.not_le.mpr hlt)

/-- A stream that is remembered is forgotten only for another one. -/
theorem Judgement.size_pos (hj : Judgement streams f k v streams' k')
    (h : v.isGood = true ∨ 0 < streams.size) : 0 < streams'.size := by
  cases hj with
  | unsigned | forged | late =>
    rcases h with h | h
    · cases h
    · exact h
  | replay | good => exact Recent.size_use_pos (by decide) _ _ _

theorem Judgement.not_replay_of_empty (hj : Judgement .empty f k v streams' k') : v ≠ .rejected .replay := by
  rintro rfl
  cases hj with
  | replay _ _ hlast _ => cases hlast

theorem Judgement.eq_empty (hj : Judgement .empty f k v streams' k') (h : v.isGood = false) : streams' = .empty := by
  cases hj with
  | unsigned | forged | late => rfl
  | replay _ _ hlast _ => cases hlast
  | good => cases h

end Judgement

theorem verify_secret (streams : Recent Stream Stamp 16) (f : Frame) (k : SigningKey) :
    (verify streams f k).2.2.secret = k.secret := (judgement streams f k).secret_eq

theorem judge_secret (g : Gate) (f : Frame) (key : Option SigningKey) :
    (g.judge f key).2.2.map (·.secret) = key.map (·.secret) := by
  cases key with
  | none => rfl
  | some k => simp [judge, verify_secret]

theorem signedUnder_of_judge {g : Gate} {f : Frame} {key : Option SigningKey}
    (h : (g.judge f key).1.isGood = true) : ∃ k, key = some k ∧ f.SignedUnder k.secret := by
  cases key with
  | none => cases h
  | some k => exact ⟨k, rfl, (judgement g.streams f k).signedUnder h⟩

theorem judge_eq_good {g : Gate} {f : Frame} {key : Option SigningKey} (h : (g.judge f key).1.isGood = true)
    {t : Trailer} (ht : f.trailer = some t) : (g.judge f key).1 = .good t.timestamp := by
  cases key with
  | none => cases h
  | some k => exact (judgement g.streams f k).eq_good h ht

theorem judge_of_good {g : Gate} {f : Frame} {k : SigningKey} {t : Stamp} (h : (g.judge f (some k)).1 = .good t) :
    (g.judge f (some k)).2.2 = some (k.observe t.toClock) := by
  have hj := judgement g.streams f k
  rw [judge] at h
  rw [h] at hj
  exact congrArg some hj.key_of_good

theorem judge_of_not_good {g : Gate} {f : Frame} {key : Option SigningKey} (h : (g.judge f key).1.isGood = false) :
    (g.judge f key).2.2 = key := by
  cases key with
  | none => rfl
  | some k => exact congrArg some ((judgement g.streams f k).key_of_not_good h)

theorem judge_size_pos {g : Gate} {f : Frame} {key : Option SigningKey}
    (h : (g.judge f key).1.isGood = true ∨ 0 < g.streams.size) : 0 < (g.judge f key).2.1.size := by
  cases key with
  | none =>
    rcases h with h | h
    · cases h
    · exact h
  | some k => exact (judgement g.streams f k).size_pos h

/-! ## The first good frame -/

/-- The frame verifies under a key that is there, and its timestamp is not behind the clock by more than the window. -/
def Fresh (f : Frame) (key : Option SigningKey) : Prop :=
  ∃ k t, key = some k ∧ f.trailer = some t ∧ k.secret.verifies (f.signedPart t) t.signature.bytes = true ∧
    k.clock.toNat ≤ t.timestamp.val + newStreamWindow

theorem verify_empty_isGood_iff (f : Frame) (k : SigningKey) :
    (verify .empty f k).1.isGood = true ↔ Fresh f (some k) := by
  have hj := judgement .empty f k
  constructor
  · intro h
    obtain ⟨t, ht, _⟩ := hj.signedUnder h
    obtain ⟨hv, ⟨last, hlast, _⟩ | ⟨_, hclock⟩⟩ := (hj.isGood_iff ht).mp h
    · cases hlast
    · exact ⟨k, t, rfl, ht, hv, hclock⟩
  · rintro ⟨_, t, ⟨⟩, ht, hv, hclock⟩
    exact (hj.isGood_iff ht).mpr ⟨hv, .inr ⟨rfl, hclock⟩⟩

/-- Streams are remembered only by a gate that has seen a good frame. -/
def Coherent (g : Gate) : Prop := g.trust ≠ .authenticated → g.streams = .empty

theorem coherent_new : new.Coherent := fun _ => rfl

theorem Coherent.judge_isGood_iff {g : Gate} (hg : g.Coherent) (ht : g.trust ≠ .authenticated) (f : Frame)
    (key : Option SigningKey) : (g.judge f key).1.isGood = true ↔ Fresh f key := by
  cases key with
  | none =>
    constructor
    · intro h
      cases h
    · rintro ⟨k, _, hk, _⟩
      cases hk
  | some k =>
    rw [judge, hg ht]
    exact verify_empty_isGood_iff f k

theorem Coherent.check {g : Gate} (hg : g.Coherent) (f : Frame) (key : Option SigningKey) :
    (g.check f key).1.Coherent := by
  intro ht
  rw [check_trust, Ne, Trust.after_eq_authenticated_iff, not_or] at ht
  obtain ⟨htrust, hgood⟩ := ht
  rw [check_streams]
  cases key with
  | none => exact hg htrust
  | some k =>
    rw [judge, hg htrust] at hgood ⊢
    exact (judgement .empty f k).eq_empty (by simpa using hgood)

/-- Only a frame of a remembered stream can be a replay. -/
theorem Coherent.authenticated_of_replay {g : Gate} (hg : g.Coherent) {f : Frame} {key : Option SigningKey}
    (h : (g.judge f key).1 = .rejected .replay) : g.trust = .authenticated := by
  by_contra htrust
  cases key with
  | none => cases h
  | some k =>
    rw [judge, hg htrust] at h
    exact (judgement .empty f k).not_replay_of_empty h

end Gate

end GatedRelay
