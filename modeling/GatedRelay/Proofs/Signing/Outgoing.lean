import GatedRelay.Proofs.Frame.Resigning
import GatedRelay.Proofs.Signing.Window

/-!
# Frames that the relay signs

Every signature takes a tick of the key, so in order the clocks of the signed frames increase.  A gate that starts with
a copy of the key accepts all of them, however many streams they belong to (`accepts_signed`).  A frame carries only 48
of the 64 bits of the clock: its timestamp is behind that of an earlier frame once the clock has passed the end of the
field between the two (`increasing_iff_not_restarts`).
-/

set_option autoImplicit false

namespace GatedRelay

def Stamp.limit : Nat := 0x1000000000000

theorem Stamp.toNat_toClock (t : Stamp) : t.toClock.toNat = t.val := by
  apply UInt64.toNat_ofNat_of_lt'
  exact Nat.lt_trans t.isLt (by decide)

def Frame.carried (frames : List Frame) : List Stamp := frames.filterMap fun g => g.trailer.map (·.timestamp)

namespace Checkpoint

theorem limit_eq : Stamp.limit = 281474976710656 := rfl

theorem size_eq : UInt64.size = 18446744073709551616 := rfl

def Act.Fits : Act → Prop
  | .observe clock => clock.toNat < Stamp.limit
  | _ => True

def signing (c : Checkpoint) : Act → List (Nat × Frame)
  | .sign f => ((c.key.sign f).2.map fun g => ((c.key.sign f).1.clock.toNat, g)).toList
  | _ => []

/-- The frames that are signed in a run, each with the clock that it is signed at. -/
def signings : Checkpoint → List Act → List (Nat × Frame)
  | _, [] => []
  | c, a :: rest => c.signing a ++ signings (c.act a) rest

def signed (c : Checkpoint) (acts : List Act) : List Frame := (c.signings acts).map (·.2)

def clocks (c : Checkpoint) (acts : List Act) : List Nat := (c.signings acts).map (·.1)

/-! ## One signature -/

theorem signing_of_v1 (c : Checkpoint) {f : Frame} (h : f.version = .v1) : c.signing (.sign f) = [] := by
  rw [signing, SigningKey.sign, Frame.signedWith_of_v1 h]
  rfl

theorem signing_of_v2 (c : Checkpoint) {f : Frame} (h : f.version = .v2) :
    c.signing (.sign f) = [((c.act (.sign f)).key.clock.toNat,
      f.sign h ⟨c.key.secret, SigningKey.outgoingLink, (c.act (.sign f)).key.clock⟩)] := by
  rw [signing, SigningKey.sign, Frame.signedWith_of_v2 h]
  rfl

/-- A frame is signed at the clock after its tick, and carries the low bits of that clock. -/
theorem of_mem_signing {c : Checkpoint} {a : Act} {n : Nat} {g : Frame} (h : (n, g) ∈ c.signing a) :
    (∃ f, a = .sign f ∧ n = (c.key.sign f).1.clock.toNat) ∧
      ∃ t, g.trailer = some t ∧ t.timestamp.val = n % Stamp.limit := by
  cases a with
  | sign f =>
    cases hversion : f.version with
    | v1 =>
      rw [c.signing_of_v1 hversion] at h
      cases h
    | v2 =>
      rw [c.signing_of_v2 hversion] at h
      obtain ⟨rfl, rfl⟩ := Prod.mk.inj (List.mem_singleton.mp h)
      exact ⟨⟨f, rfl, rfl⟩, _, rfl, rfl⟩
  | check f => cases h
  | observe clock => cases h
  | elsewhere gate f => cases h

theorem signing_cases (c : Checkpoint) (a : Act) :
    c.signing a = [] ∨ ∃ f g, a = .sign f ∧ c.signing a = [((c.act a).key.clock.toNat, g)] := by
  cases a with
  | sign f =>
    cases hversion : f.version with
    | v1 => exact .inl (c.signing_of_v1 hversion)
    | v2 => exact .inr ⟨f, _, rfl, c.signing_of_v2 hversion⟩
  | check | observe | elsewhere => exact .inl rfl

theorem carried_signings {signings : List (Nat × Frame)}
    (h : ∀ n g, (n, g) ∈ signings → ∃ t, g.trailer = some t ∧ t.timestamp.val = n % Stamp.limit) :
    (Frame.carried (signings.map (·.2))).map (·.val) = signings.map fun e => e.1 % Stamp.limit := by
  induction signings with
  | nil => rfl
  | cons e rest ih =>
    obtain ⟨t, ht, hval⟩ := h e.1 e.2 List.mem_cons_self
    have hrest := ih fun n g hmem => h n g (List.mem_cons_of_mem e hmem)
    rw [Frame.carried] at hrest ⊢
    rw [List.map_cons, List.map_cons, List.filterMap_cons_some (b := t.timestamp) (by rw [ht]; rfl), List.map_cons,
      hrest, hval]

theorem of_mem_signings {c : Checkpoint} {acts : List Act} {n : Nat} {g : Frame} (h : (n, g) ∈ c.signings acts) :
    ∃ t, g.trailer = some t ∧ t.timestamp.val = n % Stamp.limit := by
  induction acts generalizing c with
  | nil => cases h
  | cons a rest ih =>
    rcases List.mem_append.mp h with hnow | hlater
    · exact (of_mem_signing hnow).2
    · exact ih hlater

theorem carried_signed (c : Checkpoint) (acts : List Act) :
    (Frame.carried (c.signed acts)).map (·.val) = (c.clocks acts).map (· % Stamp.limit) := by
  rw [signed, carried_signings fun n g h => of_mem_signings h, clocks, List.map_map]
  rfl

theorem carried_increasing_iff (c : Checkpoint) (acts : List Act) :
    (Frame.carried (c.signed acts)).Pairwise (· < ·) ↔
      (c.clocks acts).Pairwise fun a b => a % Stamp.limit < b % Stamp.limit := by
  rw [← List.pairwise_map (f := (· % Stamp.limit)) (R := (· < ·)), ← carried_signed, List.pairwise_map]
  rfl

/-! ## The clock of a run -/

theorem clocks_cons (c : Checkpoint) (a : Act) (rest : List Act) :
    c.clocks (a :: rest) = (c.signing a).map (·.1) ++ (c.act a).clocks rest := by
  rw [clocks, signings, List.map_append, clocks]

theorem clock_judged {streams streams' : Recent Stream Stamp 16} {f : Frame} {k k' : SigningKey} {v : Verdict}
    (h : Gate.Judgement streams f k v streams' k') :
    ∃ n < Stamp.limit, k'.clock.toNat = max k.clock.toNat n := by
  cases h with
  | unsigned | forged | replay | late => exact ⟨0, by decide, (Nat.max_eq_left (Nat.zero_le _)).symm⟩
  | @good t => exact ⟨t.timestamp.val, t.timestamp.isLt, by rw [SigningKey.clock_observe, Stamp.toNat_toClock]⟩

theorem clock_act (c : Checkpoint) {a : Act} (h : a.Fits) :
    (∃ f, a = .sign f) ∧ (c.act a).key.clock.toNat = min (c.key.clock.toNat + 1) (UInt64.size - 1) ∨
      (∀ f, a ≠ .sign f) ∧ ∃ n < Stamp.limit, (c.act a).key.clock.toNat = max c.key.clock.toNat n := by
  cases a with
  | sign f => exact .inl ⟨⟨f, rfl⟩, c.key.clock_sign f⟩
  | check f => exact .inr ⟨by simp, clock_judged (c.judgement f)⟩
  | observe clock => exact .inr ⟨by simp, clock.toNat, h, c.key.clock_observe clock⟩
  | elsewhere gate f => exact .inr ⟨by simp, clock_judged (Gate.judgement gate.streams f c.key)⟩

def reach (c : Checkpoint) (steps : Nat) : Nat := max c.key.clock.toNat (Stamp.limit - 1) + steps

theorem reach_act (c : Checkpoint) {a : Act} (h : a.Fits) (steps : Nat) :
    (c.act a).reach steps ≤ c.reach (steps + 1) := by
  have hlimit : 0 < Stamp.limit := by decide
  unfold reach
  rcases c.clock_act h with ⟨_, hclock⟩ | ⟨_, n, hn, hclock⟩
  · omega
  · omega

/-- As long as the clock does not stop at the end of its own range, every signature is at a later clock. -/
theorem clocks_lt {c : Checkpoint} {acts : List Act} (hfits : ∀ a ∈ acts, a.Fits)
    (hroom : c.reach acts.length < UInt64.size) :
    (c.clocks acts).Pairwise (· < ·) ∧ ∀ n ∈ c.clocks acts, c.key.clock.toNat < n ∧ n ≤ c.reach acts.length := by
  induction acts generalizing c with
  | nil => exact ⟨.nil, by simp [clocks, signings]⟩
  | cons a rest ih =>
    have hfit := hfits a List.mem_cons_self
    -- What a step adds to the clock, it takes from the steps that are left.
    have hreach := c.reach_act hfit rest.length
    rw [List.length_cons] at hroom ⊢
    obtain ⟨hpairwise, hbounds⟩ :=
      ih (fun b hb => hfits b (List.mem_cons_of_mem a hb)) (Nat.lt_of_le_of_lt hreach hroom)
    have hkey : c.key.clock.toNat ≤ (c.act a).key.clock.toNat := by
      have hsize := c.key.clock.toNat_lt_size
      rcases c.clock_act hfit with ⟨_, hclock⟩ | ⟨_, n, _, hclock⟩
      · omega
      · omega
    have hlater (n : Nat) (hn : n ∈ (c.act a).clocks rest) :
        c.key.clock.toNat < n ∧ n ≤ c.reach (rest.length + 1) := by
      obtain ⟨hlt, hle⟩ := hbounds n hn
      exact ⟨Nat.lt_of_le_of_lt hkey hlt, Nat.le_trans hle hreach⟩
    rw [clocks_cons]
    rcases c.signing_cases a with hnone | ⟨f, g, rfl, hone⟩
    · rw [hnone]
      exact ⟨hpairwise, hlater⟩
    · have hhere : c.key.clock.toNat < (c.act (.sign f)).key.clock.toNat ∧
          (c.act (.sign f)).key.clock.toNat ≤ c.reach (rest.length + 1) := by
        have hclock : (c.act (.sign f)).key.clock.toNat = _ := c.key.clock_sign f
        unfold reach at hroom ⊢
        omega
      rw [hone]
      constructor
      · exact List.pairwise_cons.mpr ⟨fun n hn => (hbounds n hn).1, hpairwise⟩
      · intro n hn
        rcases List.mem_cons.mp hn with rfl | hn
        · exact hhere
        · exact hlater n hn

/-! ## A gate that follows the signatures -/

structure Behind (c : Checkpoint) (n : Nat) : Prop where
  clock : c.key.clock.toNat ≤ n
  streams : ∀ s t, c.gate.streams.find? s = some t → t.val ≤ n

theorem Behind.mono {c : Checkpoint} {n n' : Nat} (h : c.Behind n) (hle : n ≤ n') : c.Behind n' :=
  ⟨Nat.le_trans h.clock hle, fun s t ht => Nat.le_trans (h.streams s t ht) hle⟩

theorem behind_start (k : SigningKey) : (start .new k).Behind k.clock.toNat :=
  ⟨Nat.le_refl _, fun s t ht => by cases ht⟩

theorem Behind.accepts {c : Checkpoint} {n : Nat} (h : c.Behind n) {g : Frame} {t : Trailer} (ht : g.trailer = some t)
    (hv : c.key.secret.verifies (g.signedPart t) t.signature.bytes = true) (hlater : n < t.timestamp.val) :
    c.Accepts g := by
  apply ((c.judgement g).isGood_iff ht).mpr
  refine ⟨hv, ?_⟩
  -- A stream that was forgotten is a new one, and then the clock is what the timestamp is held against.
  cases hfind : c.gate.streams.find? (Gate.streamOf g t) with
  | none =>
    right
    refine ⟨rfl, ?_⟩
    have hclock := h.clock
    omega
  | some last => exact .inl ⟨last, rfl, Nat.lt_of_le_of_lt (h.streams _ last hfind) hlater⟩

theorem key_of_accepts {c : Checkpoint} {g : Frame} {t : Trailer} (ht : g.trailer = some t) (h : c.Accepts g) :
    (c.act (.check g)).key = c.key.observe t.timestamp.toClock := by
  have hgood : (c.gate.judge g (some c.key)).1 = .good t.timestamp := by
    rw [← Gate.check_verdict]
    exact (c.judgement g).eq_good h ht
  have hkey : (c.act (.check g)).key = (c.gate.judge g (some c.key)).2.2.getD c.key := rfl
  rw [hkey, Gate.judge_of_good hgood]
  rfl

theorem Behind.check {c : Checkpoint} {n : Nat} (h : c.Behind n) {g : Frame} {t : Trailer} (ht : g.trailer = some t)
    (hgood : c.Accepts g) (hlater : n < t.timestamp.val) : (c.act (.check g)).Behind t.timestamp.val where
  clock := by
    have hclock := h.clock
    rw [key_of_accepts ht hgood, SigningKey.clock_observe, Stamp.toNat_toClock]
    omega
  streams := by
    intro s u hu
    rcases (c.judgement g).of_find? hu with hold | ⟨_, hv, _⟩
    · exact Nat.le_trans (h.streams s u hold) (Nat.le_of_lt hlater)
    · obtain rfl := Verdict.good.inj (hv.symm.trans ((c.judgement g).eq_good hgood ht))
      exact Nat.le_refl _

theorem Behind.signed {c : Checkpoint} {n : Nat} (h : c.Behind n) {f : Frame} (hversion : f.version = .v2)
    {p : SigningParams} (hsecret : c.key.secret = p.secret) (hclock : p.timestamp.toNat = n + 1)
    (hroom : n + 1 < Stamp.limit) :
    c.Accepts (f.sign hversion p) ∧ (c.act (.check (f.sign hversion p))).Behind (n + 1) := by
  have hstamp : (f.trailerFor p).timestamp.val = n + 1 := by
    have hvalue : (f.trailerFor p).timestamp.val = p.timestamp.toNat % Stamp.limit := rfl
    rw [hvalue, hclock]
    exact Nat.mod_eq_of_lt hroom
  have hlater : n < (f.trailerFor p).timestamp.val := by omega
  have hv := f.verifies_sign hversion p
  rw [← hsecret] at hv
  have hgood : c.Accepts (f.sign hversion p) := h.accepts (t := f.trailerFor p) rfl hv hlater
  have hbehind := h.check (t := f.trailerFor p) rfl hgood hlater
  rw [hstamp] at hbehind
  exact ⟨hgood, hbehind⟩

theorem signed_cons (c : Checkpoint) (a : Act) (rest : List Act) :
    c.signed (a :: rest) = (c.signing a).map (·.2) ++ (c.act a).signed rest := by
  rw [signed, signings, List.map_append, signed]

theorem verdicts_check (c : Checkpoint) (g : Frame) (rest : List Act) :
    c.verdicts (.check g :: rest) = (g, c.verdict g) :: (c.act (.check g)).verdicts rest := rfl

theorem checked_verdicts (c : Checkpoint) (gs : List Frame) : (c.verdicts (gs.map .check)).map (·.1) = gs := by
  induction gs generalizing c with
  | nil => rfl
  | cons g rest ih =>
    rw [List.map_cons, verdicts_check, List.map_cons, ih]

theorem verdicts_of_behind {signer verifier : Checkpoint} (hsecret : verifier.key.secret = signer.key.secret)
    (hbehind : verifier.Behind signer.key.clock.toNat) {fs : List Frame}
    (hroom : signer.key.clock.toNat + fs.length < Stamp.limit) :
    ∀ e ∈ verifier.verdicts ((signer.signed (fs.map .sign)).map .check), e.2.isGood = true := by
  induction fs generalizing signer verifier with
  | nil => simp [signed, signings, verdicts]
  | cons f rest ih =>
    have hclock : (signer.act (.sign f)).key.clock.toNat = signer.key.clock.toNat + 1 := by
      have htick : (signer.act (.sign f)).key.clock.toNat = _ := signer.key.clock_sign f
      rw [limit_eq] at hroom
      rw [htick, size_eq]
      omega
    have hroom' : (signer.act (.sign f)).key.clock.toNat + rest.length < Stamp.limit := by
      rw [List.length_cons] at hroom
      omega
    rw [List.map_cons, signed_cons]
    cases hversion : f.version with
    | v1 =>
      -- The tick is lost: only the signer moves on.
      rw [signer.signing_of_v1 hversion]
      refine ih hsecret (hbehind.mono ?_) hroom'
      omega
    | v2 =>
      let p : SigningParams := ⟨signer.key.secret, SigningKey.outgoingLink, (signer.act (.sign f)).key.clock⟩
      have hsigning : signer.signing (.sign f) = [((signer.act (.sign f)).key.clock.toNat, f.sign hversion p)] :=
        signer.signing_of_v2 hversion
      obtain ⟨hgood, hfollows⟩ := hbehind.signed (p := p) hversion hsecret hclock (by omega)
      rw [← hclock] at hfollows
      simp only [hsigning, List.map_cons, List.map_nil, List.singleton_append, verdicts_check, List.forall_mem_cons]
      refine ⟨hgood, ih ?_ hfollows hroom'⟩
      rw [secret_act, secret_act, hsecret]

theorem stripped_signed (c : Checkpoint) (fs : List Frame) :
    (c.signed (fs.map .sign)).map Frame.withoutSignature =
      (fs.filter (·.version = .v2)).map Frame.withoutSignature := by
  induction fs generalizing c with
  | nil => rfl
  | cons f rest ih =>
    rw [List.map_cons, signed_cons, List.map_append, ih]
    cases hversion : f.version with
    | v1 => simp [c.signing_of_v1 hversion, hversion]
    | v2 => simp [c.signing_of_v2 hversion, hversion, Frame.sign, Frame.withoutSignature]

/-- A gate that starts with a copy of the key finds every frame good that is signed with it, one after the other, as
long as the clock fits a frame. -/
theorem accepts_signed (k : SigningKey) (fs : List Frame) (h : k.clock.toNat + fs.length < Stamp.limit) :
    ((start .new k).signed (fs.map .sign)).map Frame.withoutSignature =
        (fs.filter (·.version = .v2)).map Frame.withoutSignature ∧
      ((start .new k).verdicts (((start .new k).signed (fs.map .sign)).map .check)).map (·.1) =
        (start .new k).signed (fs.map .sign) ∧
      ∀ e ∈ (start .new k).verdicts (((start .new k).signed (fs.map .sign)).map .check), e.2.isGood = true := by
  refine ⟨stripped_signed _ fs, ?_, ?_⟩
  · exact checked_verdicts _ _
  · exact verdicts_of_behind rfl (behind_start k) h

/-! ## The end of the field -/

/-- A frame is signed past the end of the field, and what is left of the clock is no more than the timestamp of a frame
that was signed before the end. -/
def Restarts (c : Checkpoint) (acts : List Act) : Prop :=
  ∃ before after, [before, after].Sublist (c.clocks acts) ∧ before < Stamp.limit ∧ Stamp.limit ≤ after ∧
    after - Stamp.limit ≤ before

theorem clock_load (secret : Secret) {stored : UInt64} (h : stored.toNat + SigningKey.loadOffset < Stamp.limit) :
    (SigningKey.load secret stored).clock.toNat = stored.toNat + SigningKey.loadOffset := by
  have hsize := size_eq
  rw [limit_eq] at h
  rw [SigningKey.load, Clock.toNat_add]
  omega

/-- Of the runs of fewer than 2 ^ 48 steps, those in which the timestamps of the signed frames increase are those that
do not restart. -/
theorem increasing_iff_not_restarts (gate : Gate) (secret : Secret) {stored : UInt64}
    (hstored : stored.toNat + SigningKey.loadOffset < Stamp.limit) {acts : List Act} (hfits : ∀ a ∈ acts, a.Fits)
    (hlength : acts.length < Stamp.limit) :
    (Frame.carried ((start gate (.load secret stored)).signed acts)).Pairwise (· < ·) ↔
      ¬(start gate (.load secret stored)).Restarts acts := by
  let c := start gate (.load secret stored)
  have hclock : c.key.clock.toNat = _ := clock_load secret hstored
  have hreach : c.reach acts.length < 2 * Stamp.limit := by
    unfold reach
    omega
  have hroom : c.reach acts.length < UInt64.size := Nat.lt_trans hreach (by decide)
  obtain ⟨hordered, hbounds⟩ := clocks_lt hfits hroom
  rw [carried_increasing_iff, List.pairwise_iff_forall_sublist]
  -- The clocks are in order and below twice the limit, so of the ends of the field only the first can be passed.
  have hpair (before after : Nat) (h : [before, after].Sublist (c.clocks acts)) :
      before < after ∧ after < 2 * Stamp.limit := by
    refine ⟨List.pairwise_iff_forall_sublist.mp hordered h, ?_⟩
    exact Nat.lt_of_le_of_lt (hbounds after (h.subset (by simp))).2 hreach
  constructor
  · rintro hincreasing ⟨before, after, hsub, hbefore, hafter, hle⟩
    have hlow := hincreasing hsub
    have hrange := hpair before after hsub
    rw [limit_eq] at hlow hrange hbefore hafter hle
    omega
  · intro hkeeps before after hsub
    have hrange := hpair before after hsub
    by_contra hlow
    apply hkeeps
    refine ⟨before, after, hsub, ?_⟩
    rw [limit_eq] at hlow hrange ⊢
    omega

def plainText : Frame where
  header := ⟨.v1 253, 0, 1, 1⟩
  payload := sampleText.payload
  seed := sampleText.seed
  trailer := none
  length_payload_le := sampleText.length_payload_le
  seed_mem := sampleText.seed_mem
  v1_unsigned := fun _ => rfl

theorem accepts_signed_samples :
    sampleKey.clock.toNat + [sampleText, plainText, sampleText].length < Stamp.limit ∧
      ∀ e ∈ (start .new sampleKey).verdicts
        (((start .new sampleKey).signed ([sampleText, plainText, sampleText].map .sign)).map .check),
        e.2.isGood = true :=
  ⟨by decide, (accepts_signed sampleKey [sampleText, plainText, sampleText] (by decide)).2.2⟩

theorem version_sampleText : sampleText.version = .v2 := rfl

/-- A frame is signed, one with the last timestamp of the field is accepted, and another frame is signed. -/
def endRun (secret : Secret) : List Act :=
  [.sign sampleText, .check (sampleText.sign version_sampleText ⟨secret, 1, 0xFFFFFFFFFFFF⟩), .sign sampleText]

theorem clocks_endRun (secret : Secret) :
    (start .new (.load secret 0)).clocks (endRun secret) = [1_500_001, Stamp.limit] := by
  let c := (start .new (.load secret 0)).act (.sign sampleText)
  let p : SigningParams := ⟨secret, 1, 0xFFFFFFFFFFFF⟩
  have hclock : c.key.clock.toNat = 1_500_001 := rfl
  have hbehind : c.Behind 1_500_001 := ⟨Nat.le_refl _, fun s t ht => by cases ht⟩
  have hstamp : (sampleText.trailerFor p).timestamp.val = 0xFFFFFFFFFFFF := rfl
  have hgood := hbehind.accepts (g := sampleText.sign rfl p) (t := sampleText.trailerFor p) rfl
    (sampleText.verifies_sign rfl p) (by rw [hstamp]; decide)
  have hlast : (c.act (.check (sampleText.sign rfl p))).key.clock.toNat = 0xFFFFFFFFFFFF := by
    rw [key_of_accepts rfl hgood, SigningKey.clock_observe, Stamp.toNat_toClock, hstamp, hclock]
    rfl
  have hnext : ((c.act (.check (sampleText.sign rfl p))).act (.sign sampleText)).key.clock.toNat = Stamp.limit := by
    have htick := (c.act (.check (sampleText.sign rfl p))).key.clock_sign sampleText
    rw [hlast] at htick
    exact htick
  rw [endRun, clocks_cons, signing_of_v2 _ rfl, clocks_cons, clocks_cons, signing_of_v2 _ rfl]
  simp only [List.map_cons, List.map_nil]
  rw [hnext]
  rfl

theorem fits_endRun (secret : Secret) : ∀ a ∈ endRun secret, a.Fits := by simp [endRun, Act.Fits]

theorem increasing_iff_not_restarts_endRun :
    (0 : UInt64).toNat + SigningKey.loadOffset < Stamp.limit ∧ (∀ a ∈ endRun default, a.Fits) ∧
      (endRun default).length < Stamp.limit ∧ (start .new (.load default 0)).Restarts (endRun default) ∧
      ¬(Frame.carried ((start .new (.load default 0)).signed (endRun default))).Pairwise (· < ·) := by
  have hiff := increasing_iff_not_restarts .new default (by decide : (0 : UInt64).toNat + _ < _)
    (fits_endRun default) (by decide)
  have hrestarts : (start .new (.load default 0)).Restarts (endRun default) := by
    refine ⟨1_500_001, Stamp.limit, ?_, by decide, Nat.le_refl _, by decide⟩
    rw [clocks_endRun]
  exact ⟨by decide, fits_endRun default, by decide, hrestarts, fun h => hiff.mp h hrestarts⟩

/-- Past the end of the field the timestamps begin again, with the first frame that is signed after that. -/
theorem restarts_endRun :
    ¬∀ (gate : Gate) (secret : Secret) (stored : UInt64) (acts : List Act),
      stored.toNat + SigningKey.loadOffset < Stamp.limit → (∀ a ∈ acts, a.Fits) →
      (Frame.carried ((start gate (.load secret stored)).signed acts)).Pairwise (· < ·) := by
  intro h
  have hincreasing := h .new default 0 (endRun default) (by decide) (fits_endRun default)
  rw [carried_increasing_iff, clocks_endRun] at hincreasing
  revert hincreasing
  decide

end Checkpoint

end GatedRelay
