import GatedRelay.Proofs.Frame.Header
import GatedRelay.Proofs.Pair.Gating
import GatedRelay.Proofs.Pair.Trust

/-!
# Engineers that send back what they are sent

Heartbeats for engineers are signed with the key under which the frames of engineers are checked, so an engineer may
sign nothing of its own and send a heartbeat back.  Among such engineers none is ever authenticated exactly when every
frame comes back under another secret, or too late for a stream that its gate does not know.
-/

set_option autoImplicit false

namespace GatedRelay.Pair

/-- Every signed frame of an engineer has been queued to an engineer before, byte for byte. -/
def Reflects (p : Pair) (moves : List (Moment × Move)) : Prop :=
  ∀ earlier m id f, earlier ++ [(m, .engineerFrame id f)] <+: moves → f.isSigned = true →
    ∃ front b s, front ++ [b] <+: earlier ∧ Effect.queued s.id f.bytes ∈ (p.replay front).outgo b ∧
      s ∈ (p.replay front).slots.slots ∧ s.role = .engineer

/-- No engineer is authenticated after any of the moves. -/
def Untrusted (p : Pair) (moves : List (Moment × Move)) : Prop :=
  ∀ front, front <+: moves → ∀ s ∈ (p.replay front).slots.slots, s.role = .engineer → s.trust ≠ .authenticated

/-- No frame of an engineer verifies under the key of the moment with a timestamp that is recent enough. -/
def Stale (p : Pair) (moves : List (Moment × Move)) : Prop :=
  ∀ front m id f, front ++ [(m, .engineerFrame id f)] <+: moves → ¬Gate.Fresh f (p.replay front).key

/-! ## Gates -/

theorem coherent_replay (c : Setup) (moves : List (Moment × Move)) {s : Slot}
    (hs : s ∈ (c.pair.replay moves).slots.slots) (hrole : s.role = .engineer) : s.gate.Coherent := by
  induction moves using List.reverseRecOn generalizing s with
  | nil => cases hs
  | append_singleton moves b ih =>
    rw [replay_snoc] at hs
    cases (c.pair.replay moves).turn_act b with
    | kept gates =>
      obtain ⟨s₀, hs₀, hcont, hgate⟩ := gates s hs
      exact hgate ▸ ih hs₀ (hcont.role ▸ hrole)
    | admitted new fresh _ gates =>
      rcases gates s hs with rfl | ⟨s₀, hs₀, hcont, hgate⟩
      · exact fresh ▸ Gate.coherent_new
      · exact hgate ▸ ih hs₀ (hcont.role ▸ hrole)
    | checked _ hfind gates =>
      obtain ⟨s₀, hs₀, hcont, hgate⟩ := gates s hs
      obtain ⟨hsender, hid⟩ := SlotTable.mem_of_find? hfind
      rw [hgate]
      split
      · rename_i hsame
        obtain rfl := (wellFormed_replay c moves).eq_of_id hs₀ hsender (hsame.trans hid.symm)
        exact (ih hs₀ (hcont.role ▸ hrole)).check _ _
      · exact ih hs₀ (hcont.role ▸ hrole)
    | rotated _ _ _ _ gates =>
      obtain ⟨_, _, _, hnew⟩ := gates s hs
      rw [hnew hrole]
      exact Gate.coherent_new

theorem untrusted_of_stale {c : Setup} {moves : List (Moment × Move)} (h : c.pair.Stale moves) :
    c.pair.Untrusted moves := by
  intro front hfront
  induction front using List.reverseRecOn with
  | nil =>
    intro s hs
    cases hs
  | append_singleton front b ih =>
    intro s hs hrole htrust
    have hbefore := ih ((List.prefix_append front [b]).trans hfront)
    rw [replay_snoc] at hs
    obtain ⟨_, _, s₀, hs₀, hcont, htrust₀ | ⟨f, hb, hgood⟩⟩ :=
      ((c.pair.replay front).turn_act b).authenticated (wellFormed_replay c front) hs hrole htrust
    · exact hbefore s₀ hs₀ (hcont.role ▸ hrole) htrust₀
    · have hrole₀ : s₀.role = .engineer := hcont.role ▸ hrole
      rw [(coherent_replay c front hs₀ hrole₀).judge_isGood_iff (hbefore s₀ hs₀ hrole₀)] at hgood
      obtain ⟨m, move⟩ := b
      obtain rfl := hb
      exact h front m s.id f hfront hgood

/-! ## Messages -/

theorem outgoing_header (key : Option SigningKey) (f : Frame) :
    ∃ g : Frame, (outgoing key f).2 = g.bytes ∧ g.header = f.header := by
  cases key with
  | none => exact ⟨f, rfl, rfl⟩
  | some k =>
    refine ⟨(k.sign f).2.getD f, rfl, ?_⟩
    unfold SigningKey.sign Frame.signedWith
    simp only
    split
    · rfl
    · rfl

/-- Nothing that any engineer may be sent reads as a rotation request. -/
theorem Public.msgId {p : Pair} {b : Moment × Move} {id : SlotId} {message : Bytes} (h : Public p b id message)
    {g : Frame} (hg : g.bytes = message) : g.msgId ≠ MessageId.setupSigning := by
  cases h with
  | @heartbeat f _ hf =>
    obtain ⟨f', hbytes, hheader⟩ := outgoing_header p.key f
    have hsame : g.msgId = f.msgId := congrArg Header.msgId ((Frame.header_of_bytes (hg.trans hbytes)).trans hheader)
    rw [hsame, hf]
    decide
  | @statusText _ f _ _ _ _ _ _ hid =>
    have hsame : g.msgId = f.msgId := congrArg Header.msgId (Frame.header_of_bytes hg)
    rw [hsame, hid]
    decide

theorem msgId_of_reflects {c : Setup} {moves : List (Moment × Move)} (hreflects : c.pair.Reflects moves)
    (huntrusted : c.pair.Untrusted moves) {front : List (Moment × Move)} {m : Moment} {id : SlotId} {f : Frame}
    (h : front ++ [(m, .engineerFrame id f)] <+: moves) (hsigned : f.isSigned = true) :
    f.msgId ≠ MessageId.setupSigning := by
  obtain ⟨front', b, s, hpart, hqueued, hs, hrole⟩ := hreflects front m id f h hsigned
  have hwf := wellFormed_replay c front'
  have hfront : front' <+: moves :=
    (List.prefix_append front' [b]).trans (hpart.trans ((List.prefix_append front _).trans h))
  exact (public_of_queued hwf hqueued (hwf.find?_of_mem hs) hrole (huntrusted front' hfront s hs hrole)).msgId rfl

/-- If engineers only send back what engineers are sent, none is ever authenticated exactly when all that comes back is
stale. -/
theorem untrusted_iff_stale (c : Setup) (events : List (Moment × Event)) (h : c.pair.Reflects (c.pair.trace events)) :
    c.pair.Untrusted (c.pair.trace events) ↔ c.pair.Stale (c.pair.trace events) := by
  constructor
  · intro huntrusted front m id f hfront hfresh
    obtain ⟨s, hs, hrole, _⟩ := slot_of_engineerFrame hfront
    have hmem := (SlotTable.mem_of_find? hs).1
    have hbefore := huntrusted front ((List.prefix_append front _).trans hfront) s hmem hrole
    have hgood : (s.gate.judge f (c.pair.replay front).key).1.isGood = true :=
      ((coherent_replay c front hmem hrole).judge_isGood_iff hbefore f _).mpr hfresh
    have hsigned : f.isSigned = true := by
      obtain ⟨_, t, _, ht, _⟩ := hfresh
      rw [Frame.isSigned, ht]
      rfl
    -- A rotation request would empty the gate again, but engineers are sent none that they could send back.
    have hid : f.msgId ≠ MessageId.setupSigning := msgId_of_reflects h huntrusted hfront hsigned
    obtain ⟨s', hs', hcont, htrust⟩ := authenticated_of_good hs m hgood hid
    rw [← act_engineerFrame, ← replay_snoc] at hs'
    exact huntrusted _ hfront s' hs' (hcont.role.trans hrole) htrust
  · exact untrusted_of_stale

/-! ## A heartbeat that comes back -/

def echoKey : SigningKey := ⟨Block.ofBytes 32 [], 0⟩

def echo : Frame := heartbeat.sign rfl ⟨echoKey.secret, SigningKey.outgoingLink, Clock.add echoKey.clock 1⟩

/-- The user sends a heartbeat, the time of day moves on, and the engineer sends back what it got. -/
def echoRun (clock : UInt64) : List (Moment × Event) :=
  [(⟨0, 0⟩, .connect .user .tcp "user"), (⟨1, 0⟩, .connect .engineer .tcp "engineer"), (⟨2, 0⟩, .frames 1 [heartbeat]),
    (⟨3, clock⟩, .sweep), (⟨4, clock⟩, .frames 2 [echo])]

def echoMoves (clock : UInt64) : List (Moment × Move) :=
  [(⟨0, 0⟩, .connect .user .tcp "user"), (⟨1, 0⟩, .connect .engineer .tcp "engineer"), (⟨2, 0⟩, .arrival 1 1),
    (⟨2, 0⟩, .userFrame heartbeat), (⟨3, clock⟩, .sweep), (⟨4, clock⟩, .arrival 2 1)]

theorem trace_echoRun (clock : UInt64) :
    (Setup.offline (some echoKey)).pair.trace (echoRun clock) =
      echoMoves clock ++ [(⟨4, clock⟩, .engineerFrame 2 echo)] := rfl

theorem eq_of_echoRun {clock : UInt64} {front : List (Moment × Move)} {m : Moment} {id : SlotId} {f : Frame}
    (h : front ++ [(m, .engineerFrame id f)] <+: (Setup.offline (some echoKey)).pair.trace (echoRun clock)) :
    front = echoMoves clock ∧ f = echo := by
  rw [trace_echoRun] at h
  rcases snoc_prefix_snoc.mp h with hearlier | ⟨rfl, hb⟩
  · have hmem := hearlier.subset (List.mem_append_right front List.mem_cons_self)
    simp [echoMoves] at hmem
  · cases hb
    exact ⟨rfl, rfl⟩

theorem reflects_echoRun (clock : UInt64) :
    (Setup.offline (some echoKey)).pair.Reflects ((Setup.offline (some echoKey)).pair.trace (echoRun clock)) := by
  intro earlier m id f h _
  obtain ⟨rfl, rfl⟩ := eq_of_echoRun h
  let front := (echoMoves clock).take 3
  let s : Slot := ⟨2, .engineer, .tcp, "engineer", .established, .new, 1, 0, none⟩
  have hrecipients : s ∈ ((Setup.offline (some echoKey)).pair.replay front).recipients heartbeat :=
    List.mem_singleton.mpr rfl
  refine ⟨front, (⟨2, 0⟩, .userFrame heartbeat), s, ⟨_, rfl⟩, queued_of_recipient hrecipients _, ?_, rfl⟩
  exact (mem_recipients.mp hrecipients).1.1

/-- An engineer that sends the relay's heartbeat back at once is authenticated, and never needed the secret. -/
theorem trusted_echoRun :
    (Setup.offline (some echoKey)).pair.Reflects ((Setup.offline (some echoKey)).pair.trace (echoRun 0)) ∧
      ¬(Setup.offline (some echoKey)).pair.Untrusted ((Setup.offline (some echoKey)).pair.trace (echoRun 0)) := by
  refine ⟨reflects_echoRun 0, ?_⟩
  intro huntrusted
  let before := (Setup.offline (some echoKey)).pair.replay (echoMoves 0)
  have hfind : before.slots.find? 2 = some ⟨2, .engineer, .tcp, "engineer", .active, .new, 4, 1, none⟩ := rfl
  have hgood : (Gate.new.judge echo before.key).1.isGood = true := by
    rw [Gate.coherent_new.judge_isGood_iff (by decide)]
    exact ⟨⟨echoKey.secret, 1⟩, _, rfl, rfl, echoKey.secret.verifies_sign _, by decide⟩
  have hreplay : (Setup.offline (some echoKey)).pair.replay ((Setup.offline (some echoKey)).pair.trace (echoRun 0)) =
      before.fromEngineer ⟨4, 0⟩ 2 echo := by
    rw [trace_echoRun, replay_snoc, act_engineerFrame]
  obtain ⟨s, hs, hcont, htrust⟩ := authenticated_of_good hfind ⟨4, 0⟩ hgood (by decide)
  rw [← hreplay] at hs
  exact huntrusted _ (List.prefix_refl _) s hs hcont.role htrust

theorem untrusted_late_echoRun :
    (Setup.offline (some echoKey)).pair.Reflects ((Setup.offline (some echoKey)).pair.trace (echoRun 10_000_000)) ∧
      (Setup.offline (some echoKey)).pair.Untrusted
        ((Setup.offline (some echoKey)).pair.trace (echoRun 10_000_000)) := by
  refine ⟨reflects_echoRun _, (untrusted_iff_stale _ _ (reflects_echoRun _)).mpr ?_⟩
  intro front m id f h hfresh
  obtain ⟨rfl, rfl⟩ := eq_of_echoRun h
  obtain ⟨k, t, hk, ht, _, hclock⟩ := hfresh
  cases hk
  cases ht
  exact absurd hclock (by decide)

end GatedRelay.Pair
