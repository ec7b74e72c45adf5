import GatedRelay.Proofs.Frame.Resigning
import GatedRelay.Proofs.Pair.Reach
import GatedRelay.Proofs.Slot.Outbox

/-!
# Delivery to engineers

A frame of the user becomes one message, signed with a new tick of the key where its version allows it, and the message
goes into the outbox of every engineer that may hear the frame, if there is room.  A frame that nobody may hear costs
nothing (`delivers`).
-/

set_option autoImplicit false

namespace GatedRelay

/-! ## The message -/

structure Frame.SignedCopy (g f : Frame) (k : SigningKey) : Prop where
  alone : parseDatagram g.bytes = [g]
  msgId : g.msgId = f.msgId
  seq : g.header.seq = f.header.seq
  sysid : g.header.sysid = f.header.sysid
  compid : g.header.compid = f.header.compid
  payload : g.payload = f.payload
  trailer : ∃ t, g.trailer = some t ∧ t.linkId = 0 ∧ t.timestamp.val = k.clock.toNat % 0x1000000000000 ∧
    k.secret.verifies (g.signedPart t) t.signature.bytes = true

theorem Frame.signedCopy_sign (f : Frame) (h : f.version = .v2) (k : SigningKey) :
    (f.sign h ⟨k.secret, SigningKey.outgoingLink, k.clock⟩).SignedCopy f k where
  alone := parseDatagram_bytes _
  msgId := rfl
  seq := rfl
  sysid := rfl
  compid := rfl
  payload := rfl
  trailer := (f.resigns_sign h _).trailer

inductive Frame.SentAs (f : Frame) : Option SigningKey → Bytes → Prop where
  | signed {k : SigningKey} {g : Frame} (hversion : f.version = .v2) (h : g.SignedCopy f k) : SentAs f (some k) g.bytes
  | unchanged {key : Option SigningKey} (h : f.version = .v1 ∨ key = none) : SentAs f key f.bytes

/-- The secret stays, and the clock takes a tick as long as it has one left. -/
inductive SigningKey.Ticks : Option SigningKey → Option SigningKey → Prop where
  | none : Ticks none none
  | some {k : SigningKey} {clock : UInt64} (h : clock.toNat = min (k.clock.toNat + 1) (UInt64.size - 1)) :
      Ticks (some k) (some ⟨k.secret, clock⟩)

namespace Pair

theorem ticks_outgoing (key : Option SigningKey) (f : Frame) : SigningKey.Ticks key (outgoing key f).1 := by
  cases key with
  | none => exact .none
  | some k => exact .some (k.clock_sign f)

theorem sentAs_outgoing (key : Option SigningKey) (f : Frame) : f.SentAs (outgoing key f).1 (outgoing key f).2 := by
  cases key with
  | none => exact .unchanged (.inr rfl)
  | some k =>
    rw [outgoing, SigningKey.sign]
    cases hversion : f.version with
    | v1 =>
      rw [Frame.signedWith_of_v1 hversion]
      exact .unchanged (.inl hversion)
    | v2 =>
      rw [Frame.signedWith_of_v2 hversion]
      exact .signed hversion (f.signedCopy_sign hversion ⟨k.secret, Clock.add k.clock 1⟩)

end Pair

/-! ## The outboxes -/

theorem Outboxes.foldl_applyAt_queued (capacity : Nat) (id : SlotId) (message : Bytes) {ids : List SlotId}
    (h : ids.Nodup) (b : Option Outbox) :
    (ids.map (Effect.queued · message)).foldl (applyAt capacity id) b =
      if id ∈ ids then b.map (·.offer message) else b := by
  -- The ids differ, so at most one of the effects concerns the outbox.
  induction h generalizing b with
  | nil => rfl
  | @cons slot rest hslot _ ih =>
    rw [List.map_cons, List.foldl_cons, ih, applyAt]
    by_cases hid : slot = id
    · have hrest : id ∉ rest := fun hmem => hslot id hmem hid
      rw [if_pos hid, if_neg hrest, if_pos (List.mem_cons.mpr (.inl hid.symm))]
    · have hmem : id ∈ slot :: rest ↔ id ∈ rest := List.mem_cons.trans (or_iff_right (Ne.symm hid))
      simp only [if_neg hid, hmem]

namespace Pair

def Hears (p : Pair) (f : Frame) (id : SlotId) : Prop :=
  ∃ s ∈ p.slots.slots, s.id = id ∧ s.role = .engineer ∧ (s.state = .established ∨ s.state = .active) ∧
    (f.msgId = 0 ∨ s.trust = .authenticated)

theorem mem_ids_recipients {p : Pair} {f : Frame} {id : SlotId} :
    id ∈ (p.recipients f).map (·.id) ↔ p.Hears f id := by
  simp only [List.mem_map, mem_recipients, Slot.isOpen, Bool.or_eq_true, decide_eq_true_eq, Hears]
  constructor
  · rintro ⟨s, ⟨⟨hmem, hrole⟩, hopen, hmay⟩, hid⟩
    exact ⟨s, hmem, hid, hrole, hopen, hmay⟩
  · rintro ⟨s, hmem, hid, hrole, hopen, hmay⟩
    exact ⟨s, ⟨⟨hmem, hrole⟩, hopen, hmay⟩, hid⟩

theorem nodup_recipients {p : Pair} (h : p.slots.WellFormed) (f : Frame) : ((p.recipients f).map (·.id)).Nodup :=
  h.nodup.sublist ((List.filter_sublist.trans List.filter_sublist).map _)

theorem recipients_eq_nil_iff {p : Pair} {f : Frame} : p.recipients f = [] ↔ ∀ id, ¬p.Hears f id := by
  simp only [← mem_ids_recipients, ← List.eq_nil_iff_forall_not_mem, List.map_eq_nil_iff]

theorem find?_fromUser {p : Pair} (h : p.slots.WellFormed) (f : Frame) (o : Outboxes) (capacity : Nat) (id : SlotId) :
    (o.applyEach capacity ((p.fromUser f).effectsSince p)).find? id =
      if id ∈ (p.recipients f).map (·.id) then (o.find? id).map (·.offer (outgoing p.key f).2) else o.find? id := by
  have heffects : (p.fromUser f).effectsSince p =
      ((p.recipients f).map (·.id)).map (Effect.queued · (outgoing p.key f).2) := by
    rw [effects_fromUser, List.map_map]
    rfl
  rw [Outboxes.find?_applyEach, heffects]
  exact Outboxes.foldl_applyAt_queued capacity id _ (nodup_recipients h f) _

structure Undelivered (p q : Pair) (o o' : Outboxes) : Prop where
  key : q.key = p.key
  boxes : o' = o

structure Delivered (p q : Pair) (f : Frame) (o o' : Outboxes) : Prop where
  key : SigningKey.Ticks p.key q.key
  message : ∃ message, f.SentAs q.key message ∧
    (∀ id, p.Hears f id → o'.find? id =
      (o.find? id).map fun b => if b.hasRoom then { b with queue := b.queue ++ [message] } else b) ∧
    (∀ id, ¬p.Hears f id → o'.find? id = o.find? id)

theorem undelivered_fromUser {p : Pair} {f : Frame} (h : ∀ id, ¬p.Hears f id) (o : Outboxes) (capacity : Nat) :
    Undelivered p (p.fromUser f) o (o.applyEach capacity ((p.fromUser f).effectsSince p)) where
  key := by rw [fromUser_eq, recipients_eq_nil_iff.mpr h, if_pos rfl]
  boxes := by
    rw [effects_fromUser, recipients_eq_nil_iff.mpr h]
    rfl

theorem delivered_fromUser {p : Pair} (hwf : p.slots.WellFormed) {f : Frame} (h : ∃ id, p.Hears f id) (o : Outboxes)
    (capacity : Nat) :
    Delivered p (p.fromUser f) f o (o.applyEach capacity ((p.fromUser f).effectsSince p)) := by
  obtain ⟨id, hid⟩ := h
  have hsome : p.recipients f ≠ [] := fun hempty => recipients_eq_nil_iff.mp hempty id hid
  have hkey : (p.fromUser f).key = (outgoing p.key f).1 := by rw [fromUser_eq, if_neg hsome]
  constructor
  · rw [hkey]
    exact ticks_outgoing p.key f
  · refine ⟨(outgoing p.key f).2, ?_, ?_, ?_⟩
    · rw [hkey]
      exact sentAs_outgoing p.key f
    · intro slot hslot
      rw [find?_fromUser hwf, if_pos (mem_ids_recipients.mpr hslot)]
      rfl
    · intro slot hslot
      rw [find?_fromUser hwf, if_neg fun hmem => hslot (mem_ids_recipients.mp hmem)]

/-- Where ids name slots, as they do in every state that a pair reaches, a frame of the user is delivered to those that
hear it and to nobody else, and the slots and the store stay as they are. -/
theorem delivers (p : Pair) (h : p.slots.WellFormed) (f : Frame) (o : Outboxes) (capacity : Nat) :
    (p.fromUser f).slots = p.slots ∧ (p.fromUser f).store = p.store ∧
      ((∀ id, ¬p.Hears f id) →
        Undelivered p (p.fromUser f) o (o.applyEach capacity ((p.fromUser f).effectsSince p))) ∧
      ((∃ id, p.Hears f id) →
        Delivered p (p.fromUser f) f o (o.applyEach capacity ((p.fromUser f).effectsSince p))) := by
  refine ⟨?_, ?_, ?_, ?_⟩
  · rw [fromUser_eq]
  · rw [fromUser_eq]
  · intro hnobody
    exact undelivered_fromUser hnobody o capacity
  · intro hsomebody
    exact delivered_fromUser h hsomebody o capacity

def audience : Pair :=
  { (Setup.offline (some ⟨default, 7⟩)).pair with
    slots := ⟨2, .rejectNew, [⟨1, .engineer, .udp, "first", .active, { trust := .authenticated }, 0, 0, none⟩,
      ⟨2, .engineer, .udp, "second", .active, .new, 0, 0, none⟩], 3⟩ }

def audienceBoxes : Outboxes := ⟨[(1, { capacity := 4 }), (2, { capacity := 4 })]⟩

def announcement : Frame := StatusText.frame 1 1 StatusText.critical "text"

theorem wellFormed_audience : audience.slots.WellFormed where
  nodup := by decide
  lt_next := by decide

theorem delivers_announcement :
    audience.slots.WellFormed ∧ ∃ g : Frame, g.SignedCopy announcement ⟨default, 8⟩ ∧
      (audienceBoxes.applyEach 4 ((audience.fromUser announcement).effectsSince audience)).find? 1 =
        some { capacity := 4, queue := [g.bytes] } ∧
      (audienceBoxes.applyEach 4 ((audience.fromUser announcement).effectsSince audience)).find? 2 =
        some { capacity := 4 } := by
  have hfirst : audience.Hears announcement 1 :=
    ⟨_, List.mem_cons_self, rfl, rfl, .inr rfl, .inr rfl⟩
  have hsecond : ¬audience.Hears announcement 2 := by
    rintro ⟨s, hs, hid, _, _, hid' | htrust⟩
    · cases hid'
    · obtain rfl | rfl := List.mem_pair.mp hs
      · cases hid
      · cases htrust
  have hkey : (audience.fromUser announcement).key = some ⟨default, 8⟩ := rfl
  obtain ⟨_, _, _, hdelivered⟩ := delivers audience wellFormed_audience announcement audienceBoxes 4
  obtain ⟨message, hmessage, hheard, hunheard⟩ := (hdelivered ⟨1, hfirst⟩).message
  rw [hkey] at hmessage
  cases hmessage with
  | unchanged h => rcases h with h | h <;> cases h
  | @signed _ g _ hcopy =>
    refine ⟨wellFormed_audience, g, hcopy, ?_, ?_⟩
    · rw [hheard 1 hfirst]
      rfl
    · rw [hunheard 2 hsecond]
      rfl

end Pair

end GatedRelay
