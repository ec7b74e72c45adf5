import GatedRelay.Proofs.Slot.Table
import Mathlib.Data.List.Induction

/-!
# Slots under their keys

A register keeps the slots under 64-bit keys and, beside them, the key of the user's slot and a counter for the keys.
Every operation has to keep the three in step (`Sound`).  Then it does what it should (`Sound.does`) and keeps them so
(`Sound.after`), for as long as the counter does not run over.
-/

set_option autoImplicit false

namespace GatedRelay

inductive SlotOp where
  | accept (role : Role) (transport : Transport) (peer : Peer) (now : Nat)
  | close (id : UInt64)
  | drain
  | touch (id : UInt64) (now : Nat)
  | advance (id : UInt64) (next : {state : SlotState // state ≠ .closed})

inductive SlotResult where
  | admitted (id : UInt64) (replaced : Option Slot)
  | refused (refusal : Refusal)
  | closed (slots : List Slot)
  | changed

@[ext]
structure SlotRegister where
  maxEngineers : Nat
  policy : UserPolicy
  entries : List (UInt64 × Slot) := []
  user : Option UInt64 := none
  nextId : UInt64 := 1

namespace SlotRegister

def find? (r : SlotRegister) (id : UInt64) : Option Slot := (r.entries.find? (·.1 = id)).map (·.2)

def engineerCount (r : SlotRegister) : Nat := (r.entries.filter (·.2.role = .engineer)).length

def modify (r : SlotRegister) (id : UInt64) (f : Slot → Slot) : SlotRegister :=
  { r with entries := r.entries.map fun e => if e.1 = id then (e.1, f e.2) else e }

def remove (r : SlotRegister) (id : UInt64) : SlotRegister :=
  { r with
    entries := r.entries.filter (·.1 ≠ id)
    user := if r.user = some id then none else r.user }

def close (r : SlotRegister) (id : UInt64) : SlotRegister × Option Slot :=
  match r.find? id with
  | none => (r, none)
  | some s => (r.remove id, some (s.advance .closed))

def closeEach (r : SlotRegister) : List UInt64 → SlotRegister × List Slot
  | [] => (r, [])
  | id :: rest =>
    let (r, s) := r.close id
    let (r, closed) := r.closeEach rest
    (r, s.toList ++ closed)

def drain (r : SlotRegister) : SlotRegister × List Slot := r.closeEach (r.entries.map (·.1))

def newSlot (r : SlotRegister) (role : Role) (transport : Transport) (peer : Peer) (now : Nat) : Slot where
  id := r.nextId.toNat
  role := role
  transport := transport
  peer := peer
  state := if transport.hasHandshake then .new else .established
  lastActivity := now

def insert (r : SlotRegister) (id : UInt64) (s : Slot) : SlotRegister :=
  { r with entries := r.entries.filter (·.1 ≠ id) ++ [(id, s)] }

def enter (r : SlotRegister) (role : Role) (transport : Transport) (peer : Peer) (now : Nat) : SlotRegister :=
  { r.insert r.nextId (r.newSlot role transport peer now) with
    user := if role = .user then some r.nextId else r.user
    nextId := r.nextId + 1 }

def makeRoom (r : SlotRegister) : Role → Except Refusal (SlotRegister × Option Slot)
  | .engineer => if r.maxEngineers ≤ r.engineerCount then .error .engineerLimit else .ok (r, none)
  | .user =>
    match r.user, r.policy with
    | none, _ => .ok (r, none)
    | some _, .rejectNew => .error .userTaken
    | some id, .replaceExisting => .ok (r.close id)

def perform (r : SlotRegister) : SlotOp → SlotRegister × SlotResult
  | .accept role transport peer now =>
    match r.makeRoom role with
    | .error refusal => (r, .refused refusal)
    | .ok (room, replaced) => (room.enter role transport peer now, .admitted room.nextId replaced)
  | .close id => ((r.close id).1, .closed (r.close id).2.toList)
  | .drain => (r.drain.1, .closed r.drain.2)
  | .touch id now => (r.modify id (·.touch now), .changed)
  | .advance id next => (r.modify id (·.advance next), .changed)

def run (r : SlotRegister) (ops : List SlotOp) : SlotRegister := ops.foldl (fun r op => (r.perform op).1) r

def results : SlotRegister → List SlotOp → List SlotResult
  | _, [] => []
  | r, op :: rest => (r.perform op).2 :: (r.perform op).1.results rest

end SlotRegister

def SlotResult.issued : SlotResult → List UInt64
  | .admitted id _ => [id]
  | _ => []

def SlotRegister.issued (r : SlotRegister) (ops : List SlotOp) : List UInt64 :=
  (r.results ops).flatMap SlotResult.issued

/-! ## What an operation does -/

theorem Slot.advance_closed {s : Slot} (h : s.state ≠ .closed) : s.advance .closed = { s with state := .closed } := by
  rw [Slot.advance, if_pos]
  cases hstate : s.state with
  | closed => exact absurd hstate h
  | new | established | active => rfl

namespace SlotRegister

structure Sound (r : SlotRegister) : Prop where
  engineers : r.engineerCount ≤ r.maxEngineers
  user_iff : ∀ id, r.user = some id ↔ ∃ s, (id, s) ∈ r.entries ∧ s.role = .user
  keyed : ∀ id s, (id, s) ∈ r.entries → s.id = id.toNat
  nodup : (r.entries.map (·.1)).Nodup
  lt_next : ∀ id s, (id, s) ∈ r.entries → id.toNat < r.nextId.toNat
  live : ∀ id s, (id, s) ∈ r.entries → s.state ≠ .closed

def withSlot (r : SlotRegister) (role : Role) (transport : Transport) (peer : Peer) (now : Nat) : SlotRegister :=
  { r with
    entries := r.entries ++ [(r.nextId, r.newSlot role transport peer now)]
    user := if role = .user then some r.nextId else r.user
    nextId := r.nextId + 1 }

/-- What an operation does, and what it gives back.  A refusal changes nothing, and a slot that goes goes alone. -/
inductive Does (r : SlotRegister) : SlotOp → SlotRegister → SlotResult → Prop where
  | full {transport : Transport} {peer : Peer} {now : Nat} (h : r.engineerCount = r.maxEngineers) :
      Does r (.accept .engineer transport peer now) r (.refused .engineerLimit)
  | taken {transport : Transport} {peer : Peer} {now : Nat} {id : UInt64} (hpolicy : r.policy = .rejectNew)
      (huser : r.user = some id) : Does r (.accept .user transport peer now) r (.refused .userTaken)
  | admitted {role : Role} {transport : Transport} {peer : Peer} {now : Nat}
      (hengineer : role = .engineer → r.engineerCount < r.maxEngineers) (huser : role = .user → r.user = none) :
      Does r (.accept role transport peer now) (r.withSlot role transport peer now) (.admitted r.nextId none)
  | replaced {transport : Transport} {peer : Peer} {now : Nat} {id : UInt64} {s : Slot}
      (hpolicy : r.policy = .replaceExisting) (huser : r.user = some id) (hs : (id, s) ∈ r.entries) :
      Does r (.accept .user transport peer now) ((r.remove id).withSlot .user transport peer now)
        (.admitted r.nextId (some { s with state := .closed }))
  | absent {id : UInt64} (h : ∀ s, (id, s) ∉ r.entries) : Does r (.close id) r (.closed [])
  | closed {id : UInt64} {s : Slot} (hs : (id, s) ∈ r.entries) :
      Does r (.close id) (r.remove id) (.closed [{ s with state := .closed }])
  | drained :
      Does r .drain { r with entries := [], user := none }
        (.closed (r.entries.map fun e => { e.2 with state := .closed }))
  | touched {id : UInt64} {now : Nat} : Does r (.touch id now) (r.modify id (·.touch now)) .changed
  | advanced {id : UInt64} {next : {state : SlotState // state ≠ .closed}} :
      Does r (.advance id next) (r.modify id (·.advance next)) .changed

section Operations

variable {r : SlotRegister}

theorem filter_of_fresh {es : List (UInt64 × Slot)} {id : UInt64} (h : ∀ e ∈ es, e.1 ≠ id) :
    es.filter (·.1 ≠ id) = es := List.filter_eq_self.mpr fun e he => decide_eq_true (h e he)

theorem mem_of_find? {id : UInt64} {s : Slot} (h : r.find? id = some s) : (id, s) ∈ r.entries := by
  obtain ⟨e, he, rfl⟩ := Option.map_eq_some_iff.mp h
  have hid : e.1 = id := by simpa using List.find?_some he
  rw [← hid]
  exact List.mem_of_find?_eq_some he

theorem notMem_of_find? {id : UInt64} (h : r.find? id = none) (s : Slot) : (id, s) ∉ r.entries := by
  intro hs
  have hid := List.find?_eq_none.mp (Option.map_eq_none_iff.mp h) (id, s) hs
  simp at hid

theorem Sound.eq_of_key (h : r.Sound) {e e' : UInt64 × Slot} (he : e ∈ r.entries) (he' : e' ∈ r.entries)
    (hid : e.1 = e'.1) : e = e' := List.inj_on_of_nodup_map h.nodup he he' hid

theorem Sound.ne_next (h : r.Sound) {e : UInt64 × Slot} (he : e ∈ r.entries) : e.1 ≠ r.nextId := by
  have hlt := h.lt_next e.1 e.2 he
  intro heq
  rw [heq] at hlt
  exact Nat.lt_irrefl _ hlt

theorem Sound.find?_of_mem (h : r.Sound) {id : UInt64} {s : Slot} (hs : (id, s) ∈ r.entries) :
    r.find? id = some s := by
  cases hfind : r.find? id with
  | none => exact absurd hs (notMem_of_find? hfind s)
  | some s' =>
    have heq := h.eq_of_key hs (mem_of_find? hfind) rfl
    rw [(Prod.mk.inj heq).2]

theorem Sound.eq_user (h : r.Sound) {e e' : UInt64 × Slot} (he : e ∈ r.entries) (he' : e' ∈ r.entries)
    (hrole : e.2.role = .user) (hrole' : e'.2.role = .user) : e = e' := by
  have huser := (h.user_iff e.1).mpr ⟨e.2, he, hrole⟩
  have huser' := (h.user_iff e'.1).mpr ⟨e'.2, he', hrole'⟩
  exact h.eq_of_key he he' (Option.some.inj (huser.symm.trans huser'))

theorem Sound.close_of_mem (h : r.Sound) {id : UInt64} {s : Slot} (hs : (id, s) ∈ r.entries) :
    r.close id = (r.remove id, some { s with state := .closed }) := by
  rw [close, h.find?_of_mem hs]
  simp only
  rw [Slot.advance_closed (h.live id s hs)]

theorem close_of_find?_none {id : UInt64} (h : r.find? id = none) : r.close id = (r, none) := by
  rw [close, h]

theorem mem_remove {id : UInt64} {e : UInt64 × Slot} : e ∈ (r.remove id).entries ↔ e ∈ r.entries ∧ e.1 ≠ id := by
  simp [remove]

theorem engineerCount_remove_le (r : SlotRegister) (id : UInt64) : (r.remove id).engineerCount ≤ r.engineerCount :=
  (List.filter_sublist.filter _).length_le

theorem Sound.remove (h : r.Sound) (id : UInt64) : (r.remove id).Sound where
  engineers := Nat.le_trans (r.engineerCount_remove_le id) h.engineers
  user_iff := by
    intro id'
    constructor
    · intro huser
      by_cases heq : r.user = some id
      · simp [SlotRegister.remove, heq] at huser
      · rw [SlotRegister.remove, if_neg heq] at huser
        obtain ⟨s, hs, hrole⟩ := (h.user_iff id').mp huser
        refine ⟨s, mem_remove.mpr ⟨hs, ?_⟩, hrole⟩
        rintro rfl
        exact heq huser
    · rintro ⟨s, hs, hrole⟩
      obtain ⟨hmem, hne⟩ := mem_remove.mp hs
      have huser := (h.user_iff id').mpr ⟨s, hmem, hrole⟩
      rw [SlotRegister.remove, if_neg]
      · exact huser
      · intro heq
        exact hne (Option.some.inj (huser.symm.trans heq))
  keyed id' s hs := h.keyed id' s (mem_remove.mp hs).1
  nodup := h.nodup.sublist (List.filter_sublist.map _)
  lt_next id' s hs := h.lt_next id' s (mem_remove.mp hs).1
  live id' s hs := h.live id' s (mem_remove.mp hs).1

theorem user_remove {id : UInt64} (h : r.user = some id) : (r.remove id).user = none := if_pos h

theorem Sound.closeEach (h : r.Sound) {es : List (UInt64 × Slot)} (hes : r.entries = es) :
    r.closeEach (es.map (·.1)) =
      ({ r with entries := [], user := none }, es.map fun e => { e.2 with state := .closed }) := by
  induction es generalizing r with
  | nil =>
    have huser : r.user = none := by
      rw [Option.eq_none_iff_forall_ne_some]
      intro id hid
      obtain ⟨s, hs, _⟩ := (h.user_iff id).mp hid
      rw [hes] at hs
      cases hs
    rw [List.map_nil, List.map_nil, SlotRegister.closeEach, ← hes, ← huser]
  | cons e rest ih =>
    have hmem : (e.1, e.2) ∈ r.entries := by rw [hes]; exact List.mem_cons_self
    have hrest : (r.remove e.1).entries = rest := by
      have hnodup := h.nodup
      rw [hes, List.map_cons, List.nodup_cons] at hnodup
      rw [SlotRegister.remove, hes, List.filter_cons_of_neg (by simp), filter_of_fresh]
      intro e' he' heq
      exact hnodup.1 (heq ▸ List.mem_map_of_mem he')
    simp only [List.map_cons, SlotRegister.closeEach, h.close_of_mem hmem, ih (h.remove e.1) hrest]
    rfl

theorem Sound.enter_eq (h : r.Sound) (role : Role) (transport : Transport) (peer : Peer) (now : Nat) :
    r.enter role transport peer now = r.withSlot role transport peer now := by
  rw [enter, insert, filter_of_fresh fun e he => h.ne_next he]
  rfl

inductive Room (r : SlotRegister) : Role → Except Refusal (SlotRegister × Option Slot) → Prop where
  | full (h : r.engineerCount = r.maxEngineers) : Room r .engineer (.error .engineerLimit)
  | taken {id : UInt64} (hpolicy : r.policy = .rejectNew) (huser : r.user = some id) : Room r .user (.error .userTaken)
  | free {role : Role} (hengineer : role = .engineer → r.engineerCount < r.maxEngineers)
      (huser : role = .user → r.user = none) : Room r role (.ok (r, none))
  | given {id : UInt64} {s : Slot} (hpolicy : r.policy = .replaceExisting) (huser : r.user = some id)
      (hs : (id, s) ∈ r.entries) : Room r .user (.ok (r.remove id, some { s with state := .closed }))

theorem Sound.room (h : r.Sound) (role : Role) : r.Room role (r.makeRoom role) := by
  cases role with
  | engineer =>
    by_cases hfull : r.maxEngineers ≤ r.engineerCount
    · rw [makeRoom, if_pos hfull]
      exact .full (Nat.le_antisymm h.engineers hfull)
    · rw [makeRoom, if_neg hfull]
      exact .free (fun _ => Nat.lt_of_not_le hfull) (fun hrole => by cases hrole)
  | user =>
    cases huser : r.user with
    | none =>
      simp only [makeRoom, huser]
      exact .free (fun hrole => by cases hrole) (fun _ => huser)
    | some id =>
      cases hpolicy : r.policy with
      | rejectNew =>
        simp only [makeRoom, huser, hpolicy]
        exact .taken hpolicy huser
      | replaceExisting =>
        obtain ⟨s, hs, _⟩ := (h.user_iff id).mp huser
        simp only [makeRoom, huser, hpolicy, h.close_of_mem hs]
        exact .given hpolicy huser hs

theorem Room.sound {role : Role} {room : SlotRegister} {gone : Option Slot} (hroom : r.Room role (.ok (room, gone)))
    (h : r.Sound) : room.Sound ∧ (role = .user → room.user = none) := by
  cases hroom with
  | free _ huser => exact ⟨h, huser⟩
  | @given id _ _ huser => exact ⟨h.remove id, fun _ => user_remove huser⟩

/-- While the pieces are in step, every operation does what it should. -/
theorem Sound.does (h : r.Sound) (op : SlotOp) : r.Does op (r.perform op).1 (r.perform op).2 := by
  cases op with
  | accept role transport peer now =>
    have hroom := h.room role
    rw [perform]
    cases hmade : r.makeRoom role with
    | error refusal =>
      rw [hmade] at hroom
      cases hroom with
      | full hfull => exact .full hfull
      | taken hpolicy huser => exact .taken hpolicy huser
    | ok x =>
      rw [hmade] at hroom
      cases hroom with
      | free hengineer huser =>
        simp only [h.enter_eq]
        exact .admitted hengineer huser
      | @given id s hpolicy huser hs =>
        simp only [(h.remove id).enter_eq]
        exact .replaced hpolicy huser hs
  | close id =>
    cases hfind : r.find? id with
    | none =>
      simp only [perform, close_of_find?_none hfind]
      exact .absent (notMem_of_find? hfind)
    | some s =>
      simp only [perform, h.close_of_mem (mem_of_find? hfind)]
      exact .closed (mem_of_find? hfind)
  | drain =>
    simp only [perform, drain, h.closeEach rfl]
    exact .drained
  | touch id now => exact .touched
  | advance id next => exact .advanced

/-! ## What every operation preserves -/

theorem mem_withSlot {role : Role} {transport : Transport} {peer : Peer} {now : Nat} {e : UInt64 × Slot} :
    e ∈ (r.withSlot role transport peer now).entries ↔
      e ∈ r.entries ∨ e = (r.nextId, r.newSlot role transport peer now) := by
  simp [withSlot]

theorem mem_modify {id id' : UInt64} {f : Slot → Slot} {s : Slot} :
    (id', s) ∈ (r.modify id f).entries ↔ ∃ s₀, (id', s₀) ∈ r.entries ∧ s = if id' = id then f s₀ else s₀ := by
  simp only [modify, List.mem_map]
  constructor
  · rintro ⟨⟨id₀, s₀⟩, hs₀, heq⟩
    by_cases hid : id₀ = id
    · rw [if_pos hid] at heq
      cases heq
      exact ⟨s₀, hs₀, (if_pos hid).symm⟩
    · rw [if_neg hid] at heq
      cases heq
      exact ⟨s, hs₀, (if_neg hid).symm⟩
  · rintro ⟨s₀, hs₀, rfl⟩
    refine ⟨(id', s₀), hs₀, ?_⟩
    split <;> rfl

theorem next_withSlot {role : Role} {transport : Transport} {peer : Peer} {now : Nat}
    (hroom : r.nextId.toNat + 1 < UInt64.size) :
    (r.withSlot role transport peer now).nextId.toNat = r.nextId.toNat + 1 := by
  have hnext : (r.withSlot role transport peer now).nextId = r.nextId + 1 := rfl
  rw [hnext, UInt64.toNat_add]
  exact Nat.mod_eq_of_lt hroom

theorem Sound.withSlot (h : r.Sound) {role : Role} (transport : Transport) (peer : Peer) (now : Nat)
    (hroom : r.nextId.toNat + 1 < UInt64.size) (hengineer : role = .engineer → r.engineerCount < r.maxEngineers)
    (huser : role = .user → r.user = none) : (r.withSlot role transport peer now).Sound where
  engineers := by
    rw [engineerCount, SlotRegister.withSlot, List.filter_append, List.length_append]
    cases role with
    | engineer => exact hengineer rfl
    | user => exact h.engineers
  user_iff := by
    intro id
    have hnow : (r.withSlot role transport peer now).user = if role = .user then some r.nextId else r.user := rfl
    simp only [hnow, mem_withSlot]
    constructor
    · intro heq
      split at heq
      · exact ⟨_, .inr (by rw [Option.some.inj heq]), ‹_›⟩
      · obtain ⟨s, hs, hrole⟩ := (h.user_iff id).mp heq
        exact ⟨s, .inl hs, hrole⟩
    · rintro ⟨s, hs | heq, hrole⟩
      · have hsome := (h.user_iff id).mpr ⟨s, hs, hrole⟩
        rw [if_neg]
        · exact hsome
        · intro hrole
          rw [huser hrole] at hsome
          cases hsome
      · cases heq
        exact if_pos hrole
  keyed := by
    intro id s hs
    rcases mem_withSlot.mp hs with hs | heq
    · exact h.keyed id s hs
    · cases heq
      rfl
  nodup := by
    rw [SlotRegister.withSlot, List.map_append, List.nodup_append]
    refine ⟨h.nodup, by simp, ?_⟩
    intro id hid id' hid' heq
    obtain ⟨e, he, rfl⟩ := List.mem_map.mp hid
    have hnext : id' = r.nextId := by simpa using hid'
    exact h.ne_next he (heq.trans hnext)
  lt_next := by
    intro id s hs
    rw [next_withSlot hroom]
    rcases mem_withSlot.mp hs with hs | heq
    · exact Nat.lt_succ_of_lt (h.lt_next id s hs)
    · rw [(Prod.mk.inj heq).1]
      exact Nat.lt_succ_self _
  live := by
    intro id s hs
    rcases mem_withSlot.mp hs with hs | heq
    · exact h.live id s hs
    · rw [(Prod.mk.inj heq).2, newSlot]
      split <;> simp

theorem role_ite_modify {p : Prop} [Decidable p] {f : Slot → Slot} (hf : ∀ s, (f s).Continues s) (s : Slot) :
    (if p then f s else s).role = s.role := by
  split
  · exact (hf s).role
  · rfl

theorem keys_modify (id : UInt64) (f : Slot → Slot) :
    (r.modify id f).entries.map (·.1) = r.entries.map (·.1) := by
  rw [modify, List.map_map]
  apply List.map_congr_left
  intro e _
  by_cases hid : e.1 = id <;> simp [hid]

theorem engineerCount_modify (id : UInt64) {f : Slot → Slot} (hf : ∀ s, (f s).Continues s) :
    (r.modify id f).engineerCount = r.engineerCount := by
  rw [engineerCount, modify, List.filter_map, List.length_map, engineerCount]
  congr 2
  funext e
  by_cases hid : e.1 = id <;> simp [hid, (hf e.2).role]

theorem continues_of_mem_modify {id id' : UInt64} {f : Slot → Slot} (hf : ∀ s, (f s).Continues s) {s : Slot}
    (hs : (id', s) ∈ (r.modify id f).entries) : ∃ s₀, (id', s₀) ∈ r.entries ∧ s.Continues s₀ := by
  obtain ⟨s₀, hs₀, rfl⟩ := mem_modify.mp hs
  refine ⟨s₀, hs₀, ?_⟩
  split
  · exact hf s₀
  · exact .refl s₀

theorem Sound.modify (h : r.Sound) (id : UInt64) {f : Slot → Slot} (hf : ∀ s, (f s).Continues s)
    (hlive : ∀ s, s.state ≠ .closed → (f s).state ≠ .closed) : (r.modify id f).Sound where
  engineers := by
    rw [engineerCount_modify id hf]
    exact h.engineers
  user_iff := by
    intro id'
    refine (h.user_iff id').trans ?_
    constructor
    · rintro ⟨s, hs, hrole⟩
      exact ⟨_, mem_modify.mpr ⟨s, hs, rfl⟩, (role_ite_modify hf s).trans hrole⟩
    · rintro ⟨s, hs, hrole⟩
      obtain ⟨s₀, hs₀, hcont⟩ := continues_of_mem_modify hf hs
      exact ⟨s₀, hs₀, hcont.role.symm.trans hrole⟩
  keyed := by
    intro id' s hs
    obtain ⟨s₀, hs₀, hcont⟩ := continues_of_mem_modify hf hs
    exact hcont.id.trans (h.keyed id' s₀ hs₀)
  nodup := by
    rw [keys_modify]
    exact h.nodup
  lt_next := by
    intro id' s hs
    obtain ⟨s₀, hs₀, _⟩ := continues_of_mem_modify hf hs
    exact h.lt_next id' s₀ hs₀
  live := by
    intro id' s hs
    obtain ⟨s₀, hs₀, rfl⟩ := mem_modify.mp hs
    split
    · exact hlive s₀ (h.live id' s₀ hs₀)
    · exact h.live id' s₀ hs₀

theorem continues_touch (now : Nat) (s : Slot) : (s.touch now).Continues s := ⟨rfl, Nat.le_refl _⟩

theorem live_advance {next : SlotState} (hnext : next ≠ .closed) {s : Slot} (h : s.state ≠ .closed) :
    (s.advance next).state ≠ .closed := by
  unfold Slot.advance
  split
  · exact hnext
  · exact h

theorem sound_drained : Sound { r with entries := [], user := none } where
  engineers := Nat.zero_le _
  user_iff id := by simp
  keyed id s hs := by cases hs
  nodup := List.nodup_nil
  lt_next id s hs := by cases hs
  live id s hs := by cases hs

/-- An operation keeps the pieces in step, as long as the counter does not run over. -/
theorem Sound.after (h : r.Sound) {op : SlotOp} {r' : SlotRegister} {x : SlotResult} (hdoes : r.Does op r' x)
    (hroom : x.issued = [] ∨ r.nextId.toNat + 1 < UInt64.size) : r'.Sound := by
  cases hdoes with
  | full | taken | absent => exact h
  | @admitted role transport peer now hengineer huser =>
    exact h.withSlot transport peer now (hroom.resolve_left (by simp [SlotResult.issued])) hengineer huser
  | @replaced transport peer now id s _ huser =>
    exact (h.remove id).withSlot transport peer now (hroom.resolve_left (by simp [SlotResult.issued]))
      (fun hrole => by cases hrole) (fun _ => user_remove huser)
  | @closed id => exact h.remove id
  | drained => exact sound_drained
  | @touched id now => exact h.modify id (continues_touch now) (fun s hs => hs)
  | @advanced id next =>
    exact h.modify id (fun s => (Slot.Continues.refl s).advance next) (fun s hs => live_advance next.2 hs)

/-- A slot is there after an operation because it was admitted, or was there before. -/
theorem Does.continues {op : SlotOp} {r' : SlotRegister} {x : SlotResult} (hdoes : r.Does op r' x) {id : UInt64}
    {s : Slot} (hs : (id, s) ∈ r'.entries) : id = r.nextId ∨ ∃ s₀, (id, s₀) ∈ r.entries ∧ s.Continues s₀ := by
  cases hdoes with
  | full | taken | absent => exact .inr ⟨s, hs, .refl s⟩
  | admitted =>
    rcases mem_withSlot.mp hs with hs | heq
    · exact .inr ⟨s, hs, .refl s⟩
    · exact .inl (Prod.mk.inj heq).1
  | replaced =>
    rcases mem_withSlot.mp hs with hs | heq
    · exact .inr ⟨s, (mem_remove.mp hs).1, .refl s⟩
    · exact .inl (Prod.mk.inj heq).1
  | closed => exact .inr ⟨s, (mem_remove.mp hs).1, .refl s⟩
  | drained => cases hs
  | @touched _ now => exact .inr (continues_of_mem_modify (continues_touch now) hs)
  | @advanced _ next => exact .inr (continues_of_mem_modify (fun s => (Slot.Continues.refl s).advance next) hs)

theorem Does.issues {op : SlotOp} {r' : SlotRegister} {x : SlotResult} (hdoes : r.Does op r' x) :
    x.issued = [] ∧ r'.nextId = r.nextId ∨ x.issued = [r.nextId] ∧ r'.nextId = r.nextId + 1 := by
  cases hdoes with
  | admitted | replaced => exact .inr ⟨rfl, rfl⟩
  | full | taken | absent | closed | drained | touched | advanced => exact .inl ⟨rfl, rfl⟩

theorem Does.setup {op : SlotOp} {r' : SlotRegister} {x : SlotResult} (hdoes : r.Does op r' x) :
    r'.maxEngineers = r.maxEngineers ∧ r'.policy = r.policy := by
  cases hdoes <;> exact ⟨rfl, rfl⟩

end Operations

/-! ## Runs -/

def start (maxEngineers : Nat) (policy : UserPolicy) : SlotRegister where
  maxEngineers := maxEngineers
  policy := policy

theorem run_concat (r : SlotRegister) (ops : List SlotOp) (op : SlotOp) :
    r.run (ops ++ [op]) = ((r.run ops).perform op).1 := by
  rw [run, List.foldl_append]
  rfl

theorem results_append (r : SlotRegister) (ops later : List SlotOp) :
    r.results (ops ++ later) = r.results ops ++ (r.run ops).results later := by
  induction ops generalizing r with
  | nil => rfl
  | cons op rest ih =>
    rw [List.cons_append, results, results, ih]
    rfl

theorem issued_append (r : SlotRegister) (ops later : List SlotOp) :
    r.issued (ops ++ later) = r.issued ops ++ (r.run ops).issued later := by
  rw [issued, results_append, List.flatMap_append]
  rfl

theorem issued_concat (r : SlotRegister) (ops : List SlotOp) (op : SlotOp) :
    r.issued (ops ++ [op]) = r.issued ops ++ ((r.run ops).perform op).2.issued := by
  rw [issued_append]
  congr 1
  exact List.append_nil _

/-- The register has been used less often than its counter can count. -/
def Lasts (r : SlotRegister) (ops : List SlotOp) : Prop := (r.issued ops).length + 1 < UInt64.size

theorem Lasts.front {r : SlotRegister} {ops later : List SlotOp} (h : r.Lasts (ops ++ later)) : r.Lasts ops := by
  rw [Lasts, issued_append, List.length_append] at h
  rw [Lasts]
  omega

theorem sound_start (maxEngineers : Nat) (policy : UserPolicy) : (start maxEngineers policy).Sound where
  engineers := Nat.zero_le _
  user_iff id := by simp [start]
  keyed id s hs := by cases hs
  nodup := List.nodup_nil
  lt_next id s hs := by cases hs
  live id s hs := by cases hs

/-- The pieces are in step all along a run, and the ids come in order. -/
theorem sound_run {maxEngineers : Nat} {policy : UserPolicy} {ops : List SlotOp}
    (h : (start maxEngineers policy).Lasts ops) :
    ((start maxEngineers policy).run ops).Sound ∧
      ((start maxEngineers policy).run ops).nextId.toNat = ((start maxEngineers policy).issued ops).length + 1 ∧
      ((start maxEngineers policy).issued ops).map UInt64.toNat =
        List.range' 1 ((start maxEngineers policy).issued ops).length := by
  induction ops using List.reverseRecOn with
  | nil => exact ⟨sound_start maxEngineers policy, rfl, rfl⟩
  | append_singleton ops op ih =>
    obtain ⟨hsound, hnext, hissued⟩ := ih h.front
    have hdoes := hsound.does op
    rw [Lasts, issued_concat] at h
    rw [run_concat, issued_concat]
    rcases hdoes.issues with ⟨hnone, hkept⟩ | ⟨hone, hmoved⟩
    · rw [hnone, List.append_nil, hkept]
      exact ⟨hsound.after hdoes (.inl hnone), hnext, hissued⟩
    · rw [hone, List.length_append, List.length_singleton] at h
      have hroom : ((start maxEngineers policy).run ops).nextId.toNat + 1 < UInt64.size := by omega
      refine ⟨hsound.after hdoes (.inr hroom), ?_, ?_⟩
      · rw [hmoved, hone, List.length_append, List.length_singleton, UInt64.toNat_add, ← hnext]
        exact Nat.mod_eq_of_lt hroom
      · rw [hone, List.map_append, hissued, List.length_append, List.length_singleton, List.range'_concat,
          List.map_singleton, hnext, Nat.one_mul, Nat.add_comm 1]

/-- A slot that is found under an id again is the same, and has only moved forward. -/
theorem continues_run {maxEngineers : Nat} {policy : UserPolicy} {ops later : List SlotOp}
    (h : (start maxEngineers policy).Lasts (ops ++ later)) {id : UInt64} {s s' : Slot}
    (hs : (id, s) ∈ ((start maxEngineers policy).run ops).entries)
    (hs' : (id, s') ∈ ((start maxEngineers policy).run (ops ++ later)).entries) : s'.Continues s := by
  obtain ⟨hsound, hnext, _⟩ := sound_run h.front
  induction later using List.reverseRecOn generalizing s' with
  | nil =>
    rw [List.append_nil] at hs'
    rw [(Prod.mk.inj (hsound.eq_of_key hs' hs rfl)).2]
    exact .refl s
  | append_singleton later op ih =>
    rw [← List.append_assoc] at h hs'
    obtain ⟨hsound', hnext', _⟩ := sound_run h.front
    rw [run_concat] at hs'
    rcases (hsound'.does op).continues hs' with rfl | ⟨s₀, hs₀, hcont⟩
    · -- The id would be new, but the counter has passed it.
      have hlt := hsound.lt_next _ s hs
      rw [hnext, hnext', issued_append, List.length_append] at hlt
      omega
    · exact hcont.trans (ih h.front hs₀)

theorem setup_run {maxEngineers : Nat} {policy : UserPolicy} {ops : List SlotOp}
    (h : (start maxEngineers policy).Lasts ops) :
    ((start maxEngineers policy).run ops).maxEngineers = maxEngineers ∧
      ((start maxEngineers policy).run ops).policy = policy := by
  induction ops using List.reverseRecOn with
  | nil => exact ⟨rfl, rfl⟩
  | append_singleton ops op ih =>
    obtain ⟨hmax, hpolicy⟩ := ((sound_run h.front).1.does op).setup
    obtain ⟨hmax', hpolicy'⟩ := ih h.front
    rw [run_concat]
    exact ⟨hmax.trans hmax', hpolicy.trans hpolicy'⟩

structure Upheld (r : SlotRegister) (ops : List SlotOp) : Prop where
  sound : (r.run ops).Sound
  maxEngineers : (r.run ops).maxEngineers = r.maxEngineers
  policy : (r.run ops).policy = r.policy
  oneUser : ∀ e ∈ (r.run ops).entries, ∀ e' ∈ (r.run ops).entries, e.2.role = .user → e'.2.role = .user → e = e'
  does : ∀ op, (r.run ops).Does op ((r.run ops).perform op).1 ((r.run ops).perform op).2
  issued : (r.issued ops).map UInt64.toNat = List.range' 1 (r.issued ops).length
  continues : ∀ front later, front ++ later = ops → ∀ id s s', (id, s) ∈ (r.run front).entries →
    (id, s') ∈ (r.run ops).entries → s'.Continues s

theorem upheld_start {maxEngineers : Nat} {policy : UserPolicy} {ops : List SlotOp}
    (h : (start maxEngineers policy).Lasts ops) : (start maxEngineers policy).Upheld ops where
  sound := (sound_run h).1
  maxEngineers := (setup_run h).1
  policy := (setup_run h).2
  oneUser e he e' he' := (sound_run h).1.eq_user he he'
  does := (sound_run h).1.does
  issued := (sound_run h).2.2
  continues := by
    rintro front later rfl id s s' hs hs'
    exact continues_run h hs hs'

end SlotRegister

end GatedRelay
