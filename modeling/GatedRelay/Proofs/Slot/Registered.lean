import GatedRelay.Proofs.Slot.Register
import Mathlib.Data.List.Find

/-!
# The register of a slot table

A slot table needs no key for its user and no keys for its slots, since it can read them off.  Put under their keys, its
slots are a register, and as long as ids fit the keys the operations on both do the same (`run_register`).
-/

set_option autoImplicit false

namespace GatedRelay.SlotTable

open SlotRegister

def perform (t : SlotTable) : SlotOp → SlotTable × SlotResult
  | .accept role transport peer now =>
    match t.accept role transport peer now with
    | .error refusal => (t, .refused refusal)
    | .ok a => (a.table, .admitted (UInt64.ofNat a.id) a.replaced)
  | .close id => ((t.close id.toNat).1, .closed (t.close id.toNat).2.toList)
  | .drain => (t.drain.1, .closed t.drain.2)
  | .touch id now => (t.modify id.toNat (·.touch now), .changed)
  | .advance id next => (t.modify id.toNat (·.advance next), .changed)

def run (t : SlotTable) (ops : List SlotOp) : SlotTable := ops.foldl (fun t op => (t.perform op).1) t

def results : SlotTable → List SlotOp → List SlotResult
  | _, [] => []
  | t, op :: rest => (t.perform op).2 :: (t.perform op).1.results rest

def register (t : SlotTable) : SlotRegister where
  maxEngineers := t.maxEngineers
  policy := t.policy
  entries := t.slots.map fun s => (UInt64.ofNat s.id, s)
  user := t.user?.map fun s => UInt64.ofNat s.id
  nextId := UInt64.ofNat t.nextId

variable {t : SlotTable}

theorem mem_register {id : UInt64} {s : Slot} :
    (id, s) ∈ t.register.entries ↔ s ∈ t.slots ∧ UInt64.ofNat s.id = id := by
  simp only [register, List.mem_map, Prod.mk.injEq]
  constructor
  · rintro ⟨s, hs, hid, rfl⟩
    exact ⟨hs, hid⟩
  · rintro ⟨hs, hid⟩
    exact ⟨s, hs, hid, rfl⟩

theorem user_register (t : SlotTable) : t.register.user = t.user?.map fun s => UInt64.ofNat s.id := rfl

theorem ofNat_id_iff (h : t.register.Sound) {s : Slot} (hs : s ∈ t.slots) {id : UInt64} :
    UInt64.ofNat s.id = id ↔ s.id = id.toNat := by
  have hkey := h.keyed _ s (mem_register.mpr ⟨hs, rfl⟩)
  rw [← UInt64.toNat_inj, ← hkey]

theorem find?_register (h : t.register.Sound) (id : UInt64) : t.register.find? id = t.find? id.toNat := by
  rw [SlotRegister.find?, register, List.find?_map, Option.map_map]
  have hsame : t.slots.find? ((fun e : UInt64 × Slot => decide (e.1 = id)) ∘ fun s => (UInt64.ofNat s.id, s)) =
      t.find? id.toNat := by
    apply List.find?_congr
    intro s hs
    exact decide_eq_decide.mpr (ofNat_id_iff h hs)
  rw [hsame]
  exact congrFun Option.map_id_fun' _

theorem single_of_sound (h : t.register.Sound) {s s' : Slot} (hs : s ∈ t.slots) (hs' : s' ∈ t.slots)
    (hrole : s.role = .user) (hrole' : s'.role = .user) : s = s' :=
  (Prod.mk.inj (h.eq_user (mem_register.mpr ⟨hs, rfl⟩) (mem_register.mpr ⟨hs', rfl⟩) hrole hrole')).2

theorem user?_eq_some_iff (h : ∀ s ∈ t.slots, ∀ s' ∈ t.slots, s.role = .user → s'.role = .user → s = s') {s : Slot} :
    t.user? = some s ↔ s ∈ t.slots ∧ s.role = .user := by
  constructor
  · exact mem_of_user?
  · rintro ⟨hs, hrole⟩
    cases huser : t.user? with
    | none =>
      have hnot := List.find?_eq_none.mp huser s hs
      simp [hrole] at hnot
    | some s' =>
      obtain ⟨hs', hrole'⟩ := mem_of_user? huser
      rw [h s' hs' s hs hrole' hrole]

theorem remove_register (h : t.register.Sound) (id : UInt64) :
    t.register.remove id = (t.without [id.toNat]).register := by
  refine SlotRegister.ext rfl rfl ?_ ?_ rfl
  · simp only [SlotRegister.remove, register, SlotTable.without, List.filter_map]
    congr 1
    apply List.filter_congr
    intro s hs
    simp [ofNat_id_iff h hs]
  · have hsingle (s) (hs : s ∈ (t.without [id.toNat]).slots) (s') (hs' : s' ∈ (t.without [id.toNat]).slots) :
        s.role = .user → s'.role = .user → s = s' :=
      single_of_sound h (mem_without.mp hs).1 (mem_without.mp hs').1
    apply Option.ext
    intro id'
    rw [(h.remove id).user_iff, user_register, Option.map_eq_some_iff]
    simp only [mem_remove, mem_register, user?_eq_some_iff hsingle, mem_without, List.mem_singleton]
    constructor
    · rintro ⟨s, ⟨⟨hs, rfl⟩, hne⟩, hrole⟩
      exact ⟨s, ⟨⟨hs, fun heq => hne ((ofNat_id_iff h hs).mpr heq)⟩, hrole⟩, rfl⟩
    · rintro ⟨s, ⟨⟨hs, hne⟩, hrole⟩, rfl⟩
      exact ⟨s, ⟨⟨hs, rfl⟩, fun heq => hne ((ofNat_id_iff h hs).mp heq)⟩, hrole⟩

theorem close_register (h : t.register.Sound) (id : UInt64) :
    t.register.close id = ((t.close id.toNat).1.register, (t.close id.toNat).2) := by
  rw [SlotRegister.close, find?_register h]
  cases hfind : t.find? id.toNat with
  | none => rw [SlotTable.close, hfind]
  | some s =>
    rw [remove_register h, ← close_fst, SlotTable.close, hfind]

theorem closeEach_register (h : t.register.Sound) (ids : List UInt64) :
    t.register.closeEach ids =
      ((t.closeEach (ids.map UInt64.toNat)).1.register, (t.closeEach (ids.map UInt64.toNat)).2) := by
  induction ids generalizing t with
  | nil => rfl
  | cons id rest ih =>
    have hrest : (t.close id.toNat).1.register.Sound := by
      rw [close_fst, ← remove_register h]
      exact h.remove id
    simp only [SlotRegister.closeEach, SlotTable.closeEach, close_register h, ih hrest, List.map_cons]

theorem drain_register (h : t.register.Sound) : t.register.drain = (t.drain.1.register, t.drain.2) := by
  have hids : (t.register.entries.map (·.1)).map UInt64.toNat = t.ids := by
    rw [register, List.map_map, List.map_map, ids]
    apply List.map_congr_left
    intro s hs
    exact ((ofNat_id_iff h hs).mp rfl).symm
  rw [SlotRegister.drain, closeEach_register h, hids]
  rfl

theorem engineerCount_register (t : SlotTable) : t.register.engineerCount = t.engineerCount := by
  rw [SlotRegister.engineerCount, register, List.filter_map, List.length_map]
  rfl

theorem modify_register (h : t.register.Sound) (id : UInt64) {f : Slot → Slot} (hf : ∀ s, (f s).Continues s) :
    t.register.modify id f = (t.modify id.toNat f).register := by
  refine SlotRegister.ext rfl rfl ?_ ?_ rfl
  · simp only [SlotRegister.modify, register, SlotTable.modify, List.map_map]
    apply List.map_congr_left
    intro s hs
    by_cases hid : s.id = id.toNat
    · simp [hid, (hf s).id]
    · have hne : UInt64.ofNat s.id ≠ id := fun heq => hid ((ofNat_id_iff h hs).mp heq)
      simp [hid, hne]
  · simp only [SlotRegister.modify, register, user?_modify fun s => (hf s).role, Option.map_map]
    congr 1
    funext s
    by_cases hid : s.id = id.toNat <;> simp [hid, (hf s).id]

theorem enter_register (h : t.register.Sound) (hnext : t.nextId < UInt64.size) {role : Role}
    (huser : role = .user → t.register.user = none) (transport : Transport) (peer : Peer) (now : Nat) :
    t.register.enter role transport peer now = (t.enter role transport peer now).register := by
  have hid : (UInt64.ofNat t.nextId).toNat = t.nextId := UInt64.toNat_ofNat_of_lt' hnext
  rw [h.enter_eq]
  refine SlotRegister.ext rfl rfl ?_ ?_ ?_
  · simp only [withSlot, register, slots_enter, List.map_append, List.map_cons, List.map_nil, SlotRegister.newSlot, hid]
    rfl
  · have hfind : (t.enter role transport peer now).user? =
        t.user?.or (if role = .user then some (t.newSlot role transport peer now) else none) := by
      rw [user?, slots_enter, List.find?_append]
      cases role <;> rfl
    rw [user_register, hfind]
    cases role with
    | engineer => simp [withSlot, user_register]
    | user =>
      have hnone : t.user? = none := Option.map_eq_none_iff.mp (huser rfl)
      rw [hnone]
      rfl
  · exact (UInt64.ofNat_add _ _).symm

theorem makeRoom_register (h : t.register.Sound) (role : Role) :
    t.register.makeRoom role = (t.makeRoom role).map fun x => (x.1.register, x.2) := by
  cases role with
  | engineer =>
    rw [SlotRegister.makeRoom, SlotTable.makeRoom, engineerCount_register]
    by_cases hfull : t.maxEngineers ≤ t.engineerCount
    · rw [if_pos hfull, if_pos (show t.register.maxEngineers ≤ t.engineerCount from hfull)]
      rfl
    · rw [if_neg hfull, if_neg (show ¬t.register.maxEngineers ≤ t.engineerCount from hfull)]
      rfl
  | user =>
    rw [SlotRegister.makeRoom, SlotTable.makeRoom, user_register]
    cases huser : t.user? with
    | none => rfl
    | some s =>
      have hkey := (ofNat_id_iff h (mem_of_user? huser).1).mp rfl
      have hpolicy : t.register.policy = t.policy := rfl
      rw [hpolicy]
      cases t.policy with
      | rejectNew => rfl
      | replaceExisting =>
        simp only [Option.map_some, close_register h, ← hkey]
        rfl

theorem nextId_makeRoom {role : Role} {room : SlotTable} {gone : Option Slot}
    (h : t.makeRoom role = .ok (room, gone)) : room.nextId = t.nextId := by
  have haccept : t.accept role .udp "" 0 = .ok ⟨room.enter role .udp "" 0, t.nextId, gone⟩ := by rw [accept, h]
  obtain ⟨_, ids, htable, _⟩ := accept_eq_ok haccept
  exact Nat.succ.inj (congrArg SlotTable.nextId htable)

theorem perform_register (h : t.register.Sound) (hnext : t.nextId < UInt64.size) (op : SlotOp) :
    t.register.perform op = ((t.perform op).1.register, (t.perform op).2) := by
  cases op with
  | accept role transport peer now =>
    have hroom := h.room role
    rw [SlotRegister.perform, SlotTable.perform, accept, makeRoom_register h]
    rw [makeRoom_register h] at hroom
    cases hmade : t.makeRoom role with
    | error refusal => rfl
    | ok x =>
      obtain ⟨room, gone⟩ := x
      rw [hmade] at hroom
      have hkept := nextId_makeRoom hmade
      obtain ⟨hsound, huser⟩ := hroom.sound h
      have hid : room.register.nextId = UInt64.ofNat t.nextId := congrArg UInt64.ofNat hkept
      simp only [Except.map, enter_register hsound (hkept ▸ hnext) huser, hid]
  | close id =>
    rw [SlotRegister.perform, close_register h]
    rfl
  | drain =>
    rw [SlotRegister.perform, drain_register h]
    rfl
  | touch id now =>
    rw [SlotRegister.perform, modify_register h id (continues_touch now)]
    rfl
  | advance id next =>
    rw [SlotRegister.perform, modify_register h id fun s => (Slot.Continues.refl s).advance next]
    rfl

theorem nextId_perform (t : SlotTable) (op : SlotOp) :
    (t.perform op).2.issued.length + t.nextId = (t.perform op).1.nextId := by
  cases op with
  | accept role transport peer now =>
    rw [perform]
    cases haccept : t.accept role transport peer now with
    | error refusal => exact Nat.zero_add _
    | ok a =>
      obtain ⟨_, gone, htable, _⟩ := accept_eq_ok haccept
      simp only [htable]
      exact Nat.add_comm 1 _
  | close id =>
    rw [perform, close_fst]
    exact Nat.zero_add _
  | drain =>
    rw [perform, drain, closeEach_fst]
    exact Nat.zero_add _
  | touch id now => exact Nat.zero_add _
  | advance id next => exact Nat.zero_add _

/-- As long as the counter does not run over, a table and its register go the same way. -/
theorem run_register (h : t.register.Sound) {ops : List SlotOp}
    (hlasts : (t.register.issued ops).length + t.nextId < UInt64.size) :
    t.register.run ops = (t.run ops).register ∧ t.register.results ops = t.results ops := by
  induction ops generalizing t with
  | nil => exact ⟨rfl, rfl⟩
  | cons op rest ih =>
    have hperform := perform_register h (Nat.lt_of_le_of_lt (Nat.le_add_left _ _) hlasts) op
    have hnext := t.nextId_perform op
    have hdoes := h.does op
    have hissued : t.register.issued (op :: rest) =
        (t.perform op).2.issued ++ (t.perform op).1.register.issued rest := by
      rw [issued, SlotRegister.results, List.flatMap_cons, hperform]
      rfl
    rw [hperform] at hdoes
    rw [hissued, List.length_append] at hlasts
    have hid : t.register.nextId.toNat = t.nextId := UInt64.toNat_ofNat_of_lt' (by omega)
    have hsound : (t.perform op).1.register.Sound := by
      refine h.after hdoes ?_
      rcases hdoes.issues with ⟨hnone, _⟩ | ⟨hone, _⟩
      · exact .inl hnone
      · rw [hone, List.length_singleton] at hlasts
        exact .inr (by omega)
    obtain ⟨hrun, hresults⟩ := ih hsound (by omega)
    constructor
    · rw [SlotRegister.run, List.foldl_cons, hperform]
      exact hrun
    · rw [SlotRegister.results, hperform, hresults]
      rfl

end GatedRelay.SlotTable
