import GatedRelay.Proofs.Slot.Table
import GatedRelay.Store.Request
import Mathlib.Algebra.GroupWithZero.Nat
import Mathlib.Data.List.Induction
import Mathlib.Data.List.Perm.Basic

/-!
# What slots add to the tallies

Of a slot only its id, its role and the messages that it has counted go into the books.  Taking slots out of a table
parts its shares into those that stay and those that are due.  Entering shares into tallies adds up, modulo the width of
a tally.
-/

set_option autoImplicit false

namespace GatedRelay

structure Share where
  id : SlotId
  role : Role
  messages : UInt32

def Slot.share (s : Slot) : Share := ⟨s.id, s.role, s.messages⟩

@[simp] theorem Slot.share_advance (s : Slot) (next : SlotState) : (s.advance next).share = s.share := by
  unfold Slot.advance
  split <;> rfl

theorem Slot.share_touch (s : Slot) (now : Nat) : (s.touch now).share = s.share := rfl

/-- A share that counts some more frames.  Like a slot, it stops at the last value that its tally can hold. -/
def Share.count (x : Share) (n : Nat) : Share :=
  { x with messages := UInt32.ofNat (min (x.messages.toNat + n % UInt32.size) (UInt32.size - 1)) }

@[simp] theorem Share.count_zero (x : Share) : x.count 0 = x := by
  have hfits := Nat.le_sub_one_of_lt x.messages.toNat_lt_size
  rw [count, Nat.zero_mod, Nat.add_zero, Nat.min_eq_left hfits, UInt32.ofNat_toNat]

namespace SlotTable

def shares (t : SlotTable) : List Share := t.slots.map Slot.share

theorem map_id_shares (t : SlotTable) : t.shares.map Share.id = t.slots.map (·.id) := by
  rw [shares, List.map_map]
  rfl

theorem shares_modify {t : SlotTable} {id : SlotId} {f : Slot → Slot} (hf : ∀ s, (f s).share = s.share) :
    (t.modify id f).shares = t.shares := by
  simp only [shares, modify, List.map_map]
  apply List.map_congr_left
  intro s _
  by_cases h : s.id = id <;> simp [h, hf]

theorem shares_resetGates (t : SlotTable) : t.resetGates.shares = t.shares := by
  simp only [shares, resetGates, List.map_map]
  apply List.map_congr_left
  intro s _
  by_cases h : s.role = .engineer <;> simp [h, Slot.share]

theorem shares_enter (t : SlotTable) (role : Role) (transport : Transport) (peer : Peer) (now : Nat) :
    (t.enter role transport peer now).shares = t.shares ++ [⟨t.nextId, role, 0⟩] := by
  rw [shares, slots_enter, List.map_append]
  rfl

theorem WellFormed.shares_close {t : SlotTable} (h : t.WellFormed) (id : SlotId) :
    ((t.close id).1.shares ++ (t.close id).2.toList.map Slot.share).Perm t.shares := by
  unfold close
  cases hs : t.find? id with
  | none => simp
  | some s =>
    obtain ⟨hmem, rfl⟩ := mem_of_find? hs
    have hothers : t.slots.filter (fun s' => decide (s'.id = s.id)) = [s] := by
      have hall (s') (hs' : s' ∈ t.slots.filter fun s' => decide (s'.id = s.id)) : s' = s := by
        obtain ⟨hs', hid⟩ := List.mem_filter.mp hs'
        exact h.eq_of_id hs' hmem (of_decide_eq_true hid)
      have hnodup := (List.Nodup.of_map _ h.nodup).filter fun s' => decide (s'.id = s.id)
      have hself : s ∈ t.slots.filter fun s' => decide (s'.id = s.id) :=
        List.mem_filter.mpr ⟨hmem, decide_eq_true rfl⟩
      exact List.perm_singleton.mp ((List.perm_ext_iff_of_nodup hnodup (List.nodup_singleton s)).mpr fun s' =>
        ⟨fun hs' => List.mem_singleton.mpr (hall s' hs'), fun hs' => List.mem_singleton.mp hs' ▸ hself⟩)
    have hparts := List.filter_append_perm (fun s' : Slot => decide (s'.id = s.id)) t.slots
    rw [hothers] at hparts
    have hshares := (List.perm_append_comm.trans hparts).map Slot.share
    simpa [shares] using hshares

theorem WellFormed.shares_closeEach {t : SlotTable} (h : t.WellFormed) (ids : List SlotId) :
    ((t.closeEach ids).1.shares ++ (t.closeEach ids).2.map Slot.share).Perm t.shares := by
  induction ids generalizing t with
  | nil => simp [closeEach]
  | cons id rest ih =>
    have hclosed : (t.close id).1.WellFormed := by
      rw [close_fst]
      exact h.within (within_without t [id])
    have hrest := (ih hclosed).append_right ((t.close id).2.toList.map Slot.share)
    simp only [closeEach, List.map_append]
    -- What was closed first goes behind the rest for a moment.
    calc
      ((t.close id).1.closeEach rest).1.shares ++
          ((t.close id).2.toList.map Slot.share ++ ((t.close id).1.closeEach rest).2.map Slot.share)
      List.Perm _ (((t.close id).1.closeEach rest).1.shares ++ ((t.close id).1.closeEach rest).2.map Slot.share ++
          (t.close id).2.toList.map Slot.share) := by
        rw [List.append_assoc]
        exact List.perm_append_comm.append_left _
      List.Perm _ ((t.close id).1.shares ++ (t.close id).2.toList.map Slot.share) := hrest
      List.Perm _ t.shares := h.shares_close id

theorem makeRoom_cases {t room : SlotTable} {role : Role} {replaced : Option Slot}
    (h : t.makeRoom role = .ok (room, replaced)) :
    room = t ∧ replaced = none ∨ ∃ id, t.close id = (room, replaced) := by
  unfold makeRoom at h
  split at h
  · split at h
    · cases h
    · cases h
      exact .inl ⟨rfl, rfl⟩
  · split at h
    · cases h
      exact .inl ⟨rfl, rfl⟩
    · cases h
    · exact .inr ⟨_, Except.ok.inj h⟩

theorem WellFormed.shares_accept {t : SlotTable} (h : t.WellFormed) {role : Role} {transport : Transport} {peer : Peer}
    {now : Nat} {a : Admission} (ha : t.accept role transport peer now = .ok a) :
    (a.table.shares ++ a.replaced.toList.map Slot.share).Perm (t.shares ++ [⟨a.id, role, 0⟩]) := by
  unfold accept at ha
  cases hroom : t.makeRoom role with
  | error refusal =>
    rw [hroom] at ha
    cases ha
  | ok found =>
    obtain ⟨room, replaced⟩ := found
    rw [hroom] at ha
    cases ha
    have hparts : (room.shares ++ replaced.toList.map Slot.share).Perm t.shares ∧ room.nextId = t.nextId := by
      rcases makeRoom_cases hroom with ⟨rfl, rfl⟩ | ⟨id, hclose⟩
      · simp
      · have hshares := h.shares_close id
        have htable := t.close_fst id
        rw [hclose] at hshares htable
        obtain rfl : room = t.without [id] := htable
        exact ⟨hshares, rfl⟩
    rw [shares_enter, hparts.2, List.append_assoc]
    exact (List.perm_append_comm.append_left _).trans (by rw [← List.append_assoc]; exact hparts.1.append_right _)

theorem shares_without_ids (t : SlotTable) : (t.without t.ids).shares = [] := by
  rw [shares, List.map_eq_nil_iff, List.eq_nil_iff_forall_not_mem]
  intro s hs
  obtain ⟨hmem, hgone⟩ := mem_without.mp hs
  exact hgone (List.mem_map_of_mem hmem)

end SlotTable

/-! ## Tallies -/

structure Tallies where
  count1 : UInt32
  count2 : UInt32
  connections : UInt32
  deriving DecidableEq

def Credential.tallies (r : Credential) : Tallies := ⟨r.count1, r.count2, r.connections⟩

namespace Tallies

def enter (t : Tallies) (x : Share) : Tallies :=
  match x.role with
  | .user => { t with count1 := t.count1 + x.messages, connections := t.connections + 1 }
  | .engineer => { t with count2 := t.count2 + x.messages }

def enterEach (t : Tallies) (xs : List Share) : Tallies := xs.foldl enter t

theorem enterEach_append (t : Tallies) (xs ys : List Share) :
    t.enterEach (xs ++ ys) = (t.enterEach xs).enterEach ys := List.foldl_append

/-- If entering a share adds to a count, entering shares adds up. -/
theorem toNat_enterEach {field : Tallies → UInt32} {weight : Share → Nat}
    (h : ∀ t x, (field (t.enter x)).toNat = ((field t).toNat + weight x) % UInt32.size) (t : Tallies) (xs : List Share) :
    (field (t.enterEach xs)).toNat = ((field t).toNat + (xs.map weight).sum) % UInt32.size := by
  induction xs using List.reverseRecOn with
  | nil => exact (Nat.mod_eq_of_lt (field t).toNat_lt_size).symm
  | append_singleton xs x ih =>
    rw [enterEach_append, List.map_append, List.sum_append]
    calc
      (field ((t.enterEach xs).enter x)).toNat = ((field (t.enterEach xs)).toNat + weight x) % UInt32.size := h _ x
      _ = ((field t).toNat + (xs.map weight).sum + weight x) % UInt32.size := by rw [ih, Nat.mod_add_mod]
      _ = ((field t).toNat + ((xs.map weight).sum + ([x].map weight).sum)) % UInt32.size := by
        rw [Nat.add_assoc, List.map_singleton, List.sum_singleton]

theorem toNat_count1_enter (t : Tallies) (x : Share) :
    (t.enter x).count1.toNat = (t.count1.toNat + if x.role = .user then x.messages.toNat else 0) % UInt32.size := by
  unfold enter
  cases x.role with
  | user => exact UInt32.toNat_add _ _
  | engineer => exact (Nat.mod_eq_of_lt t.count1.toNat_lt_size).symm

theorem toNat_count2_enter (t : Tallies) (x : Share) :
    (t.enter x).count2.toNat = (t.count2.toNat + if x.role = .engineer then x.messages.toNat else 0) % UInt32.size := by
  unfold enter
  cases x.role with
  | user => exact (Nat.mod_eq_of_lt t.count2.toNat_lt_size).symm
  | engineer => exact UInt32.toNat_add _ _

theorem toNat_connections_enter (t : Tallies) (x : Share) :
    (t.enter x).connections.toNat = (t.connections.toNat + if x.role = .user then 1 else 0) % UInt32.size := by
  unfold enter
  cases x.role with
  | user => exact UInt32.toNat_add _ _
  | engineer => exact (Nat.mod_eq_of_lt t.connections.toNat_lt_size).symm

end Tallies

end GatedRelay
