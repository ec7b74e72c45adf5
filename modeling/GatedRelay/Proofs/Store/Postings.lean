import GatedRelay.Proofs.Store.Entries
import Mathlib.Data.UInt

/-!
# What is posted may come in any order

Pairs post clocks and finished sessions to the store without waiting for an answer.  Clocks raise a timestamp, sessions
add to tallies, and both leave alone all that the other one reads.  So nothing depends on the order in which postings of
many pairs come together.
-/

set_option autoImplicit false

namespace GatedRelay

theorem Clock.toNat_max (a b : UInt64) : (max a b).toNat = max a.toNat b.toNat := toNat_later a b

theorem Clock.max_right_comm (a b c : UInt64) : max (max a b) c = max (max a c) b := by
  rw [← UInt64.toNat_inj]
  simp only [toNat_max]
  omega

inductive Posting where
  | clock (port2 : Int32) (timestamp : UInt64)
  | session (port2 : Int32) (count1 count2 : UInt32) (newConnection : Bool)
  deriving DecidableEq

namespace Posting

def request : Posting → Request
  | clock port2 timestamp => .advanceTimestamp port2 timestamp
  | session port2 count1 count2 newConnection => .recordSession port2 count1 count2 newConnection

def port2 : Posting → Int32
  | clock port2 _ => port2
  | session port2 _ _ _ => port2

def timestamp : Posting → UInt64
  | clock _ timestamp => timestamp
  | session _ _ _ _ => 0

def count1 : Posting → UInt32
  | clock _ _ => 0
  | session _ count1 _ _ => count1

def count2 : Posting → UInt32
  | clock _ _ => 0
  | session _ _ count2 _ => count2

def connections : Posting → UInt32
  | clock _ _ => 0
  | session _ _ _ newConnection => if newConnection then 1 else 0

/-- The record with the later timestamp and the greater tallies. -/
def amend (x : Posting) (r : Credential) : Credential :=
  { r with
    timestamp := max r.timestamp x.timestamp
    count1 := r.count1 + x.count1
    count2 := r.count2 + x.count2
    connections := r.connections + x.connections }

theorem amend_clock (port2 : Int32) (timestamp : UInt64) (r : Credential) :
    (clock port2 timestamp).amend r = r.advance timestamp := by
  simp only [amend, Posting.timestamp, count1, count2, connections, UInt32.add_zero]
  rfl

theorem amend_session (port2 : Int32) (count1 count2 : UInt32) (newConnection : Bool) (r : Credential) :
    (session port2 count1 count2 newConnection).amend r = r.addSession count1 count2 newConnection := by
  have hleast : max r.timestamp 0 = r.timestamp := by
    rw [← UInt64.toNat_inj, Clock.toNat_max]
    exact Nat.max_zero _
  simp only [amend, timestamp, hleast, Posting.count1, Posting.count2, connections, Credential.addSession]
  cases newConnection <;> simp

theorem updates_request (x : Posting) : x.request.Updates x.port2 x.amend := by
  cases x with
  | clock port2 timestamp =>
    have hamend : (clock port2 timestamp).amend = (·.advance timestamp) := funext (amend_clock port2 timestamp)
    rw [hamend]
    exact updates_advanceTimestamp port2 timestamp
  | session port2 count1 count2 newConnection =>
    have hamend : (session port2 count1 count2 newConnection).amend = (·.addSession count1 count2 newConnection) :=
      funext (amend_session port2 count1 count2 newConnection)
    rw [hamend]
    exact updates_recordSession port2 count1 count2 newConnection

theorem amend_comm (x y : Posting) (r : Credential) : y.amend (x.amend r) = x.amend (y.amend r) := by
  simp only [amend, Clock.max_right_comm, UInt32.add_assoc, UInt32.add_comm x.count1, UInt32.add_comm x.count2,
    UInt32.add_comm x.connections]

theorem foldl_amend (xs : List Posting) (r : Credential) :
    xs.foldl (fun r x => x.amend r) r =
      { r with
        timestamp := (xs.map timestamp).foldl max r.timestamp
        count1 := r.count1 + (xs.map count1).sum
        count2 := r.count2 + (xs.map count2).sum
        connections := r.connections + (xs.map connections).sum } := by
  induction xs generalizing r with
  | nil => simp
  | cons x xs ih =>
    rw [List.foldl_cons, ih]
    simp only [amend, List.map_cons, List.foldl_cons, List.sum_cons, UInt32.add_assoc]

end Posting

/-! ## Entries -/

namespace Entries

/-- The entries after a posting.  Without a record of its port nothing comes of it. -/
def absorb (e : Entries) (x : Posting) : Entries :=
  match e.fetch? x.port2 with
  | none => e
  | some r => e.save (x.amend r)

theorem absorb_of_none {e : Entries} {x : Posting} (h : e.fetch? x.port2 = none) : e.absorb x = e := by
  rw [absorb, h]

theorem absorb_of_some {e : Entries} {x : Posting} {r : Credential} (h : e.fetch? x.port2 = some r) :
    e.absorb x = e.save (x.amend r) := by
  rw [absorb, h]

theorem fetch?_absorb (e : Entries) (x : Posting) (port : Int32) :
    (e.absorb x).fetch? port = if x.port2 = port then (e.fetch? port).map x.amend else e.fetch? port := by
  cases h : e.fetch? x.port2 with
  | none =>
    rw [absorb_of_none h]
    split
    · rename_i hport
      rw [← hport, h]
      rfl
    · rfl
  | some r =>
    rw [absorb_of_some h]
    split
    · rename_i hport
      rw [← hport, h]
      exact fetch?_update h rfl rfl rfl
    · rename_i hport
      have hother : (x.amend r).port2 ≠ port := (of_fetch? h).1 ▸ hport
      exact fetch?_save_of_ne hother e

theorem absorb_comm (e : Entries) (x y : Posting) : (e.absorb x).absorb y = (e.absorb y).absorb x := by
  have hx := e.fetch?_absorb y x.port2
  have hy := e.fetch?_absorb x y.port2
  cases hfound : e.fetch? x.port2 with
  | none =>
    have hstill : (e.absorb y).fetch? x.port2 = none := by
      rw [hx, hfound]
      split <;> rfl
    rw [absorb_of_none hfound, absorb_of_none hstill]
  | some r =>
    cases hfound' : e.fetch? y.port2 with
    | none =>
      have hstill : (e.absorb x).fetch? y.port2 = none := by
        rw [hy, hfound']
        split <;> rfl
      rw [absorb_of_none hfound', absorb_of_none hstill]
    | some r' =>
      obtain ⟨hr, _, _⟩ := of_fetch? hfound
      obtain ⟨hr', _, _⟩ := of_fetch? hfound'
      rw [hfound] at hx
      rw [hfound'] at hy
      by_cases hport : x.port2 = y.port2
      · -- One record takes both, and only what is put last is left.
        rw [if_pos hport.symm] at hx
        rw [if_pos hport] at hy
        obtain rfl : r = r' := by
          rw [hport, hfound'] at hfound
          exact (Option.some.inj hfound).symm
        have hkey : portKey (x.amend r).port2 = portKey (y.amend r).port2 := rfl
        rw [absorb_of_some hy, absorb_of_some hx, absorb_of_some hfound, absorb_of_some hfound', Posting.amend_comm]
        simp only [save, hkey]
        exact (put_put _ _ _ _).trans (put_put _ _ _ _).symm
      · rw [if_neg (Ne.symm hport)] at hx
        rw [if_neg hport] at hy
        have hkey : portKey (x.amend r).port2 ≠ portKey (y.amend r').port2 := by
          intro heq
          exact hport (hr.symm.trans ((portKey_injective heq).trans hr'))
        rw [absorb_of_some hy, absorb_of_some hx, absorb_of_some hfound, absorb_of_some hfound']
        exact put_comm e hkey _ _

theorem get?_absorb {e : Entries} {x : Posting} {key : Bytes}
    (h : portKey x.port2 = key → e.fetch? x.port2 = none) : (e.absorb x).get? key = e.get? key := by
  cases hfound : e.fetch? x.port2 with
  | none => rw [absorb_of_none hfound]
  | some r =>
    have hother : portKey (x.amend r).port2 ≠ key := by
      intro hkey
      have hnone := h ((congrArg portKey (of_fetch? hfound).1.symm).trans hkey)
      rw [hfound] at hnone
      cases hnone
    rw [absorb_of_some hfound, save, get?_put, if_neg hother]

def absorbEach (e : Entries) (xs : List Posting) : Entries := xs.foldl absorb e

theorem fetch?_absorbEach (e : Entries) (xs : List Posting) (port : Int32) :
    (e.absorbEach xs).fetch? port =
      (e.fetch? port).map fun r => (xs.filter (·.port2 = port)).foldl (fun r x => x.amend r) r := by
  induction xs generalizing e with
  | nil => simp [absorbEach]
  | cons x xs ih =>
    have hrest : e.absorbEach (x :: xs) = (e.absorb x).absorbEach xs := rfl
    rw [hrest, ih, fetch?_absorb]
    by_cases hport : x.port2 = port
    · rw [if_pos hport, List.filter_cons_of_pos (by simpa using hport), Option.map_map]
      rfl
    · rw [if_neg hport, List.filter_cons_of_neg (by simpa using hport)]

theorem isSome_fetch?_absorb (e : Entries) (x : Posting) (port : Int32) :
    ((e.absorb x).fetch? port).isSome = (e.fetch? port).isSome := by
  rw [fetch?_absorb]
  split
  · exact Option.isSome_map
  · rfl

theorem get?_absorbEach {e : Entries} {xs : List Posting} {key : Bytes}
    (h : ∀ x ∈ xs, portKey x.port2 = key → e.fetch? x.port2 = none) : (e.absorbEach xs).get? key = e.get? key := by
  induction xs generalizing e with
  | nil => rfl
  | cons x xs ih =>
    have hrest : e.absorbEach (x :: xs) = (e.absorb x).absorbEach xs := rfl
    rw [hrest, ih, get?_absorb (h x List.mem_cons_self)]
    intro y hy hkey
    have hnone := h y (List.mem_cons_of_mem x hy) hkey
    rw [← Option.not_isSome_iff_eq_none, isSome_fetch?_absorb, hnone]
    exact Bool.false_ne_true

/-- Postings without a record are as good as not made. -/
theorem absorbEach_filter (e : Entries) (xs : List Posting) :
    e.absorbEach (xs.filter fun x => (e.fetch? x.port2).isSome) = e.absorbEach xs := by
  induction xs generalizing e with
  | nil => rfl
  | cons x xs ih =>
    have hrest (ys : List Posting) : e.absorbEach (x :: ys) = (e.absorb x).absorbEach ys := rfl
    cases hfound : e.fetch? x.port2 with
    | none =>
      rw [List.filter_cons_of_neg (by simp [hfound]), hrest, absorb_of_none hfound, ih]
    | some r =>
      have hsame := ih (e.absorb x)
      simp only [isSome_fetch?_absorb] at hsame
      rw [List.filter_cons_of_pos (by simp [hfound]), hrest, hrest, hsame]

end Entries

/-! ## The service -/

namespace Service

theorem post_request (s : Service) (x : Posting) :
    s.post x.request =
      if s.running = true ∧ s.database.saved = none then
        { s with database := { entries := s.database.entries.absorb x } }
      else s := by
  by_cases hcan : s.CanChange x.port2
  · obtain ⟨r, hr⟩ := Option.isSome_iff_exists.mp hcan.stored
    rw [post, write_of_canChange hcan x.updates_request hr, if_pos ⟨hcan.running, hcan.idle⟩, Entries.absorb_of_some hr]
  · rw [post_of_not_canChange hcan x.updates_request]
    split
    · rename_i hable
      have hnone : s.database.entries.fetch? x.port2 = none := by
        rw [← Option.not_isSome_iff_eq_none]
        exact fun hsome => hcan ⟨hable.1, hable.2, hsome⟩
      rw [Entries.absorb_of_none hnone]
      obtain ⟨⟨entries, saved⟩, running⟩ := s
      obtain ⟨_, rfl⟩ := hable
      rfl
    · rfl

theorem running_post (s : Service) (x : Posting) : (s.post x.request).running = s.running := by
  rw [post_request]
  split
  · rfl
  · rfl

theorem post_comm (s : Service) (x y : Posting) :
    (s.post x.request).post y.request = (s.post y.request).post x.request := by
  simp only [post_request]
  split
  · rename_i hable
    simp only [hable.1, and_self, if_true, Entries.absorb_comm]
  · rfl

def postEach (s : Service) (xs : List Posting) : Service := xs.foldl (fun s x => s.post x.request) s

theorem postEach_perm (s : Service) {xs ys : List Posting} (h : xs.Perm ys) : s.postEach xs = s.postEach ys :=
  h.foldl_eq' (fun x _ y _ s => post_comm s x y) s

def on (e : Entries) : Service where
  database := { entries := e }

theorem postEach_on (e : Entries) (xs : List Posting) : (on e).postEach xs = on (e.absorbEach xs) := by
  induction xs generalizing e with
  | nil => rfl
  | cons x xs ih =>
    have hfirst : (on e).post x.request = on (e.absorb x) := by
      rw [post_request, if_pos ⟨rfl, rfl⟩]
      rfl
    rw [postEach, List.foldl_cons, hfirst]
    exact ih (e.absorb x)

/-- The order of postings does not matter.  Each record has the latest timestamp and the sums of the tallies in the end.
What has no record is left as it is, and what is posted for it does not disturb the rest. -/
theorem postings_in_any_order (e : Entries) {xs ys : List Posting} (h : xs.Perm ys) :
    ((on e).postEach ys).database = ((on e).postEach xs).database ∧
    (∀ port r, e.fetch? port = some r →
      let own := xs.filter (·.port2 = port)
      ((on e).postEach xs).database.entries.fetch? port = some { r with
        timestamp := (own.map (·.timestamp)).foldl max r.timestamp
        count1 := r.count1 + (own.map (·.count1)).sum
        count2 := r.count2 + (own.map (·.count2)).sum
        connections := r.connections + (own.map (·.connections)).sum }) ∧
    (∀ key, (∀ x ∈ xs, portKey x.port2 = key → e.fetch? x.port2 = none) →
      ((on e).postEach xs).database.entries.get? key = e.get? key) ∧
    (on e).postEach (xs.filter fun x => (e.fetch? x.port2).isSome) = (on e).postEach xs := by
  refine ⟨?_, ?_, ?_, ?_⟩
  · rw [postEach_perm (on e) h]
  · intro port r hr
    rw [postEach_on, on, Entries.fetch?_absorbEach, hr, Option.map_some, Posting.foldl_amend]
  · intro key hkey
    rw [postEach_on]
    exact Entries.get?_absorbEach hkey
  · rw [postEach_on, postEach_on, Entries.absorbEach_filter]

def fullRecord : Credential where
  port2 := 14553
  timestamp := 100
  count1 := 4294967295

def fewPostings : List Posting := [.session 14553 2 0 true, .clock 7 1, .clock 14553 300, .clock 14553 200]

/-- The tally wraps around, the latest clock stays, and the posting for another port comes to nothing. -/
theorem postings_in_any_order_fewPostings :
    fewPostings.Perm fewPostings.reverse ∧
      ((on (Entries.empty.save fullRecord)).postEach fewPostings.reverse).database.entries.fetch? 14553 =
        some { fullRecord with timestamp := 300, count1 := 1, connections := 1 } ∧
      ((on (Entries.empty.save fullRecord)).postEach fewPostings.reverse).database.entries.get? (portKey 7) = none := by
  have hperm : fewPostings.Perm fewPostings.reverse := (List.reverse_perm _).symm
  obtain ⟨hsame, hrecord, hothers, _⟩ := postings_in_any_order (Entries.empty.save fullRecord) hperm
  have hstored : (Entries.empty.save fullRecord).fetch? 14553 = some fullRecord.stored :=
    Entries.fetch?_save rfl Entries.empty
  have hname : fullRecord.stored = fullRecord := by decide +kernel
  rw [hname] at hstored
  rw [hsame]
  refine ⟨hperm, hrecord 14553 fullRecord hstored, hothers (portKey 7) ?_⟩
  decide +kernel

end Service

end GatedRelay
