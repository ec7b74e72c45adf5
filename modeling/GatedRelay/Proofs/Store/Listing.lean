import GatedRelay.Proofs.Store.Transactions
import GatedRelay.Proofs.Store.Upgrade
import Mathlib.Data.List.Forall2
import Mathlib.Data.List.Induction

/-!
# What is listed is what is found

A listing goes through the keys and looks every port up.  Since the entries stand in the order of their keys, it gives
the record of each entry that holds one, in that order, and passes over all the others.  In a transaction both the
listing and the lookup show for each port what the last request that wrote there has left.
-/

set_option autoImplicit false

namespace GatedRelay

open Credential

instance (data : Bytes) : Decidable (IsRecord data) := inferInstanceAs (Decidable (_ ∧ _))

theorem toOption_eq_some_iff {ε α : Type} {x : Except ε α} {a : α} : x.toOption = some a ↔ x = .ok a := by
  cases x <;> simp [Except.toOption]

namespace Entries

/-! ## Entries that hold records -/

def Holds (p : Bytes × Bytes) (r : Credential) : Prop := p.1 = portKey r.port2 ∧ unpack r.port2 p.2 = .ok r

def recordOf? (p : Bytes × Bytes) : Option Credential :=
  (portOfKey? p.1).bind fun port2 => (unpack port2 p.2).toOption

theorem recordOf?_eq_some_iff {p : Bytes × Bytes} {r : Credential} : recordOf? p = some r ↔ Holds p r := by
  rw [recordOf?, Option.bind_eq_some_iff]
  constructor
  · rintro ⟨port2, hkey, hunpack⟩
    rw [toOption_eq_some_iff] at hunpack
    obtain rfl : r.port2 = port2 := (of_unpack hunpack).1
    exact ⟨portOfKey?_eq_some_iff.mp hkey, hunpack⟩
  · rintro ⟨hkey, hunpack⟩
    exact ⟨r.port2, portOfKey?_eq_some_iff.mpr hkey, toOption_eq_some_iff.mpr hunpack⟩

theorem exists_holds_iff {p : Bytes × Bytes} : (∃ r, Holds p r) ↔ p.1.length = 4 ∧ IsRecord p.2 := by
  constructor
  · rintro ⟨r, hkey, hunpack⟩
    exact ⟨hkey ▸ length_portKey r.port2, unpack_eq_ok_iff.mp ⟨r, hunpack⟩⟩
  · rintro ⟨hlength, hrecord⟩
    have hkey : portOfKey? p.1 = some _ := if_pos hlength
    obtain ⟨r, hr⟩ := unpack_eq_ok_iff.mpr hrecord
    exact ⟨r, (of_unpack hr).1 ▸ portOfKey?_eq_some_iff.mp hkey, (of_unpack hr).1 ▸ hr⟩

theorem fetch?_eq_some_iff {e : Entries} {port2 : Int32} {r : Credential} :
    e.fetch? port2 = some r ↔ r.port2 = port2 ∧ ∃ p ∈ e.pairs, Holds p r := by
  rw [fetch?, Option.bind_eq_some_iff]
  simp only [toOption_eq_some_iff]
  constructor
  · rintro ⟨data, hget, hunpack⟩
    obtain rfl : r.port2 = port2 := (of_unpack hunpack).1
    exact ⟨rfl, (portKey r.port2, data), mem_pairs_iff.mpr hget, rfl, hunpack⟩
  · rintro ⟨rfl, ⟨key, data⟩, hmem, rfl, hunpack⟩
    exact ⟨data, mem_pairs_iff.mp hmem, hunpack⟩

/-! ## The listing -/

/-- The keys are decoded and the ports encoded again, which leads back to the same entries. -/
theorem listing_eq (e : Entries) : e.listing = e.pairs.filterMap recordOf? := by
  rw [listing, keys, List.filterMap_map]
  apply List.filterMap_congr
  rintro ⟨key, data⟩ hp
  rw [Function.comp_apply, recordOf?]
  cases hport : portOfKey? key with
  | none => rfl
  | some port2 =>
    obtain rfl : key = portKey port2 := portOfKey?_eq_some_iff.mp hport
    rw [Option.bind_some, Option.bind_some, fetch?, mem_pairs_iff.mp hp, Option.bind_some]

/-- The records are those of the entries that hold one, in the order of their keys, and those that are found. -/
structure Lists (e : Entries) (rs : List Credential) : Prop where
  holds : List.Forall₂ Holds (e.pairs.filter fun p => p.1.length = 4 ∧ IsRecord p.2) rs
  ordered : rs.Pairwise fun r r' => portKey r.port2 < portKey r'.port2
  mem_iff : ∀ r, r ∈ rs ↔ e.fetch? r.port2 = some r

theorem forall₂_filterMap_recordOf? (l : List (Bytes × Bytes)) :
    List.Forall₂ Holds (l.filter fun p => p.1.length = 4 ∧ IsRecord p.2) (l.filterMap recordOf?) := by
  induction l with
  | nil => exact .nil
  | cons p rest ih =>
    cases hr : recordOf? p with
    | none =>
      have hinvalid : ¬(p.1.length = 4 ∧ IsRecord p.2) := by
        rw [← exists_holds_iff]
        rintro ⟨r, hholds⟩
        rw [recordOf?_eq_some_iff.mpr hholds] at hr
        cases hr
      rw [List.filterMap_cons_none hr, List.filter_cons_of_neg (by simpa using hinvalid)]
      exact ih
    | some r =>
      have hholds := recordOf?_eq_some_iff.mp hr
      have hvalid := exists_holds_iff.mp ⟨r, hholds⟩
      rw [List.filterMap_cons_some hr, List.filter_cons_of_pos (by simpa using hvalid)]
      exact .cons hholds ih

theorem lists_listing (e : Entries) : Lists e e.listing := by
  rw [listing_eq]
  constructor
  · exact forall₂_filterMap_recordOf? e.pairs
  · rw [List.pairwise_filterMap]
    apply e.sorted.imp
    intro p p' hlt r hr r' hr'
    rw [← (recordOf?_eq_some_iff.mp hr).1, ← (recordOf?_eq_some_iff.mp hr').1]
    exact hlt
  · intro r
    simp only [List.mem_filterMap, recordOf?_eq_some_iff, fetch?_eq_some_iff, true_and]

end Entries

/-! ## What a request leaves -/

namespace Request

open Entries

def Saves : Request → Prop
  | get _ | list | remove _ | convertLegacy => False
  | add .. | setName .. | setPassphrase .. | setPort1 .. | resetTimestamp .. | recordSession .. | advanceTimestamp ..
  | setSigningKey .. => True

inductive Does (e : Entries) : Request → Except StoreError Reply × Entries → Prop
  | get (port2 : Int32) : Does e (.get port2) (.ok (.found (e.fetch? port2)), e)
  | list : Does e .list (.ok (.records e.listing), e)
  | refused {request : Request} (err : StoreError) (h : request ≠ .convertLegacy) : Does e request (.error err, e)
  | saved {request : Request} {r : Credential} (h : request.Saves) (hmagic : r.magic = recordMagic) :
      Does e request (.ok (.record r), e.save r)
  | removed (port2 : Int32) (r : Credential) : Does e (.remove port2) (.ok (.record r), e.erase (portKey port2))
  | upgraded (result : Except StoreError (List Credential)) :
      Does e .convertLegacy (result.map .records, (e.upgrades e.keys).foldl Entries.save e)

theorem does_update {request : Request} (h : request.Saves) (hconvert : request ≠ .convertLegacy) {port2 : Int32}
    {change : Credential → Credential} (hmagic : ∀ r, (change r).magic = r.magic) (e : Entries) :
    Does e request (answerOne e (e.update port2 change)) := by
  rw [update]
  cases hr : e.fetch? port2 with
  | none => exact .refused _ hconvert
  | some r => exact .saved h ((hmagic r).trans (of_fetch? hr).2.1)

theorem does_perform (e : Entries) (request : Request) : Does e request (request.perform e) := by
  cases request with
  | get port2 => exact .get port2
  | list => exact .list
  | add port1 port2 name passphrase =>
    rw [perform, create]
    cases e.get? (portKey (withPassphrase { port2 := port2, port1 := port1, name := name } passphrase).port2) with
    | some data => exact .refused _ (by simp)
    | none => exact .saved trivial rfl
  | remove port2 =>
    rw [perform, Entries.remove]
    cases e.fetch? port2 with
    | none => exact .refused _ (by simp)
    | some r => exact .removed port2 r
  | convertLegacy =>
    have hdoes := Does.upgraded (e := e) e.convertLegacy.1
    rw [convertLegacy_eq] at hdoes
    rw [perform, convertLegacy_eq]
    exact hdoes
  | setName | setPassphrase | setPort1 | resetTimestamp | recordSession | advanceTimestamp | setSigningKey =>
    refine does_update ?_ ?_ ?_ e
    · trivial
    · simp
    · exact fun _ => rfl

inductive Writes (e : Entries) : Request → Int32 → Option Credential → Prop
  | saved {request : Request} {r : Credential} (h : request.Saves) (hreply : (request.perform e).1 = .ok (.record r)) :
      Writes e request r.port2 (some r.stored)
  | removed {port2 : Int32} {r : Credential} (hreply : ((remove port2).perform e).1 = .ok (.record r)) :
      Writes e (.remove port2) port2 none
  | upgraded {r : Credential} (h : r ∈ e.upgrades e.keys) : Writes e .convertLegacy r.port2 (some r)

variable {e : Entries} {request : Request} {port2 : Int32} {found : Option Credential}

theorem fetch?_of_writes (h : Writes e request port2 found) : (request.perform e).2.fetch? port2 = found := by
  have hdoes := does_perform e request
  cases h with
  | saved hsaves hreply =>
    generalize request.perform e = did at hdoes hreply
    cases hdoes with
    | get | list | removed | upgraded => cases hsaves
    | refused => cases hreply
    | saved _ hmagic =>
      cases hreply
      exact fetch?_save hmagic e
  | removed hreply =>
    generalize (remove port2).perform e = did at hdoes hreply
    cases hdoes with
    | refused => cases hreply
    | saved hsaves => cases hsaves
    | removed => rw [fetch?, get?_erase, if_pos rfl]; rfl
  | upgraded hr =>
    generalize convertLegacy.perform e = did at hdoes
    cases hdoes with
    | refused _ hconvert => exact absurd rfl hconvert
    | saved hsaves => cases hsaves
    | upgraded => exact fetch?_saveEach_upgrades hr

theorem fetch?_of_not_writes (h : ∀ found, ¬Writes e request port2 found) :
    (request.perform e).2.fetch? port2 = e.fetch? port2 := by
  have hdoes := does_perform e request
  generalize hdid : request.perform e = did at hdoes
  cases hdoes with
  | get | list | refused => rfl
  | saved hsaves hmagic =>
    apply fetch?_save_of_ne
    rintro rfl
    exact h _ (.saved hsaves (congrArg Prod.fst hdid))
  | removed port r =>
    have hne : port2 ≠ port := by
      rintro rfl
      exact h _ (.removed (congrArg Prod.fst hdid))
    rw [fetch?, get?_erase, if_neg fun hkey => hne (portKey_injective hkey)]
    rfl
  | upgraded =>
    have hne : ∀ r ∈ e.upgrades e.keys, portKey r.port2 ≠ portKey port2 := by
      intro r hr hkey
      obtain rfl := portKey_injective hkey
      exact h _ (.upgraded hr)
    rw [fetch?, get?_saveEach_of_ne hne]
    rfl

/-! ## What requests leave -/

/-- The last of the requests that writes under the port leaves this there; it stood there before if none does. -/
inductive Seen (e : Entries) (port2 : Int32) : List Request → Option Credential → Prop
  | before : Seen e port2 [] (e.fetch? port2)
  | written {requests : List Request} {request : Request} {found : Option Credential}
      (h : Writes (performEach e requests).2 request port2 found) : Seen e port2 (requests ++ [request]) found
  | kept {requests : List Request} {request : Request} {found : Option Credential} (h : Seen e port2 requests found)
      (hnone : ∀ left, ¬Writes (performEach e requests).2 request port2 left) :
      Seen e port2 (requests ++ [request]) found

theorem seen_iff {requests : List Request} :
    Seen e port2 requests found ↔ (performEach e requests).2.fetch? port2 = found := by
  constructor
  · intro h
    induction h with
    | before => rfl
    | written h =>
      rw [FaithfulStorage.performEach_snoc]
      exact fetch?_of_writes h
    | kept _ hnone ih =>
      rw [FaithfulStorage.performEach_snoc, fetch?_of_not_writes hnone]
      exact ih
  · rintro rfl
    induction requests using List.reverseRecOn with
    | nil => exact .before
    | append_singleton requests request ih =>
      rw [FaithfulStorage.performEach_snoc]
      by_cases h : ∃ left, Writes (performEach e requests).2 request port2 left
      · obtain ⟨left, hleft⟩ := h
        rw [fetch?_of_writes hleft]
        exact .written hleft
      · have hnone := not_exists.mp h
        rw [fetch?_of_not_writes hnone]
        exact .kept ih hnone

end Request

/-! ## Reading in a transaction -/

variable {β : Type} [FaithfulStorage β]

structure Scope.Reads (s : Scope β) (earlier : List Request) : Prop where
  get : ∀ port2 found, ((s.performEach earlier).2.perform (.get port2)).1 = .ok (.found found) ↔
    Request.Seen (Storage.entries s.storage) port2 earlier found
  list : ∃ rs, ((s.performEach earlier).2.perform .list).1 = .ok (.records rs) ∧
    Entries.Lists (Storage.entries (s.performEach earlier).2.storage) rs ∧
    ∀ r, r ∈ rs ↔ Request.Seen (Storage.entries s.storage) r.port2 earlier (some r)

theorem entries_performEach (s : Scope β) (earlier : List Request) :
    Storage.entries (s.performEach earlier).2.storage =
      (Request.performEach (Storage.entries s.storage) earlier).2 := by
  rw [FaithfulStorage.entries_database, (FaithfulStorage.leaves_performEach s earlier).2.1]

/-- Every store lists the records that it holds, each once, in the order of their keys, and exactly those that are found
under their ports; a transaction lists and finds what its requests have left. -/
theorem lists_what_is_found (e : Entries) (s : Scope β) (earlier : List Request) :
    Entries.Lists e e.listing ∧ s.Reads earlier := by
  refine ⟨e.lists_listing, ?_, ?_⟩
  · intro port2 found
    rw [Request.seen_iff, ← entries_performEach]
    change Except.ok (Reply.found (Entries.fetch? _ port2)) = _ ↔ _
    simp only [Except.ok.injEq, Reply.found.injEq]
  · refine ⟨_, rfl, Entries.lists_listing _, fun r => ?_⟩
    rw [Request.seen_iff, ← entries_performEach]
    exact (Entries.lists_listing _).mem_iff r

def mixedScope : Scope FileStorage := ⟨⟨.busy .empty Entries.mixedEntries, true, rfl⟩, false⟩

def mixedRequests : List Request := [.remove 14553, .convertLegacy, .setPort1 0 9]

theorem lists_what_is_found_mixed :
    Entries.mixedEntries.fetch? 14553 = some { port2 := 14553 } ∧
      { port2 := 14553 } ∈ Entries.mixedEntries.listing ∧
      Request.Seen Entries.mixedEntries 14553 mixedRequests none ∧
      Request.Seen Entries.mixedEntries 0 mixedRequests (some (Entries.agedRecord 0 9)) ∧
      Request.Seen Entries.mixedEntries 20 mixedRequests none := by
  have hfetch : Entries.mixedEntries.fetch? 14553 = some { port2 := 14553 } := by decide +kernel
  obtain ⟨hlists, hget, _⟩ := lists_what_is_found Entries.mixedEntries mixedScope mixedRequests
  refine ⟨hfetch, (hlists.mem_iff { port2 := 14553 }).mpr hfetch, ?_, ?_, ?_⟩
  · exact (hget 14553 none).mp (by decide +kernel)
  · exact (hget 0 _).mp (by decide +kernel)
  · exact (hget 20 none).mp (by decide +kernel)

end GatedRelay
