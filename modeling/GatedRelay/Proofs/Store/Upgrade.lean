import GatedRelay.Proofs.Store.Edits
import GatedRelay.Proofs.Store.Entries

/-!
# Upgrading older records

The upgrade writes each older record anew under the key that it has, so what stands under the keys that are still to
come is what stood there before it began.  An older record whose port has none a thousand below ends it.  Without such
a record all of them are written with their timestamps and secrets, all else stays as it is, and there is nothing left
for a second upgrade.
-/

set_option autoImplicit false

namespace GatedRelay

namespace Credential

/-! ## One record -/

def IsPairable (port2 : Int32) : Prop := Int32.minValue.toInt + 1000 ≤ port2.toInt

instance (port2 : Int32) : Decidable (IsPairable port2) := inferInstanceAs (Decidable (_ ≤ _))

def upgraded (port2 : Int32) (data : Bytes) : Credential where
  port2 := port2
  timestamp := UInt64.ofNat (Bytes.toNat (data.field 8 8))
  secret := Block.ofBytes 32 (data.field 16 32)
  port1 := if port2 = 0 then 0 else port2 - 1000

structure Lifts (data : Bytes) (r : Credential) : Prop where
  magic : r.magic = recordMagic
  timestamp : Bytes.ofNat 8 r.timestamp.toNat = data.field 8 8
  secret : r.secret.bytes = data.field 16 32
  port1 : r.port1.toInt = if r.port2 = 0 then 0 else r.port2.toInt - 1000
  connections : r.connections = 0
  count1 : r.count1 = 0
  count2 : r.count2 = 0
  name : r.name = ""

theorem toInt_sub_thousand {port2 : Int32} (h : IsPairable port2) : (port2 - 1000).toInt = port2.toInt - 1000 := by
  have hlt := port2.toInt_lt
  have hmin : Int32.minValue.toInt = -2147483648 := rfl
  have hthousand : (1000 : Int32).toInt = 1000 := rfl
  rw [IsPairable, hmin] at h
  rw [Int32.toInt_sub, hthousand, Int.bmod_eq_of_le (by omega) (by omega)]

theorem isPairable_zero : IsPairable 0 := by decide

theorem legacyPort1_eq (port2 : Int32) :
    legacyPort1 port2 = if IsPairable port2 then .ok (if port2 = 0 then 0 else port2 - 1000)
      else .error (.legacyPortOutOfRange port2) := by
  have hlow : port2.toInt - 1000 < Int32.minValue.toInt ↔ ¬IsPairable port2 := by
    unfold IsPairable
    omega
  unfold legacyPort1
  split
  · rename_i hzero
    rw [hzero, if_pos isPairable_zero]
  · split
    · rename_i hlt
      rw [if_neg (hlow.mp hlt)]
    · rename_i hge
      rw [if_pos (Decidable.not_not.mp (mt hlow.mpr hge))]

theorem ofLegacy_eq {data : Bytes} (h : IsLegacy data) (port2 : Int32) :
    ofLegacy port2 data =
      if IsPairable port2 then .ok (upgraded port2 data) else .error (.legacyPortOutOfRange port2) := by
  rw [ofLegacy, if_neg fun hlength => hlength h.1, legacyPort1_eq]
  split <;> rfl

theorem lifts_upgraded {data : Bytes} (h : IsLegacy data) {port2 : Int32} (hport2 : IsPairable port2) :
    Lifts data (upgraded port2 data) where
  magic := rfl
  timestamp := by
    apply ofNat_word
    rw [Bytes.field, List.length_take, List.length_drop, h.1]
    rfl
  secret := by
    apply Bytes.fit_eq_self
    rw [Bytes.field, List.length_take, List.length_drop, h.1]
    rfl
  port1 := by
    change (if port2 = 0 then (0 : Int32) else port2 - 1000).toInt = if port2 = 0 then 0 else port2.toInt - 1000
    split
    · rfl
    · exact toInt_sub_thousand hport2
  connections := rfl
  count1 := rfl
  count2 := rfl
  name := rfl

theorem Lifts.stored {data : Bytes} {r : Credential} (h : Lifts data r) : r.stored = r := by
  apply stored_of_name (r := { r with name := "" }) _ h.name
  rfl

theorem Lifts.unique {data : Bytes} {r r' : Credential} (h : Lifts data r) (h' : Lifts data r')
    (hport2 : r.port2 = r'.port2) : r = r' := by
  have htimestamp : r.timestamp = r'.timestamp := by
    rw [← Bytes.word_ofNat r.timestamp, h.timestamp, ← h'.timestamp, Bytes.word_ofNat]
  have hsecret : r.secret = r'.secret := Block.ext (h.secret.trans h'.secret.symm)
  have hport1 : r.port1 = r'.port1 := by
    rw [← Int32.toInt_inj, h.port1, h'.port1, hport2]
  obtain ⟨port2, magic, timestamp, secret, port1, connections, count1, count2, name⟩ := r
  obtain ⟨port2', magic', timestamp', secret', port1', connections', count1', count2', name'⟩ := r'
  obtain ⟨rfl, -, -, -, rfl, rfl, rfl, rfl⟩ := h
  obtain ⟨rfl, -, -, -, rfl, rfl, rfl, rfl⟩ := h'
  cases htimestamp
  cases hsecret
  cases hport1
  cases hport2
  rfl

end Credential

namespace Entries

open Credential

/-! ## All records in turn -/

def older (e : Entries) (keys : List Bytes) : List (Int32 × Bytes) := keys.filterMap e.legacy?

/-- The records that the upgrade of these keys writes, up to the first that it cannot. -/
def upgrades (e : Entries) (keys : List Bytes) : List Credential :=
  ((e.older keys).takeWhile fun old => IsPairable old.1).map fun old => upgraded old.1 old.2

theorem get?_saveEach_of_ne {rs : List Credential} {key : Bytes} (h : ∀ r ∈ rs, portKey r.port2 ≠ key) (e : Entries) :
    (rs.foldl save e).get? key = e.get? key := by
  induction rs generalizing e with
  | nil => rfl
  | cons r rest ih =>
    rw [List.foldl_cons, ih fun r' hr' => h r' (List.mem_cons_of_mem r hr'), save, get?_put,
      if_neg (h r List.mem_cons_self)]

theorem get?_saveEach {rs : List Credential} (h : rs.Pairwise fun r r' => r.port2 ≠ r'.port2) {r : Credential}
    (hr : r ∈ rs) (e : Entries) : (rs.foldl save e).get? (portKey r.port2) = some r.pack := by
  induction rs generalizing e with
  | nil => cases hr
  | cons first rest ih =>
    obtain ⟨hfirst, hrest⟩ := List.pairwise_cons.mp h
    rw [List.foldl_cons]
    rcases List.mem_cons.mp hr with rfl | hr
    · have hne : ∀ r' ∈ rest, portKey r'.port2 ≠ portKey r.port2 := fun r' hr' hkey =>
        hfirst r' hr' (portKey_injective hkey).symm
      rw [get?_saveEach_of_ne hne, save, get?_put, if_pos rfl]
    · exact ih hrest hr _

theorem legacy?_save_of_ne {r : Credential} {key : Bytes} (h : portKey r.port2 ≠ key) (e : Entries) :
    (e.save r).legacy? key = e.legacy? key := by
  rw [legacy?, legacy?, save, get?_put, if_neg h]

/-- The upgrade writes under keys that it has read before only, so it finds what stood there when it began. -/
theorem convertKeys_eq {keys : List Bytes} (h : keys.Nodup) (e : Entries) :
    convertKeys keys e =
      (match (e.older keys).find? fun old => ¬IsPairable old.1 with
        | some old => .error (.corruptRecord old.1 (.legacyPortOutOfRange old.1))
        | none => .ok (e.upgrades keys),
      (e.upgrades keys).foldl save e) := by
  induction keys generalizing e with
  | nil => rfl
  | cons key rest ih =>
    obtain ⟨hkey, hrest⟩ := List.nodup_cons.mp h
    cases hlegacy : e.legacy? key with
    | none =>
      have hsame : e.older (key :: rest) = e.older rest := List.filterMap_cons_none hlegacy
      rw [convertKeys, hlegacy, upgrades, hsame]
      exact ih hrest e
    | some old =>
      obtain ⟨port2, data⟩ := old
      obtain ⟨hport2, -, hdata⟩ := legacy?_eq_some_iff.mp hlegacy
      have hcons : e.older (key :: rest) = (port2, data) :: e.older rest := List.filterMap_cons_some hlegacy
      rw [convertKeys, hlegacy, upgrades, hcons]
      simp only [ofLegacy_eq hdata]
      by_cases hpairable : IsPairable port2
      · have hlater : (e.save (upgraded port2 data)).older rest = e.older rest := by
          apply List.filterMap_congr
          intro key' hkey'
          apply legacy?_save_of_ne
          rintro rfl
          exact hkey (hport2 ▸ hkey')
        have hwritten : (e.save (upgraded port2 data)).upgrades rest = e.upgrades rest := by
          rw [upgrades, hlater, upgrades]
        simp only [if_pos hpairable, ih hrest, hlater, hwritten]
        rw [List.find?_cons_of_neg (by simpa using hpairable), List.takeWhile_cons_of_pos (by simpa using hpairable)]
        cases (e.older rest).find? fun old => ¬IsPairable old.1 with
        | none => rfl
        | some old => rfl
      · rw [List.find?_cons_of_pos (by simpa using hpairable), List.takeWhile_cons_of_neg (by simpa using hpairable)]
        simp only [if_neg hpairable]
        rfl

theorem mem_older {e : Entries} {old : Int32 × Bytes} :
    old ∈ e.older e.keys ↔ e.get? (portKey old.1) = some old.2 ∧ IsLegacy old.2 := by
  obtain ⟨port2, data⟩ := old
  rw [older, List.mem_filterMap]
  constructor
  · rintro ⟨key, -, hlegacy⟩
    obtain ⟨rfl, hdata⟩ := legacy?_eq_some_iff.mp hlegacy
    exact hdata
  · rintro ⟨hget, hdata⟩
    refine ⟨portKey port2, ?_, legacy?_eq_some_iff.mpr ⟨rfl, hget, hdata⟩⟩
    exact List.mem_map_of_mem (mem_pairs_iff.mpr hget)

theorem sorted_older (e : Entries) : (e.older e.keys).Pairwise fun old old' => portKey old.1 < portKey old'.1 := by
  have hkeys : e.keys.Pairwise (· < ·) := List.pairwise_map.mpr e.sorted
  rw [older, List.pairwise_filterMap]
  apply hkeys.imp
  rintro key key' hlt ⟨port2, data⟩ hold ⟨port2', data'⟩ hold'
  rw [← (legacy?_eq_some_iff.mp hold).1, ← (legacy?_eq_some_iff.mp hold').1]
  exact hlt

theorem sorted_upgrades (e : Entries) :
    (e.upgrades e.keys).Pairwise fun r r' => portKey r.port2 < portKey r'.port2 := by
  rw [upgrades, List.pairwise_map]
  exact e.sorted_older.sublist (List.takeWhile_sublist _)

theorem ne_of_sorted {rs : List Credential} (h : rs.Pairwise fun r r' => portKey r.port2 < portKey r'.port2) :
    rs.Pairwise fun r r' => r.port2 ≠ r'.port2 := by
  apply h.imp
  intro r r' hlt heq
  rw [heq] at hlt
  exact List.lt_irrefl _ hlt

theorem convertLegacy_eq (e : Entries) :
    e.convertLegacy =
      (match (e.older e.keys).find? fun old => ¬IsPairable old.1 with
        | some old => .error (.corruptRecord old.1 (.legacyPortOutOfRange old.1))
        | none => .ok (e.upgrades e.keys),
      (e.upgrades e.keys).foldl save e) := convertKeys_eq e.nodup_keys e

theorem of_mem_upgrades {e : Entries} {r : Credential} (h : r ∈ e.upgrades e.keys) :
    ∃ data, e.get? (portKey r.port2) = some data ∧ IsLegacy data ∧ Lifts data r := by
  obtain ⟨⟨port2, data⟩, hold, rfl⟩ := List.mem_map.mp h
  obtain ⟨hget, hdata⟩ := mem_older.mp ((List.takeWhile_sublist _).subset hold)
  have hport2 := List.mem_takeWhile_imp hold
  exact ⟨data, hget, hdata, lifts_upgraded hdata (of_decide_eq_true hport2)⟩

theorem fetch?_saveEach_upgrades {e : Entries} {r : Credential} (h : r ∈ e.upgrades e.keys) :
    ((e.upgrades e.keys).foldl save e).fetch? r.port2 = some r := by
  obtain ⟨data, -, -, hlifts⟩ := of_mem_upgrades h
  rw [fetch?, get?_saveEach (ne_of_sorted e.sorted_upgrades) h, Option.bind_some, unpack_pack hlifts.magic,
    hlifts.stored]
  rfl

/-! ## All of them -/

structure Unpaired (e : Entries) (port2 : Int32) (data : Bytes) : Prop where
  stored : e.get? (portKey port2) = some data
  legacy : IsLegacy data
  tooLow : port2.toInt < Int32.minValue.toInt + 1000

structure Upgrades (e : Entries) (rs : List Credential) (after : Entries) : Prop where
  ordered : rs.Pairwise fun r r' => portKey r.port2 < portKey r'.port2
  complete : ∀ r, r ∈ rs ↔ ∃ data, e.get? (portKey r.port2) = some data ∧ IsLegacy data ∧ Lifts data r
  replaced : ∀ r ∈ rs, after.get? (portKey r.port2) = some r.pack
  kept : ∀ key, (∀ r ∈ rs, portKey r.port2 ≠ key) → after.get? key = e.get? key
  found : ∀ r ∈ rs, after.fetch? r.port2 = some r
  settled : after.convertLegacy = (.ok [], after)

theorem exists_unpaired_iff {e : Entries} :
    (∃ port2 data, Unpaired e port2 data) ↔ ∃ old ∈ e.older e.keys, ¬IsPairable old.1 := by
  constructor
  · rintro ⟨port2, data, hstored, hlegacy, hlow⟩
    exact ⟨(port2, data), mem_older.mpr ⟨hstored, hlegacy⟩, Int.not_le.mpr hlow⟩
  · rintro ⟨⟨port2, data⟩, hold, hport2⟩
    obtain ⟨hstored, hlegacy⟩ := mem_older.mp hold
    exact ⟨port2, data, hstored, hlegacy, Int.not_le.mp hport2⟩

theorem mem_upgrades {e : Entries} (h : ∀ old ∈ e.older e.keys, IsPairable old.1) {r : Credential} :
    r ∈ e.upgrades e.keys ↔ ∃ data, e.get? (portKey r.port2) = some data ∧ IsLegacy data ∧ Lifts data r := by
  constructor
  · exact of_mem_upgrades
  · rintro ⟨data, hget, hdata, hlifts⟩
    have hold : (r.port2, data) ∈ e.older e.keys := mem_older.mpr ⟨hget, hdata⟩
    rw [upgrades, List.takeWhile_eq_self_iff.mpr fun old hold => decide_eq_true (h old hold), List.mem_map]
    exact ⟨_, hold, (lifts_upgraded hdata (h _ hold)).unique hlifts rfl⟩

theorem convertLegacy_of_settled {e : Entries} (h : e.older e.keys = []) : e.convertLegacy = (.ok [], e) := by
  rw [convertLegacy_eq, upgrades, h]
  rfl

theorem not_isLegacy_pack (r : Credential) : ¬IsLegacy r.pack := by
  rintro ⟨hlength, -⟩
  rw [length_pack] at hlength
  exact absurd hlength (by decide)

/-- What is written is not of the older form, and all older values have been written over. -/
theorem older_saveEach {e : Entries} {rs : List Credential}
    (hreplaced : ∀ r ∈ rs, (rs.foldl save e).get? (portKey r.port2) = some r.pack)
    (hall : ∀ old ∈ e.older e.keys, ∃ r ∈ rs, r.port2 = old.1) :
    (rs.foldl save e).older (rs.foldl save e).keys = [] := by
  rw [List.eq_nil_iff_forall_not_mem]
  rintro ⟨port2, data⟩ hold
  obtain ⟨hget, hdata⟩ := mem_older.mp hold
  have hnone : ∀ r ∈ rs, portKey r.port2 ≠ portKey port2 := by
    intro r hr hkey
    rw [← hkey, hreplaced r hr] at hget
    cases hget
    exact not_isLegacy_pack r hdata
  rw [get?_saveEach_of_ne hnone] at hget
  obtain ⟨r, hr, hport2⟩ := hall (port2, data) (mem_older.mpr ⟨hget, hdata⟩)
  exact hnone r hr (congrArg portKey hport2)

theorem upgrades_all {e : Entries} (h : ∀ old ∈ e.older e.keys, IsPairable old.1) :
    Upgrades e (e.upgrades e.keys) ((e.upgrades e.keys).foldl save e) where
  ordered := e.sorted_upgrades
  complete r := mem_upgrades h
  replaced r hr := get?_saveEach (ne_of_sorted e.sorted_upgrades) hr e
  kept key hkey := get?_saveEach_of_ne hkey e
  found r hr := fetch?_saveEach_upgrades hr
  settled := by
    apply convertLegacy_of_settled
    apply older_saveEach fun r hr => get?_saveEach (ne_of_sorted e.sorted_upgrades) hr e
    rintro ⟨port2, data⟩ hold
    obtain ⟨hget, hdata⟩ := mem_older.mp hold
    exact ⟨upgraded port2 data, (mem_upgrades h).mpr ⟨data, hget, hdata, lifts_upgraded hdata (h _ hold)⟩, rfl⟩

/-- Only an older record without a user port makes the upgrade fail.  Otherwise it upgrades every older record. -/
theorem converts_older_records (e : Entries) :
    ((∃ err, e.convertLegacy.1 = .error err) ↔ ∃ port2 data, Unpaired e port2 data) ∧
      ((¬∃ port2 data, Unpaired e port2 data) →
        ∃ rs after, e.convertLegacy = (.ok rs, after) ∧ Upgrades e rs after) := by
  rw [exists_unpaired_iff, convertLegacy_eq]
  cases hfind : (e.older e.keys).find? fun old => ¬IsPairable old.1 with
  | some old =>
    have hold : ∃ old ∈ e.older e.keys, ¬IsPairable old.1 :=
      ⟨old, List.mem_of_find?_eq_some hfind, by simpa using List.find?_some hfind⟩
    exact ⟨⟨fun _ => hold, fun _ => ⟨_, rfl⟩⟩, fun hnone => absurd hold hnone⟩
  | none =>
    have hall : ∀ old ∈ e.older e.keys, IsPairable old.1 := by simpa using hfind
    constructor
    · constructor
      · rintro ⟨err, herr⟩
        cases herr
      · rintro ⟨old, hold, hport2⟩
        exact absurd (hall old hold) hport2
    · intro _
      exact ⟨_, _, rfl, upgrades_all hall⟩

def agedData : Bytes := Bytes.ofNat 8 recordMagic.toNat ++ Bytes.ofNat 8 77 ++ List.replicate 32 5

def agedRecord (port2 port1 : Int32) : Credential where
  port2 := port2
  timestamp := 77
  secret := Block.ofBytes 32 (List.replicate 32 5)
  port1 := port1

/-- A key of no port, a value of no form, one of the older width with another number in front, a record, and an older
record for each of two ports. -/
def mixedEntries : Entries := .ofList [([7], [8]), (portKey 10, [1, 2, 3]), (portKey 20, List.replicate 48 1),
  (portKey 14553, ({ port2 := 14553 } : Credential).pack), (portKey 0, agedData), (portKey (-15760), agedData)]

theorem converts_older_records_mixed :
    ∃ after, mixedEntries.convertLegacy = (.ok [agedRecord 0 0, agedRecord (-15760) (-16760)], after) ∧
      after.fetch? (-15760) = some (agedRecord (-15760) (-16760)) ∧ after.get? [7] = some [8] ∧
      after.get? (portKey 20) = some (List.replicate 48 1) ∧ after.convertLegacy = (.ok [], after) ∧
      ∃ err, (mixedEntries.put (portKey Int32.minValue) agedData).convertLegacy.1 = .error err := by
  have hrecords : mixedEntries.convertLegacy.1 = .ok [agedRecord 0 0, agedRecord (-15760) (-16760)] := by
    decide +kernel
  obtain ⟨hfails, hupgrades⟩ := converts_older_records mixedEntries
  have hpaired : ¬∃ port2 data, Unpaired mixedEntries port2 data := by
    rw [← hfails, hrecords]
    rintro ⟨err, herr⟩
    cases herr
  obtain ⟨rs, after, hconverted, h⟩ := hupgrades hpaired
  obtain rfl : rs = [agedRecord 0 0, agedRecord (-15760) (-16760)] := by
    rw [hconverted] at hrecords
    exact Except.ok.inj hrecords
  refine ⟨after, hconverted, h.found (agedRecord (-15760) (-16760)) (by simp), ?_, ?_, h.settled, ?_⟩
  · exact (h.kept [7] (by decide +kernel)).trans (by decide +kernel)
  · exact (h.kept (portKey 20) (by decide +kernel)).trans (by decide +kernel)
  · apply (converts_older_records _).1.mpr
    exact ⟨Int32.minValue, agedData, by decide +kernel, ⟨by decide +kernel, by decide +kernel⟩, by decide⟩

end Entries

end GatedRelay
