import GatedRelay.Recent
import Mathlib.Data.List.Dedup
import Mathlib.Data.List.Perm.Subperm

/-!
# Which keys are remembered

After a row of uses a memory holds the distinct keys used last, the latest first, as many as it has room for.  A key
that was used and is forgotten has had to give way: since its last use at least as many other keys were used as there
is room.
-/

set_option autoImplicit false

namespace GatedRelay.Recent

variable {κ ν : Type} {capacity : Nat} [DecidableEq κ]

theorem keys_use (r : Recent κ ν capacity) (k : κ) (v : ν) :
    (r.use k v).keys = (k :: r.keys.filter (· ≠ k)).take capacity := by
  simp only [keys, use, List.map_take, List.map_cons, List.filter_map, Function.comp_def]

theorem find?_eq_none_iff {r : Recent κ ν capacity} {k : κ} : r.find? k = none ↔ k ∉ r.keys := by
  simp only [find?, keys, Option.map_eq_none_iff, List.find?_eq_none, List.mem_map, decide_eq_true_eq]
  constructor
  · rintro h ⟨entry, hentry, hk⟩
    exact h entry hentry hk
  · intro h entry hentry hk
    exact h ⟨entry, hentry, hk⟩

theorem mem_of_find? {r : Recent κ ν capacity} {k : κ} {v : ν} (h : r.find? k = some v) : (k, v) ∈ r.entries := by
  obtain ⟨entry, hentry, rfl⟩ := Option.map_eq_some_iff.mp h
  have hk : entry.1 = k := by simpa using List.find?_some hentry
  rw [← hk]
  exact List.mem_of_find?_eq_some hentry

theorem find?_of_mem {r : Recent κ ν capacity} {k : κ} {v : ν} (h : (k, v) ∈ r.entries) : r.find? k = some v := by
  cases hfind : r.find? k with
  | none => exact absurd (List.mem_map_of_mem h) (find?_eq_none_iff.mp hfind)
  | some v' =>
    have hsame := List.inj_on_of_nodup_map r.nodup_keys (mem_of_find? hfind) h rfl
    rw [(Prod.mk.inj hsame).2]

theorem find?_use_self (r : Recent κ ν capacity) (k : κ) (v : ν) (h : 0 < capacity) : (r.use k v).find? k = some v := by
  obtain ⟨n, rfl⟩ := Nat.exists_eq_add_of_lt h
  apply find?_of_mem
  simp [use]

theorem size_use_pos (h : 0 < capacity) (r : Recent κ ν capacity) (k : κ) (v : ν) : 0 < (r.use k v).size := by
  obtain ⟨n, rfl⟩ := Nat.exists_eq_add_of_lt h
  simp [use, size]

/-- Using a key changes no value but its own. -/
theorem find?_of_find?_use {r : Recent κ ν capacity} {k k' : κ} {v v' : ν} (h : (r.use k v).find? k' = some v')
    (hne : k' ≠ k) : r.find? k' = some v' := by
  apply find?_of_mem
  have hmem := List.mem_of_mem_take (mem_of_find? h)
  rcases List.mem_cons.mp hmem with heq | hmem
  · exact absurd (Prod.mk.inj heq).1 hne
  · exact List.mem_of_mem_filter hmem

theorem find?_of_find?_erase {r : Recent κ ν capacity} {k k' : κ} {v : ν} (h : (r.erase k).find? k' = some v) :
    r.find? k' = some v :=
  find?_of_mem (List.mem_of_mem_filter (mem_of_find? h))

/-! ## Rows of uses -/

/-- The distinct keys used last, the latest first. -/
def latest (uses : List κ) (n : Nat) : List κ := uses.dedup.reverse.take n

theorem dedup_concat (uses : List κ) (k : κ) : (uses ++ [k]).dedup = uses.dedup.filter (· ≠ k) ++ [k] := by
  induction uses with
  | nil => simp
  | cons u uses ih =>
    rw [List.cons_append]
    by_cases hmem : u ∈ uses
    · rw [List.dedup_cons_of_mem (List.mem_append_left _ hmem), List.dedup_cons_of_mem hmem, ih]
    · rw [List.dedup_cons_of_notMem hmem]
      by_cases hk : u = k
      · rw [List.dedup_cons_of_mem (by simp [hk]), ih, List.filter_cons_of_neg (by simp [hk])]
      · rw [List.dedup_cons_of_notMem (by simp [hmem, hk]), ih, List.filter_cons_of_pos (by simp [hk]),
          List.cons_append]

/-- A key can be taken out before the front of the list is cut off, or after that with one place more. -/
theorem take_filter_take {l : List κ} (hl : l.Nodup) (k : κ) (n : Nat) :
    ((l.take (n + 1)).filter (· ≠ k)).take n = (l.filter (· ≠ k)).take n := by
  induction l generalizing n with
  | nil => rfl
  | cons a l ih =>
    obtain ⟨ha, hl⟩ := List.nodup_cons.mp hl
    by_cases hk : a = k
    · have hfilter (xs : List κ) (hxs : xs ⊆ l) : xs.filter (· ≠ k) = xs := by
        apply List.filter_eq_self.mpr
        intro x hx
        have hne : x ≠ k := fun hxk => ha (hk ▸ hxk ▸ hxs hx)
        simpa using hne
      rw [List.take_succ_cons, List.filter_cons_of_neg (by simp [hk]), List.filter_cons_of_neg (by simp [hk]),
        hfilter _ (List.take_subset n l), hfilter l (List.Subset.refl l), List.take_take, Nat.min_self]
    · rw [List.take_succ_cons, List.filter_cons_of_pos (by simp [hk]), List.filter_cons_of_pos (by simp [hk])]
      cases n with
      | zero => rfl
      | succ n => rw [List.take_succ_cons, List.take_succ_cons, ih hl]

theorem keys_use_latest {r : Recent κ ν capacity} {uses : List κ} (h : r.keys = latest uses capacity) (k : κ) (v : ν) :
    (r.use k v).keys = latest (uses ++ [k]) capacity := by
  have hdedup : (uses ++ [k]).dedup.reverse = k :: uses.dedup.reverse.filter (· ≠ k) := by
    rw [dedup_concat, List.reverse_append, List.filter_reverse]
    rfl
  rw [keys_use, h, latest, latest, hdedup]
  cases capacity with
  | zero => rfl
  | succ n =>
    rw [List.take_succ_cons, List.take_succ_cons, take_filter_take (List.nodup_reverse.mpr uses.nodup_dedup)]

theorem le_length_of_notMem_latest {uses between : List κ} {k : κ} {n : Nat} (h : k ∉ latest (uses ++ k :: between) n) :
    n ≤ (between.filter (· ≠ k)).dedup.length := by
  let since := (k :: between).dedup
  have hsuffix : since <:+ (uses ++ k :: between).dedup := by
    rw [List.dedup_append]
    exact List.suffix_union_right _ _
  have hlong : n < since.length := by
    apply Nat.lt_of_not_le
    intro hle
    apply h
    -- The keys used since are in front of all others, so a memory with room for them has them all.
    have hfront : since.reverse <+: (uses ++ k :: between).dedup.reverse := List.reverse_prefix.mpr hsuffix
    have hall : since.reverse <+: latest (uses ++ k :: between) n :=
      List.prefix_take_iff.mpr ⟨hfront, by rwa [List.length_reverse]⟩
    exact hall.subset (List.mem_reverse.mpr (List.mem_dedup.mpr List.mem_cons_self))
  have hsubset : since ⊆ k :: (between.filter (· ≠ k)).dedup := by
    intro x hx
    rcases List.mem_cons.mp (List.mem_dedup.mp hx) with rfl | hx
    · exact List.mem_cons_self
    · by_cases hxk : x = k
      · exact hxk ▸ List.mem_cons_self
      · exact List.mem_cons_of_mem k (List.mem_dedup.mpr (List.mem_filter.mpr ⟨hx, by simpa using hxk⟩))
  have hlength := (List.subperm_of_subset (List.nodup_dedup (k :: between)) hsubset).length_le
  rw [List.length_cons] at hlength
  exact Nat.le_of_lt_succ (Nat.lt_of_lt_of_le hlong hlength)

end GatedRelay.Recent
