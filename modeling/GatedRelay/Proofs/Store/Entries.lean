import GatedRelay.Proofs.Store.Records
import Mathlib.Data.List.Nodup

/-!
# Entries are what is found under their keys

Entries with the same value under every key are equal.  So values that are put under different keys may be put in any
order, and of two values under one key the later one is left.
-/

set_option autoImplicit false

namespace GatedRelay

theorem portKey_injective {port port' : Int32} (h : portKey port = portKey port') : port = port' := by
  have hport := portOfKey?_portKey port
  rw [h, portOfKey?_portKey] at hport
  exact (Option.some.inj hport).symm

namespace Entries

theorem nodup_keys (e : Entries) : (e.pairs.map (·.1)).Nodup := by
  rw [List.nodup_iff_pairwise_ne, List.pairwise_map]
  apply e.sorted.imp
  intro a b hlt heq
  rw [heq] at hlt
  exact List.lt_irrefl b.1 hlt

theorem mem_pairs_iff {e : Entries} {k v : Bytes} : (k, v) ∈ e.pairs ↔ e.get? k = some v := by
  constructor
  · intro hmem
    cases hfind : e.pairs.find? (·.1 = k) with
    | none => simpa using List.find?_eq_none.mp hfind (k, v) hmem
    | some p =>
      have hp : p ∈ e.pairs := List.mem_of_find?_eq_some hfind
      have hkey : p.1 = k := by simpa using List.find?_some hfind
      obtain rfl : p = (k, v) := List.inj_on_of_nodup_map e.nodup_keys hp hmem hkey
      rw [get?, hfind]
      rfl
  · intro h
    obtain ⟨p, hfind, hvalue⟩ := Option.map_eq_some_iff.mp h
    have hkey : p.1 = k := by simpa using List.find?_some hfind
    rw [← hkey, ← hvalue]
    exact List.mem_of_find?_eq_some hfind

theorem ext_get? {e e' : Entries} (h : ∀ k, e.get? k = e'.get? k) : e = e' := by
  have hperm : e.pairs.Perm e'.pairs := by
    rw [List.perm_ext_iff_of_nodup (List.Nodup.of_map _ e.nodup_keys) (List.Nodup.of_map _ e'.nodup_keys)]
    rintro ⟨k, v⟩
    rw [mem_pairs_iff, mem_pairs_iff, h]
  refine Entries.ext (hperm.eq_of_pairwise ?_ e.sorted e'.sorted)
  intro a b _ _ hab hba
  exact absurd (List.lt_trans hab hba) (List.lt_irrefl a.1)

theorem put_put (e : Entries) (k v v' : Bytes) : (e.put k v).put k v' = e.put k v' := by
  apply ext_get?
  intro k'
  rw [get?_put, get?_put, get?_put]
  split <;> rfl

theorem put_comm (e : Entries) {k k' : Bytes} (h : k ≠ k') (v v' : Bytes) :
    (e.put k v).put k' v' = (e.put k' v').put k v := by
  apply ext_get?
  intro key
  simp only [get?_put]
  split
  · rename_i hkey
    rw [if_neg (hkey ▸ h)]
  · rfl

theorem fetch?_save_of_ne {r : Credential} {port : Int32} (h : r.port2 ≠ port) (e : Entries) :
    (e.save r).fetch? port = e.fetch? port := by
  rw [fetch?, save, get?_put, if_neg fun hkey => h (portKey_injective hkey)]
  rfl

end Entries

end GatedRelay
