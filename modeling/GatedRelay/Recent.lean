/-!
# Bounded memory of recent keys

At most `capacity` keys with a value each, most recently used first.  Using a key moves it to the front; when a new key
does not fit, the one used longest ago is forgotten.
-/

set_option autoImplicit false

namespace GatedRelay

structure Recent (κ ν : Type) (capacity : Nat) where
  entries : List (κ × ν) := []
  nodup_keys : (entries.map (·.1)).Nodup := by simp
  length_le : entries.length ≤ capacity := by simp

namespace Recent

variable {κ ν : Type} {capacity : Nat} [DecidableEq κ]

def empty : Recent κ ν capacity := {}

instance : Inhabited (Recent κ ν capacity) := ⟨empty⟩

def keys (r : Recent κ ν capacity) : List κ := r.entries.map (·.1)

def size (r : Recent κ ν capacity) : Nat := r.entries.length

/-- Looking does not count as a use. -/
def find? (r : Recent κ ν capacity) (k : κ) : Option ν := (r.entries.find? (·.1 = k)).map (·.2)

def contains (r : Recent κ ν capacity) (k : κ) : Bool := (r.find? k).isSome

private theorem nodup_filter_keys (r : Recent κ ν capacity) (k : κ) :
    ((r.entries.filter (·.1 ≠ k)).map (·.1)).Nodup :=
  r.nodup_keys.sublist (List.filter_sublist.map _)

def erase (r : Recent κ ν capacity) (k : κ) : Recent κ ν capacity where
  entries := r.entries.filter (·.1 ≠ k)
  nodup_keys := nodup_filter_keys r k
  length_le := Nat.le_trans (List.length_filter_le _ _) r.length_le

def use (r : Recent κ ν capacity) (k : κ) (v : ν) : Recent κ ν capacity where
  entries := ((k, v) :: r.entries.filter (·.1 ≠ k)).take capacity
  nodup_keys := by
    refine List.Nodup.sublist ((List.take_sublist _ _).map _) ?_
    simp only [List.map_cons, List.nodup_cons]
    refine ⟨?_, nodup_filter_keys r k⟩
    simp
  length_le := by
    rw [List.length_take]
    exact Nat.min_le_left _ _

end Recent

end GatedRelay
