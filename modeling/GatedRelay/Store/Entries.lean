import GatedRelay.Bytes.Basic

/-!
# Key/value entries

A finite map from byte strings to byte strings.  The entries stand in the order of their keys, byte by byte, and every
key has one value; so equal contents are equal entries.
-/

set_option autoImplicit false

namespace GatedRelay

theorem Bytes.lt_of_not_lt_of_ne {a b : Bytes} (h : ¬ a < b) (hne : a ≠ b) : b < a :=
  Decidable.byContradiction fun h' => hne (List.le_antisymm (List.not_lt.mp h') (List.not_lt.mp h))

@[ext] structure Entries where
  pairs : List (Bytes × Bytes) := []
  sorted : pairs.Pairwise (fun a b => a.1 < b.1) := by simp
  deriving DecidableEq

namespace Entries

def empty : Entries := {}

instance : Inhabited Entries := ⟨empty⟩

def putPair (k v : Bytes) : List (Bytes × Bytes) → List (Bytes × Bytes)
  | [] => [(k, v)]
  | p :: rest =>
    if k < p.1 then (k, v) :: p :: rest
    else if k = p.1 then (k, v) :: rest
    else p :: putPair k v rest

theorem mem_putPair {k v : Bytes} {l : List (Bytes × Bytes)} {q : Bytes × Bytes} (h : q ∈ putPair k v l) :
    q = (k, v) ∨ q ∈ l := by
  induction l with
  | nil => simpa [putPair] using h
  | cons p rest ih =>
    unfold putPair at h
    split at h
    · simpa using h
    · split at h
      · rcases List.mem_cons.mp h with rfl | hq
        · exact .inl rfl
        · exact .inr (List.mem_cons_of_mem _ hq)
      · rcases List.mem_cons.mp h with rfl | hq
        · exact .inr List.mem_cons_self
        · exact (ih hq).imp id (List.mem_cons_of_mem _)

theorem sorted_putPair (k v : Bytes) {l : List (Bytes × Bytes)} (h : l.Pairwise (fun a b => a.1 < b.1)) :
    (putPair k v l).Pairwise (fun a b => a.1 < b.1) := by
  induction l with
  | nil => simp [putPair]
  | cons p rest ih =>
    obtain ⟨hp, hrest⟩ := List.pairwise_cons.mp h
    unfold putPair
    split
    · rename_i hlt
      refine List.pairwise_cons.mpr ⟨fun q hq => ?_, h⟩
      rcases List.mem_cons.mp hq with rfl | hq
      · exact hlt
      · exact List.lt_trans hlt (hp q hq)
    · rename_i hnlt
      split
      · rename_i heq
        exact List.pairwise_cons.mpr ⟨fun q hq => heq ▸ hp q hq, hrest⟩
      · rename_i hne
        refine List.pairwise_cons.mpr ⟨fun q hq => ?_, ih hrest⟩
        rcases mem_putPair hq with rfl | hq
        · exact Bytes.lt_of_not_lt_of_ne hnlt hne
        · exact hp q hq

def put (e : Entries) (k v : Bytes) : Entries := ⟨putPair k v e.pairs, sorted_putPair k v e.sorted⟩

def get? (e : Entries) (k : Bytes) : Option Bytes := (e.pairs.find? (·.1 = k)).map (·.2)

def erase (e : Entries) (k : Bytes) : Entries :=
  ⟨e.pairs.filter (·.1 ≠ k), e.sorted.sublist List.filter_sublist⟩

/-- In ascending order. -/
def keys (e : Entries) : List Bytes := e.pairs.map (·.1)

def ofList (l : List (Bytes × Bytes)) : Entries := l.foldl (fun e p => e.put p.1 p.2) empty

end Entries

end GatedRelay
