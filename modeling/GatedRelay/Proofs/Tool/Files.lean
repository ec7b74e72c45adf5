import GatedRelay.Proofs.Store.Changes
import GatedRelay.Tool.Files

/-!
# What becomes of the files when a database is opened

Opening a database is refused, or happens in memory, or finds a file, or makes one.  Whichever it is, all files but the
one that the name leads to and those beside it stay.  A file is made only where the name asks for one that may be made.
-/

set_option autoImplicit false

namespace GatedRelay

namespace Files

theorem get?_put (f : Files) (name : Bytes) (entries : Entries) (other : Bytes) :
    (f.put name entries).get? other = if other = name then some entries else f.get? other := by
  have hfind := find?_filter_key (fun n => decide (n ≠ name)) f.databases other
  by_cases hother : other = name
  · simp [get?, put, hother]
  · rw [if_neg hother, get?, put, List.find?_cons_of_neg (by simpa using Ne.symm hother), hfind]
    simp [hother, get?]

/-- The first name is that of a file beside the second while that is used. -/
def IsBeside (other name : Bytes) : Prop := other ∈ companions.map (name ++ ·)

instance (other name : Bytes) : Decidable (IsBeside other name) := inferInstanceAs (Decidable (_ ∈ _))

theorem not_isBeside_self (name : Bytes) : ¬IsBeside name name := by
  intro h
  obtain ⟨ending, hending, hname⟩ := List.mem_map.mp h
  rw [List.self_eq_append_right.mp hname.symm] at hending
  revert hending
  decide

theorem get?_clear (f : Files) (name other : Bytes) :
    (f.clear name).get? other = if IsBeside other name then none else f.get? other := by
  have hfind := find?_filter_key (fun n => !(companions.map (name ++ ·)).contains n) f.databases other
  rw [get?, clear, hfind]
  have hbeside : (companions.map (name ++ ·)).contains other = decide (IsBeside other name) := by
    rw [Bool.eq_iff_iff, List.contains_iff_mem, decide_eq_true_iff, IsBeside]
  rw [hbeside]
  by_cases h : IsBeside other name
  · rw [decide_eq_true h, if_pos h]
    rfl
  · rw [decide_eq_false h, if_neg h]
    rfl

def target? (f : Files) (name : String) (mode : OpenMode) : Option Bytes :=
  match Locator.ofText name mode with
  | .error _ => none
  | .ok l =>
    if l.isInMemory then none else (Place.named? (fun n => (f.get? n).isSome) l.path).bind Place.name?

/-- The name of a database allows that it is made where there is none. -/
def mayMake (name : String) (mode : OpenMode) : Bool :=
  match Locator.ofText name mode with
  | .error _ => false
  | .ok l => l.mode = .create

/-- Only a locator asks for more than it is opened for. -/
theorem isPrefixOf_of_mayMake {name : String} (h : mayMake name .readWrite = true) :
    Locator.scheme.isPrefixOf name.toList = true := by
  by_contra hplain
  rw [mayMake, Locator.ofText, if_neg hplain] at h
  cases h

inductive Opening (f : Files) (target : Option Bytes) (mayMake : Bool) :
    Except StoreError OpenDatabase → Files → Prop where
  | refused (e : StoreError) (h : ∀ name, target = some name → f.get? name = none → mayMake = false) :
      Opening f target mayMake (.error e) f
  | inMemory (h : target = none) : Opening f target mayMake (.ok ⟨none, .empty, true⟩) f
  | found {name : Bytes} {entries : Entries} (htarget : target = some name) (hget : f.get? name = some entries)
      (writable : Bool) :
      Opening f target mayMake (.ok ⟨some name, entries, writable⟩) (if writable then f.clear name else f)
  /-- The file is made, but cannot be used. -/
  | spoiled {name : Bytes} (htarget : target = some name) (hget : f.get? name = none) (hmake : mayMake = true)
      (e : StoreError) : Opening f target mayMake (.error e) (f.put name .empty)
  | made {name : Bytes} (htarget : target = some name) (hget : f.get? name = none) (hmake : mayMake = true) :
      Opening f target mayMake (.ok ⟨some name, .empty, true⟩) ((f.put name .empty).clear name)

theorem opening (f : Files) (name : String) (mode : OpenMode) :
    Opening f (f.target? name mode) (mayMake name mode) (f.openNamed name mode).1 (f.openNamed name mode).2 := by
  unfold openNamed target? mayMake
  cases hl : Locator.ofText name mode with
  | error e => exact .refused _ fun _ h => by cases h
  | ok l =>
    simp only [openLocator]
    split
    · split
      · exact .inMemory rfl
      · exact .refused _ fun _ h => by cases h
    · cases hfile : (Place.named? (fun n => (f.get? n).isSome) l.path).bind Place.name? with
      | none => exact .refused _ fun _ h => by cases h
      | some file =>
        cases hget : f.get? file with
        | some entries =>
          simp only [hget, openFile]
          split
          · refine .refused _ fun name hname hnone => ?_
            rw [← Option.some.inj hname, hget] at hnone
            cases hnone
          · exact .found rfl hget l.isWritable
        | none =>
          simp only [hget]
          split
          · rename_i hcreate
            have hmake : decide (l.mode = .create) = true := decide_eq_true hcreate
            simp only [openFile]
            split
            · exact .spoiled rfl hget hmake _
            · split
              · exact .spoiled rfl hget hmake _
              · rename_i hwritable
                have hwritable : l.isWritable = true := by simpa using hwritable
                rw [hwritable, if_pos rfl]
                exact .made rfl hget hmake
          · rename_i hcreate
            exact .refused _ fun _ _ _ => decide_eq_false hcreate

/-- The entries of a file when it is used: those that it has, or none at all where it is made. -/
def starting? (f : Files) (mayMake : Bool) (name : Bytes) : Option Entries :=
  (f.get? name).or (if mayMake then some .empty else none)

structure After (f f' : Files) (target : Option Bytes) (mayMake : Bool) (careful : Entries → Entries → Prop) :
    Prop where
  used : ∀ name, target = some name → Option.Rel careful (f.starting? mayMake name) (f'.get? name)
  others : ∀ other, target ≠ some other → f'.get? other = f.get? other ∨
    f'.get? other = none ∧ ∃ name, target = some name ∧ IsBeside other name

variable {f f' : Files} {target : Option Bytes} {mayMake : Bool} {careful : Entries → Entries → Prop}

theorem starting?_of_get? {name : Bytes} {entries : Entries} (h : f.get? name = some entries) :
    f.starting? mayMake name = some entries := by
  rw [starting?, h, Option.some_or]

theorem starting?_of_missing {name : Bytes} (h : f.get? name = none) :
    f.starting? mayMake name = if mayMake then some .empty else none := by
  rw [starting?, h, Option.none_or]

namespace After

theorem of_unused (hrefl : ∀ entries, careful entries entries)
    (h : ∀ name, target = some name → f.get? name = none → mayMake = false) : After f f target mayMake careful where
  used name hname := by
    cases hget : f.get? name with
    | some entries =>
      rw [starting?_of_get? hget]
      exact .some (hrefl entries)
    | none =>
      rw [starting?_of_missing hget, h name hname hget]
      exact .none
  others _ _ := .inl rfl

theorem of_used {name : Bytes} {before after : Entries} (htarget : target = some name)
    (hbefore : f.starting? mayMake name = some before) (hafter : f'.get? name = some after)
    (hcareful : careful before after)
    (hothers : ∀ other, other ≠ name → f'.get? other = f.get? other ∨ f'.get? other = none ∧ IsBeside other name) :
    After f f' target mayMake careful where
  used other hother := by
    obtain rfl : name = other := Option.some.inj (htarget.symm.trans hother)
    rw [hbefore, hafter]
    exact .some hcareful
  others other hother := by
    have hne : other ≠ name := fun h => hother (h ▸ htarget)
    exact (hothers other hne).imp id fun ⟨hnone, hbeside⟩ => ⟨hnone, name, htarget, hbeside⟩

theorem mono {careful' : Entries → Entries → Prop}
    (hmono : ∀ before after, careful before after → careful' before after) (h : After f f' target mayMake careful) :
    After f f' target mayMake careful' where
  used name hname := by
    have hused := h.used name hname
    generalize f.starting? mayMake name = before at hused ⊢
    generalize f'.get? name = after at hused ⊢
    cases hused with
    | some hcareful => exact .some (hmono _ _ hcareful)
    | none => exact .none
  others := h.others

variable {name : Bytes} (h : After f f' target mayMake careful) (hname : target = some name)

include h hname

theorem kept {before : Entries} (hget : f.get? name = some before) :
    ∃ after, f'.get? name = some after ∧ careful before after := by
  have hused := h.used name hname
  rw [starting?_of_get? hget] at hused
  generalize f'.get? name = found at hused ⊢
  cases hused with
  | some hcareful => exact ⟨_, rfl, hcareful⟩

theorem made (hget : f.get? name = none) (hmake : mayMake = true) :
    ∃ after, f'.get? name = some after ∧ careful .empty after := by
  have hused := h.used name hname
  rw [starting?_of_missing hget, if_pos hmake] at hused
  generalize f'.get? name = found at hused ⊢
  cases hused with
  | some hcareful => exact ⟨_, rfl, hcareful⟩

theorem unmade (hget : f.get? name = none) (hmake : mayMake = false) : f'.get? name = none := by
  have hused := h.used name hname
  rw [starting?_of_missing hget, hmake] at hused
  generalize f'.get? name = found at hused ⊢
  cases hused with
  | none => rfl

end After

/-- Opening a database keeps it as it is, or makes an empty one. -/
theorem Opening.after {result : Except StoreError OpenDatabase} (h : Opening f target mayMake result f') :
    After f f' target mayMake Eq := by
  cases h with
  | refused _ h => exact .of_unused (fun _ => rfl) h
  | inMemory h => exact .of_unused (fun _ => rfl) fun _ hname => by cases h.symm.trans hname
  | @found name entries htarget hget writable =>
    have hclear (other : Bytes) :
        (if writable then f.clear name else f).get? other = f.get? other ∨
          (if writable then f.clear name else f).get? other = none ∧ IsBeside other name := by
      cases writable with
      | false => exact .inl rfl
      | true =>
        rw [if_pos rfl, get?_clear]
        split
        · exact .inr ⟨rfl, ‹_›⟩
        · exact .inl rfl
    refine .of_used htarget (starting?_of_get? hget) ?_ rfl fun other _ => hclear other
    rcases hclear name with hsame | ⟨_, hbeside⟩
    · rw [hsame, hget]
    · exact absurd hbeside (not_isBeside_self name)
  | @spoiled name htarget hget hmake e =>
    refine .of_used htarget (by rw [starting?_of_missing hget, hmake, if_pos rfl]) ?_ rfl fun other hother => .inl ?_
    · rw [get?_put, if_pos rfl]
    · rw [get?_put, if_neg hother]
  | @made name htarget hget hmake =>
    refine .of_used htarget (by rw [starting?_of_missing hget, hmake, if_pos rfl]) ?_ rfl fun other hother => ?_
    · rw [get?_clear, if_neg (not_isBeside_self name), get?_put, if_pos rfl]
    · rw [get?_clear, get?_put, if_neg hother]
      split
      · exact .inr ⟨rfl, ‹_›⟩
      · exact .inl rfl

theorem Opening.name_eq {d : OpenDatabase} (h : Opening f target mayMake (.ok d) f') : d.name = target := by
  cases h with
  | inMemory h => exact h.symm
  | found htarget => exact htarget.symm
  | made htarget => exact htarget.symm

theorem Opening.starting?_eq {d : OpenDatabase} (h : Opening f target mayMake (.ok d) f') {name : Bytes}
    (hname : target = some name) : f.starting? mayMake name = some d.entries := by
  cases h with
  | inMemory h => cases h.symm.trans hname
  | found htarget hget =>
    cases htarget.symm.trans hname
    exact starting?_of_get? hget
  | made htarget hget hmake =>
    cases htarget.symm.trans hname
    rw [starting?_of_missing hget, hmake, if_pos rfl]

theorem Opening.after_write {d : OpenDatabase} (h : Opening f target mayMake (.ok d) f') {after : Entries}
    (hcareful : careful d.entries after) : After f (f'.write d after) target mayMake careful := by
  have hname := h.name_eq
  cases htarget : target with
  | none =>
    rw [htarget] at hname h
    rw [write, hname]
    exact ⟨nofun, h.after.others⟩
  | some name =>
    have hstart := h.starting?_eq htarget
    rw [htarget] at hname h
    rw [write, hname]
    refine .of_used rfl hstart ?_ hcareful fun other hother => ?_
    · rw [get?_put, if_pos rfl]
    · rw [get?_put, if_neg hother]
      refine (h.after.others other fun hsame => hother (Option.some.inj hsame).symm).imp id ?_
      rintro ⟨hnone, _, hsame, hbeside⟩
      exact ⟨hnone, Option.some.inj hsame ▸ hbeside⟩

end Files

end GatedRelay
