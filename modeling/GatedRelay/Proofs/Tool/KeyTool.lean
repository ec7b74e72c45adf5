import GatedRelay.Proofs.Tool.Files
import GatedRelay.Tool.KeyTool

/-!
# What an invocation of the key tool can change

One database at most is changed, the one that is named, and of it what the action is about; nothing if the tool fails.
A database that is missing is made by no action but `initialise`, except through a locator that asks for it: that a
database is there is asked of the whole name, as a path, and then the name is opened as a locator, which can lead to
another file.
-/

set_option autoImplicit false

namespace GatedRelay.KeyTool

open KeyCommand Credential Entries Files

/-! ## The entries of a database -/

def port2? : Action → Option Int32
  | .initialise | .list | .convert => none
  | .add _ port2 _ _ | .remove port2 | .setName port2 _ | .setPassphrase port2 _ | .setPort1 port2 _
  | .resetTimestamp port2 => some port2

theorem target?_of_request? {action : Action} {request : Request} (h : request? action = some request) :
    request.target? = port2? action := by
  cases action <;> cases h <;> rfl

structure Careful (action : Action) (code : Nat) (before after : Entries) : Prop where
  failed : code ≠ 0 → after = before
  read : action = .list ∨ action = .initialise → after = before
  converted : action = .convert → ∀ key, after.get? key ≠ before.get? key →
    key.length = 4 ∧ ∃ data, before.get? key = some data ∧ IsLegacy data
  single : ∀ port2, port2? action = some port2 → ∀ key, key ≠ portKey port2 → after.get? key = before.get? key
  foreign : ∀ key, key.length ≠ 4 → after.get? key = before.get? key
  unread : ∀ key data, before.get? key = some data → ¬IsRecord data → ¬IsLegacy data → after.get? key = some data

theorem Careful.refl (action : Action) (code : Nat) (entries : Entries) : Careful action code entries entries where
  failed _ := rfl
  read _ := rfl
  converted _ _ h := absurd rfl h
  single _ _ _ _ := rfl
  foreign _ _ := rfl
  unread _ _ hdata _ _ := hdata

theorem careful_perform {action : Action} {request : Request} (h : request? action = some request) (e : Entries) :
    Careful action 0 e (request.perform e).2 where
  failed h := absurd rfl h
  read haction := by
    rcases haction with rfl | rfl <;> cases h
    rfl
  converted haction key hkey := by
    subst haction
    cases h
    rcases Request.get?_perform .convertLegacy e key with hsame | ⟨_, htarget, _⟩ | ⟨_, port2, data, hkey', hdata⟩
    · exact absurd hsame hkey
    · cases htarget
    · exact ⟨hkey' ▸ length_portKey port2, data, hdata⟩
  single port2 hport key hkey := by
    have htarget := (target?_of_request? h).trans hport
    rcases request.get?_perform e key with hsame | ⟨port, hport, rfl, _⟩ | ⟨rfl, _⟩
    · exact hsame
    · cases htarget.symm.trans hport
      exact absurd rfl hkey
    · cases htarget
  foreign key hkey := by
    rcases request.get?_perform e key with hsame | ⟨port, _, rfl, _⟩ | ⟨_, port, _, rfl, _⟩
    · exact hsame
    · exact absurd (length_portKey port) hkey
    · exact absurd (length_portKey port) hkey
  unread key data hdata hrecord hlegacy := by
    rcases request.get?_perform e key with hsame | ⟨_, _, _, hrecord'⟩ | ⟨_, _, data', _, hdata', hlegacy'⟩
    · exact hsame.trans hdata
    · exact absurd (hrecord' data hdata) hrecord
    · cases hdata.symm.trans hdata'
      exact absurd hlegacy' hlegacy

theorem act_careful (d : OpenDatabase) {action : Action} {request : Request} (h : request? action = some request) :
    Careful action (act d action request).1.code d.entries (act d action request).2 := by
  unfold act
  split
  · exact .refl _ _ _
  · rw [Database.attempt_of_idle rfl]
    rcases hperform : request.perform d.entries with ⟨_ | reply, after⟩
    · exact .refl _ _ _
    · have hcareful := careful_perform h d.entries
      rw [hperform] at hcareful
      exact hcareful

/-! ## The files -/

def openMode : Action → OpenMode
  | .initialise => .create
  | _ => .readWrite

def database? (files : Files) (i : Invocation) : Option Bytes := files.target? i.database (openMode i.action)

def isThere (files : Files) (path : String) : Bool := (files.find? path).isSome || isDirectory path

def makes (files : Files) (i : Invocation) : Bool :=
  (i.action = .initialise || isThere files i.database) && mayMake i.database (openMode i.action)

theorem openMode_eq {action : Action} (h : action ≠ .initialise) : openMode action = .readWrite := by
  cases action <;> first | rfl | exact absurd rfl h

theorem makes_eq_true_iff {files : Files} {i : Invocation} :
    makes files i = true ↔ (i.action = .initialise ∧ mayMake i.database .create = true) ∨
      i.action ≠ .initialise ∧ isThere files i.database = true ∧ mayMake i.database .readWrite = true := by
  rw [makes]
  by_cases h : i.action = .initialise
  · simp [h, openMode]
  · simp [h, openMode_eq h]

theorem load_eq (files : Files) (path : String) :
    files.load path = if isThere files path then files.openNamed path .readWrite
      else (.error (.databaseMissing path), files) := by
  rw [Files.load, isThere]
  cases files.find? path <;> cases isDirectory path <;> rfl

/-- Whatever an invocation comes to, only what the action may change in the database that it is about is changed. -/
theorem run_after (files : Files) (i : Invocation) :
    After files (run files i).2 (database? files i) (makes files i) (Careful i.action (run files i).1.code) := by
  obtain ⟨path, action⟩ := i
  have hopening := files.opening path (openMode action)
  have hkept (code : Nat) (before after : Entries) (h : before = after) : Careful action code before after :=
    h ▸ .refl action code before
  rw [run, database?, makes]
  cases hrequest : request? action with
  | none =>
    obtain rfl : action = .initialise := by cases action <;> first | rfl | cases hrequest
    simp only [Files.create, decide_true, Bool.true_or, Bool.true_and]
    rw [openMode] at hopening ⊢
    generalize files.openNamed path .create = opened at hopening ⊢
    obtain ⟨_ | _, files'⟩ := opened
    · exact hopening.after.mono (hkept _)
    · exact hopening.after.mono (hkept _)
  | some request =>
    have haction : action ≠ .initialise := fun h => by rw [h] at hrequest; cases hrequest
    simp only [load_eq, openMode_eq haction, decide_eq_false haction, Bool.false_or] at hopening ⊢
    cases isThere files path with
    | false => exact .of_unused (fun entries => .refl _ _ entries) fun _ _ _ => rfl
    | true =>
      rw [if_pos rfl, Bool.true_and]
      generalize files.openNamed path .readWrite = opened at hopening ⊢
      obtain ⟨_ | d, files'⟩ := opened
      · exact hopening.after.mono (hkept _)
      · exact hopening.after_write (act_careful d hrequest)

/-! ## Invocations -/

/-- An invocation changes no more than its action is about, nothing if it fails, and makes no file but a new
database. -/
structure Atomic (files : Files) (arguments : List String) : Prop where
  rejected : (∀ i, parse arguments ≠ .accepted i) → (respond files arguments).2 = files
  kept : ∀ i name before, parse arguments = .accepted i → database? files i = some name →
    files.get? name = some before → ∃ after, (respond files arguments).2.get? name = some after ∧
      Careful i.action (respond files arguments).1.code before after
  /-- Other files stay, but for those that stand beside the database while it is used. -/
  apart : ∀ i other, parse arguments = .accepted i → database? files i ≠ some other →
    (∀ name, database? files i = some name → ¬IsBeside other name) →
      (respond files arguments).2.get? other = files.get? other
  missing : ∀ name, files.get? name = none → (respond files arguments).2.get? name = none ∨
    (∃ i, parse arguments = .accepted i ∧ i.action = .initialise ∧ database? files i = some name) ∧
      (respond files arguments).2.get? name = some .empty

/-- An action other than `initialise` finds something under the name of its database, taken for a path, but the name
leads to another file, which is missing, and asks for it to be made. -/
def MakesMissing (files : Files) (arguments : List String) : Prop :=
  ∃ i name, parse arguments = .accepted i ∧ i.action ≠ .initialise ∧ isThere files i.database = true ∧
    database? files i = some name ∧ files.get? name = none ∧ mayMake i.database .readWrite = true

theorem respond_of_accepted {files : Files} {arguments : List String} {i : Invocation}
    (h : parse arguments = .accepted i) : respond files arguments = run files i := by
  rw [respond, h]

theorem not_atomic_of_makesMissing {files : Files} {arguments : List String} (h : MakesMissing files arguments) :
    ¬Atomic files arguments := by
  obtain ⟨i, name, hparse, haction, hthere, hname, hget, hmay⟩ := h
  intro hatomic
  have hmakes : makes files i = true := makes_eq_true_iff.mpr (.inr ⟨haction, hthere, hmay⟩)
  obtain ⟨after, hafter, _⟩ := (run_after files i).made hname hget hmakes
  rcases hatomic.missing name hget with hnone | ⟨⟨i', hparse', haction', _⟩, _⟩
  · rw [respond_of_accepted hparse, hafter] at hnone
    cases hnone
  · cases hparse.symm.trans hparse'
    exact haction haction'

theorem atomic_of_not_makesMissing {files : Files} {arguments : List String} (h : ¬MakesMissing files arguments) :
    Atomic files arguments where
  rejected hrejected := by
    rw [respond]
    cases hparse : parse arguments with
    | accepted i => exact absurd hparse (hrejected i)
    | help | version | misuse => rfl
  kept i name before hparse hname hget := by
    rw [respond_of_accepted hparse]
    exact (run_after files i).kept hname hget
  apart i other hparse hother hbeside := by
    rw [respond_of_accepted hparse]
    rcases (run_after files i).others other hother with hsame | ⟨_, name, hname, hbeside'⟩
    · exact hsame
    · exact absurd hbeside' (hbeside name hname)
  missing name hget := by
    cases hparse : parse arguments with
    | help | version | misuse => exact .inl (by rw [respond, hparse]; exact hget)
    | accepted i =>
      rw [respond_of_accepted hparse]
      by_cases hname : database? files i = some name
      · cases hmakes : makes files i with
        | false => exact .inl ((run_after files i).unmade hname hget hmakes)
        | true =>
          rcases makes_eq_true_iff.mp hmakes with ⟨haction, _⟩ | ⟨haction, hthere, hmay⟩
          · obtain ⟨after, hafter, hcareful⟩ := (run_after files i).made hname hget hmakes
            exact .inr ⟨⟨i, rfl, haction, hname⟩, by rw [hafter, hcareful.read (.inr haction)]⟩
          · exact absurd ⟨i, name, hparse, haction, hthere, hname, hget, hmay⟩ h
      · rcases (run_after files i).others name hname with hsame | ⟨hnone, _⟩
        · exact .inl (hsame.trans hget)
        · exact .inl hnone

/-- An invocation is atomic, except where it makes a missing database through a locator. -/
theorem atomic_iff_not_makesMissing (files : Files) (arguments : List String) :
    (Atomic files arguments ↔ ¬MakesMissing files arguments) ∧
      (MakesMissing files arguments → ∃ i, parse arguments = .accepted i ∧ i.action ≠ .initialise ∧
        Locator.scheme.isPrefixOf i.database.toList = true) := by
  refine ⟨⟨fun hatomic h => not_atomic_of_makesMissing h hatomic, atomic_of_not_makesMissing⟩, ?_⟩
  rintro ⟨i, _, hparse, haction, _, _, _, hmay⟩
  exact ⟨i, hparse, haction, isPrefixOf_of_mayMake hmay⟩

/-- A locator of a database in memory that then asks for its file to be made. -/
def makingLocator : String := "file:keys.db?mode=memory&mode=rwc"

def misnamed : Files := ⟨[(Utf8.encode makingLocator, .empty)]⟩

theorem not_atomic_misnamed : ¬Atomic misnamed ["--keydb", makingLocator, "remove", "14553"] := by
  have hparse : parse ["--keydb", makingLocator, "remove", "14553"] = .accepted ⟨makingLocator, .remove 14553⟩ := rfl
  have hthere : isThere misnamed makingLocator = true := by decide +kernel
  have hmay : mayMake makingLocator .readWrite = true := by decide +kernel
  have hdatabase : database? misnamed ⟨makingLocator, .remove 14553⟩ = some (Utf8.encode "keys.db") := by
    decide +kernel
  have hmissing : misnamed.get? (Utf8.encode "keys.db") = none := by decide +kernel
  exact not_atomic_of_makesMissing ⟨_, _, hparse, by decide, hthere, hdatabase, hmissing, hmay⟩

end GatedRelay.KeyTool
