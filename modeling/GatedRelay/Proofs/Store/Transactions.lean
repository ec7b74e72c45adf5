import GatedRelay.Proofs.Store.Records

/-!
# Transactions as their users see them

Storage keeps entries, which are changed one at a time, and has one level of transactions.  A scope is an open
transaction; when it is left it is rolled back, unless a commit or a cancellation has finished it before.  For all
storage that does what a database does, a scope leaves everything that it has written or nothing, however it ends.
-/

set_option autoImplicit false

namespace GatedRelay

/-- Key/value storage with one level of transactions.  An operation that fails leaves storage behind as well. -/
class Storage (β : Type) where
  entries : β → Entries
  put : β → Bytes → Bytes → β
  erase : β → Bytes → β
  begin : β → Except StoreError Unit × β
  commit : β → Except StoreError Unit × β
  rollback : β → Except StoreError Unit × β

/-! ## Requests -/

namespace Storage

variable {β : Type} [Storage β]

def save (b : β) (r : Credential) : β := put b (portKey r.port2) r.pack

def update (b : β) (port2 : Int32) (change : Credential → Credential) : Except StoreError Reply × β :=
  match (entries b).fetch? port2 with
  | none => (.error (.notFound port2), b)
  | some r => (.ok (.record (change r)), save b (change r))

def add (b : β) (r : Credential) : Except StoreError Reply × β :=
  match (entries b).get? (portKey r.port2) with
  | some _ => (.error (.alreadyExists r.port2), b)
  | none => (.ok (.record r), save b r)

def remove (b : β) (port2 : Int32) : Except StoreError Reply × β :=
  match (entries b).fetch? port2 with
  | none => (.error (.notFound port2), b)
  | some r => (.ok (.record r), erase b (portKey port2))

/-- Upgrade the older records under these keys, in turn.  An error leaves what was upgraded before it. -/
def convertKeys : List Bytes → β → Except StoreError (List Credential) × β
  | [], b => (.ok [], b)
  | key :: rest, b =>
    match (entries b).legacy? key with
    | none => convertKeys rest b
    | some (port2, data) =>
      match Credential.ofLegacy port2 data with
      | .error reason => (.error (.corruptRecord port2 reason), b)
      | .ok r =>
        let (converted, after) := convertKeys rest (save b r)
        (converted.map (r :: ·), after)

def perform (b : β) : Request → Except StoreError Reply × β
  | .get port2 => (.ok (.found ((entries b).fetch? port2)), b)
  | .list => (.ok (.records (entries b).listing), b)
  | .add port1 port2 name passphrase =>
    add b ({ port2 := port2, port1 := port1, name := name : Credential }.withPassphrase passphrase)
  | .remove port2 => remove b port2
  | .setName port2 name => update b port2 fun r => { r with name := name }
  | .setPassphrase port2 passphrase => update b port2 (·.withPassphrase passphrase)
  | .setPort1 port2 port1 => update b port2 fun r => { r with port1 := port1 }
  | .resetTimestamp port2 => update b port2 fun r => { r with timestamp := 0 }
  | .recordSession port2 count1 count2 newConnection => update b port2 (·.addSession count1 count2 newConnection)
  | .advanceTimestamp port2 timestamp => update b port2 (·.advance timestamp)
  | .setSigningKey port2 secret timestamp =>
    update b port2 fun r => { r with secret := secret, timestamp := timestamp }
  | .convertLegacy =>
    let (result, after) := convertKeys (entries b).keys b
    (result.map .records, after)

end Storage

/-! ## Scopes -/

structure Scope (β : Type) where
  storage : β
  finished : Bool := false

namespace Scope

variable {β : Type} [Storage β]

def perform (s : Scope β) (request : Request) : Except StoreError Reply × Scope β :=
  let (reply, after) := Storage.perform s.storage request
  (reply, { s with storage := after })

def performEach (s : Scope β) : List Request → List (Except StoreError Reply) × Scope β
  | [] => ([], s)
  | request :: rest =>
    let (reply, after) := s.perform request
    let (replies, last) := after.performEach rest
    (reply :: replies, last)

/-- A scope is finished before it is committed or cancelled, whether that succeeds or not. -/
def finish (s : Scope β) : Ending → Except StoreError Unit × Scope β
  | .commit =>
    let (result, after) := Storage.commit s.storage
    (result, ⟨after, true⟩)
  | .cancel =>
    let (result, after) := Storage.rollback s.storage
    (result, ⟨after, true⟩)
  | .drop => (.ok (), s)

/-- What is not finished when it is left is rolled back. -/
def leave (s : Scope β) : β := if s.finished then s.storage else (Storage.rollback s.storage).2

end Scope

def Storage.inScope {β : Type} [Storage β] (b : β) (requests : List Request) (ending : Ending) :
    Except StoreError (List (Except StoreError Reply) × Except StoreError Unit) × β :=
  match Storage.begin b with
  | (.error e, after) => (.error e, after)
  | (.ok (), opened) =>
    let (replies, scope) := (⟨opened, false⟩ : Scope β).performEach requests
    let (result, ended) := scope.finish ending
    (.ok (replies, result), ended.leave)

/-! ## Databases in memory -/

def Database.after (d : Database) : Except StoreError Database → Except StoreError Unit × Database
  | .ok d' => (.ok (), d')
  | .error e => (.error e, d)

instance : Storage Database where
  entries := Database.entries
  put d k v := { d with entries := d.entries.put k v }
  erase d k := { d with entries := d.entries.erase k }
  begin d := d.after d.begin
  commit d := d.after d.commit
  rollback d := d.after d.rollback

/-! ## Databases in files -/

/-- A connection to a file.  Until a transaction ends the file stays as it was, and what is written is seen on the
connection only. -/
inductive Connection where
  | idle (file : Entries)
  | busy (file working : Entries)

namespace Connection

def isOpen : Connection → Bool
  | idle _ => false
  | busy _ _ => true

def entries : Connection → Entries
  | idle file => file
  | busy _ working => working

def write (change : Entries → Entries) : Connection → Connection
  | idle file => idle (change file)
  | busy file working => busy file (change working)

def begin : Connection → Connection
  | idle file => busy file file
  | busy file working => busy file working

def commit : Connection → Connection
  | idle file => idle file
  | busy _ working => idle working

def rollback : Connection → Connection
  | idle file => idle file
  | busy file _ => idle file

end Connection

structure FileStorage where
  connection : Connection
  inTransaction : Bool
  agrees : inTransaction = connection.isOpen

namespace FileStorage

def write (b : FileStorage) (change : Entries → Entries) : FileStorage where
  connection := b.connection.write change
  inTransaction := b.inTransaction
  agrees := by
    rw [b.agrees]
    cases b.connection <;> rfl

def begin (b : FileStorage) : Except StoreError Unit × FileStorage :=
  if b.inTransaction then (.error .transactionActive, b)
  else (.ok (), ⟨b.connection.begin, true, by cases b.connection <;> rfl⟩)

def commit (b : FileStorage) : Except StoreError Unit × FileStorage :=
  if b.inTransaction then (.ok (), ⟨b.connection.commit, false, by cases b.connection <;> rfl⟩)
  else (.error .noTransaction, b)

def rollback (b : FileStorage) : Except StoreError Unit × FileStorage :=
  if b.inTransaction then (.ok (), ⟨b.connection.rollback, false, by cases b.connection <;> rfl⟩)
  else (.error .noTransaction, b)

end FileStorage

instance : Storage FileStorage where
  entries b := b.connection.entries
  put b k v := b.write (·.put k v)
  erase b k := b.write (·.erase k)
  begin := FileStorage.begin
  commit := FileStorage.commit
  rollback := FileStorage.rollback

/-! ## Storage that does what a database does -/

/-- Seen as a database, the storage does in every operation what the database does, and what fails to begin is left
alone. -/
class FaithfulStorage (β : Type) extends Storage β where
  database : β → Database
  entries_database : ∀ b, entries b = (database b).entries
  put_database : ∀ b k v, database (put b k v) = Storage.put (database b) k v
  erase_database : ∀ b k, database (erase b k) = Storage.erase (database b) k
  begin_database : ∀ b, ((begin b).1, database (begin b).2) = Storage.begin (database b)
  commit_database : ∀ b, ((commit b).1, database (commit b).2) = Storage.commit (database b)
  rollback_database : ∀ b, ((rollback b).1, database (rollback b).2) = Storage.rollback (database b)
  begin_unchanged : ∀ b e, (begin b).1 = .error e → (begin b).2 = b

instance : FaithfulStorage Database where
  database d := d
  entries_database _ := rfl
  put_database _ _ _ := rfl
  erase_database _ _ := rfl
  begin_database _ := rfl
  commit_database _ := rfl
  rollback_database _ := rfl
  begin_unchanged d e h := by
    change (d.after d.begin).1 = .error e at h
    change (d.after d.begin).2 = d
    cases hbegin : d.begin with
    | ok opened =>
      rw [hbegin] at h
      cases h
    | error e => rfl

def FileStorage.database (b : FileStorage) : Database :=
  match b.connection with
  | .idle file => ⟨file, none⟩
  | .busy file working => ⟨working, some file⟩

instance : FaithfulStorage FileStorage where
  database := FileStorage.database
  entries_database b := by
    obtain ⟨connection, inTransaction, agrees⟩ := b
    cases connection <;> rfl
  put_database b k v := by
    obtain ⟨connection, inTransaction, agrees⟩ := b
    cases connection <;> rfl
  erase_database b k := by
    obtain ⟨connection, inTransaction, agrees⟩ := b
    cases connection <;> rfl
  begin_database b := by
    obtain ⟨connection, inTransaction, rfl⟩ := b
    cases connection <;> rfl
  commit_database b := by
    obtain ⟨connection, inTransaction, rfl⟩ := b
    cases connection <;> rfl
  rollback_database b := by
    obtain ⟨connection, inTransaction, rfl⟩ := b
    cases connection <;> rfl
  begin_unchanged b e h := by
    obtain ⟨connection, inTransaction, rfl⟩ := b
    cases connection with
    | idle file => cases h
    | busy file working => rfl

/-! ## What requests do to storage -/

namespace FaithfulStorage

variable {β : Type} [FaithfulStorage β]

def isOpen (b : β) : Bool := (database b).saved.isSome

theorem isOpen_file (b : FileStorage) : isOpen b = b.inTransaction := by
  obtain ⟨connection, inTransaction, rfl⟩ := b
  cases connection <;> rfl

/-- What was done gives this result and leaves these entries; an open transaction stays open. -/
structure Leaves {α : Type} (b : β) (got : Except StoreError α × β) (expected : Except StoreError α × Entries) : Prop where
  result : got.1 = expected.1
  database : FaithfulStorage.database got.2 = { FaithfulStorage.database b with entries := expected.2 }

theorem Leaves.entries {α : Type} {b : β} {got : Except StoreError α × β} {expected : Except StoreError α × Entries}
    (h : Leaves b got expected) : Storage.entries got.2 = expected.2 := by
  rw [entries_database, h.database]

theorem leaves_unchanged {α : Type} (b : β) (result : Except StoreError α) :
    Leaves b (result, b) (result, Storage.entries b) where
  result := rfl
  database := by rw [entries_database]

theorem database_save (b : β) (r : Credential) :
    database (Storage.save b r) = { database b with entries := (Storage.entries b).save r } := by
  rw [Storage.save, put_database, entries_database]
  rfl

theorem entries_save (b : β) (r : Credential) : Storage.entries (Storage.save b r) = (Storage.entries b).save r := by
  rw [entries_database, database_save]

theorem leaves_update (b : β) (port2 : Int32) (change : Credential → Credential) :
    Leaves b (Storage.update b port2 change)
      (Request.answerOne (Storage.entries b) ((Storage.entries b).update port2 change)) := by
  unfold Storage.update Entries.update
  cases (Storage.entries b).fetch? port2 with
  | none => exact leaves_unchanged b _
  | some r => exact ⟨rfl, database_save b (change r)⟩

theorem leaves_add (b : β) (r : Credential) :
    Leaves b (Storage.add b r) (Request.answerOne (Storage.entries b) ((Storage.entries b).create r)) := by
  unfold Storage.add Entries.create
  cases (Storage.entries b).get? (portKey r.port2) with
  | some _ => exact leaves_unchanged b _
  | none => exact ⟨rfl, database_save b r⟩

theorem leaves_remove (b : β) (port2 : Int32) :
    Leaves b (Storage.remove b port2)
      (Request.answerOne (Storage.entries b) ((Storage.entries b).remove port2)) := by
  unfold Storage.remove Entries.remove
  cases (Storage.entries b).fetch? port2 with
  | none => exact leaves_unchanged b _
  | some r =>
    refine ⟨rfl, ?_⟩
    rw [erase_database, entries_database]
    rfl

/-- A conversion that fails leaves what it has written before. -/
theorem leaves_convertKeys (keys : List Bytes) (b : β) :
    Leaves b (Storage.convertKeys keys b) (Entries.convertKeys keys (Storage.entries b)) := by
  induction keys generalizing b with
  | nil => exact leaves_unchanged b _
  | cons key rest ih =>
    unfold Storage.convertKeys Entries.convertKeys
    cases (Storage.entries b).legacy? key with
    | none => exact ih b
    | some found =>
      obtain ⟨port2, data⟩ := found
      simp only
      cases Credential.ofLegacy port2 data with
      | error reason => exact leaves_unchanged b _
      | ok r =>
        have hrest := ih (Storage.save b r)
        rw [entries_save] at hrest
        refine ⟨congrArg (Except.map (r :: ·)) hrest.result, ?_⟩
        have hdatabase := hrest.database
        rw [database_save] at hdatabase
        exact hdatabase

theorem leaves_perform (b : β) (request : Request) :
    Leaves b (Storage.perform b request) (request.perform (Storage.entries b)) := by
  cases request with
  | get | list => exact leaves_unchanged b _
  | add port1 port2 name passphrase => exact leaves_add b _
  | remove port2 => exact leaves_remove b port2
  | convertLegacy =>
    have hconverted := leaves_convertKeys (Storage.entries b).keys b
    exact ⟨congrArg (Except.map Reply.records) hconverted.result, hconverted.database⟩
  | _ => exact leaves_update b _ _

theorem leaves_performEach (s : Scope β) (requests : List Request) :
    (s.performEach requests).1 = (Request.performEach (Storage.entries s.storage) requests).1 ∧
      database (s.performEach requests).2.storage =
        { database s.storage with entries := (Request.performEach (Storage.entries s.storage) requests).2 } ∧
      (s.performEach requests).2.finished = s.finished := by
  induction requests generalizing s with
  | nil =>
    refine ⟨rfl, ?_, rfl⟩
    rw [Request.performEach, entries_database]
    rfl
  | cons request rest ih =>
    have hfirst := leaves_perform s.storage request
    obtain ⟨hreplies, hdatabase, hfinished⟩ := ih (s.perform request).2
    have hentries : Storage.entries (s.perform request).2.storage = (request.perform (Storage.entries s.storage)).2 :=
      hfirst.entries
    have hstored : database (s.perform request).2.storage =
        { database s.storage with entries := (request.perform (Storage.entries s.storage)).2 } := hfirst.database
    rw [hentries] at hreplies hdatabase
    rw [hstored] at hdatabase
    exact ⟨congr (congrArg List.cons hfirst.result) hreplies, hdatabase, hfinished⟩

/-! ## All or nothing -/

theorem isOpen_begin {b : β} (h : isOpen b = true) : Storage.begin b = (.error .transactionActive, b) := by
  have hbegin := begin_database b
  obtain ⟨before, hbefore⟩ := Option.isSome_iff_exists.mp h
  have hrefused : Storage.begin (database b) = (.error .transactionActive, database b) := by
    change (database b).after (database b).begin = _
    rw [Database.begin, hbefore]
    rfl
  rw [hrefused] at hbegin
  have hresult : (Storage.begin b).1 = .error .transactionActive := congrArg Prod.fst hbegin
  exact Prod.ext hresult (begin_unchanged b _ hresult)

theorem begin_of_not_isOpen {b : β} (h : isOpen b = false) :
    ∃ opened : β, Storage.begin b = (.ok (), opened) ∧ database opened = ⟨Storage.entries b, some (Storage.entries b)⟩ := by
  have hbegin := begin_database b
  have hidle : (database b).saved = none := Option.not_isSome_iff_eq_none.mp (by rw [isOpen] at h; simp [h])
  have hopened : Storage.begin (database b) =
      (.ok (), ⟨Storage.entries b, some (Storage.entries b)⟩) := by
    change (database b).after (database b).begin = _
    rw [Database.begin, hidle, entries_database]
    rfl
  rw [hopened] at hbegin
  have hresult : (Storage.begin b).1 = .ok () := congrArg Prod.fst hbegin
  exact ⟨(Storage.begin b).2, Prod.ext hresult rfl, congrArg Prod.snd hbegin⟩

theorem inScope_of_isOpen {b : β} (h : isOpen b = true) (requests : List Request) (ending : Ending) :
    Storage.inScope b requests ending = (.error .transactionActive, b) := by
  rw [Storage.inScope, isOpen_begin h]

/-- An open transaction ends in both ways, and only a commit leaves what it has written. -/
theorem leave_finish {b : β} {before : Entries} (h : (database b).saved = some before) (ending : Ending) :
    ((⟨b, false⟩ : Scope β).finish ending).1 = .ok () ∧
      database ((⟨b, false⟩ : Scope β).finish ending).2.leave =
        ⟨if ending = .commit then Storage.entries b else before, none⟩ := by
  have hrolled : Storage.rollback (database b) = (.ok (), ⟨before, none⟩) := by
    change (database b).after (database b).rollback = _
    rw [Database.rollback, h]
    rfl
  have hcommitted : Storage.commit (database b) = (.ok (), ⟨Storage.entries b, none⟩) := by
    change (database b).after (database b).commit = _
    rw [Database.commit, h, entries_database]
    rfl
  have hrollback := rollback_database b
  have hcommit := commit_database b
  rw [hrolled] at hrollback
  rw [hcommitted] at hcommit
  cases ending with
  | commit => exact ⟨congrArg Prod.fst hcommit, congrArg Prod.snd hcommit⟩
  | cancel => exact ⟨congrArg Prod.fst hrollback, congrArg Prod.snd hrollback⟩
  | drop => exact ⟨rfl, congrArg Prod.snd hrollback⟩

/-- A scope on storage without an open transaction gives the answers that the entries give. -/
theorem inScope_of_not_isOpen {b : β} (h : isOpen b = false) (requests : List Request) (ending : Ending) :
    (Storage.inScope b requests ending).1 = .ok ((Request.performEach (Storage.entries b) requests).1, .ok ()) ∧
      database (Storage.inScope b requests ending).2 =
        ⟨if ending = .commit then (Request.performEach (Storage.entries b) requests).2 else Storage.entries b, none⟩ := by
  obtain ⟨opened, hbegin, hopened⟩ := begin_of_not_isOpen h
  have hentries : Storage.entries opened = Storage.entries b := by rw [entries_database, hopened]
  obtain ⟨hreplies, hdatabase, hfinished⟩ := leaves_performEach (⟨opened, false⟩ : Scope β) requests
  let last := ((⟨opened, false⟩ : Scope β).performEach requests).2
  have hlast : last = ⟨last.storage, false⟩ := congrArg (Scope.mk last.storage) hfinished
  rw [hentries] at hreplies hdatabase
  rw [hopened] at hdatabase
  have hseen : Storage.entries last.storage = (Request.performEach (Storage.entries b) requests).2 := by
    rw [entries_database, hdatabase]
  have hkept : (database last.storage).saved = some (Storage.entries b) := by rw [hdatabase]
  obtain ⟨hresult, hleft⟩ := leave_finish hkept ending
  rw [← hlast] at hresult hleft
  rw [hseen] at hleft
  have hscope : Storage.inScope b requests ending =
      (.ok (((⟨opened, false⟩ : Scope β).performEach requests).1, (last.finish ending).1),
        (last.finish ending).2.leave) := by
    rw [Storage.inScope, hbegin]
  rw [hscope, hreplies, hresult]
  exact ⟨rfl, hleft⟩

theorem performEach_snoc (e : Entries) (requests : List Request) (last : Request) :
    Request.performEach e (requests ++ [last]) =
      ((Request.performEach e requests).1 ++ [(last.perform (Request.performEach e requests).2).1],
        (last.perform (Request.performEach e requests).2).2) := by
  induction requests generalizing e with
  | nil => rfl
  | cons request rest ih =>
    simp only [List.cons_append, Request.performEach, ih]

/-- Only with an open transaction does a scope fail, and then it changes nothing.  Otherwise it answers every request,
whether others fail or not, and ends with no transaction open.  Behind a commit the storage holds what the requests have
written, so that reads at the end have shown what it holds then; behind a cancellation or without an ending it holds
what it held before. -/
theorem all_or_nothing (b : β) (requests : List Request) (ending : Ending) :
    (isOpen b = true → Storage.inScope b requests ending = (.error .transactionActive, b)) ∧
    (isOpen b = false →
      (Storage.inScope b requests ending).1 = .ok ((Request.performEach (Storage.entries b) requests).1, .ok ()) ∧
      isOpen (Storage.inScope b requests ending).2 = false ∧
      Storage.entries (Storage.inScope b requests ending).2 =
        (if ending = .commit then (Request.performEach (Storage.entries b) requests).2 else Storage.entries b) ∧
      ∀ read, ((∃ port2, read = .get port2) ∨ read = .list) →
        Storage.entries (Storage.inScope b (requests ++ [read]) .commit).2 =
            Storage.entries (Storage.inScope b requests .commit).2 ∧
          (Storage.inScope b (requests ++ [read]) .commit).1 =
            .ok ((Request.performEach (Storage.entries b) requests).1 ++
              [(read.perform (Storage.entries (Storage.inScope b requests .commit).2)).1], .ok ())) := by
  constructor
  · intro hopen
    exact inScope_of_isOpen hopen requests ending
  · intro hidle
    have hcommitted (requests : List Request) : Storage.entries (Storage.inScope b requests .commit).2 =
        (Request.performEach (Storage.entries b) requests).2 := by
      rw [entries_database, (inScope_of_not_isOpen hidle requests .commit).2]
      rfl
    obtain ⟨hresult, hdatabase⟩ := inScope_of_not_isOpen hidle requests ending
    refine ⟨hresult, ?_, ?_, ?_⟩
    · rw [isOpen, hdatabase]
      rfl
    · rw [entries_database, hdatabase]
    · intro read hread
      have hunchanged (e : Entries) : (read.perform e).2 = e := by
        rcases hread with ⟨port2, rfl⟩ | rfl
        · rfl
        · rfl
      rw [hcommitted, hcommitted, (inScope_of_not_isOpen hidle (requests ++ [read]) .commit).1, performEach_snoc,
        hunchanged]
      exact ⟨rfl, rfl⟩

end FaithfulStorage

/-! ## The same in one step -/

theorem Database.finish_of_busy {d : Database} {before : Entries} (h : d.saved = some before) (ending : Ending) :
    d.finish ending = .ok ⟨if ending = .commit then d.entries else before, none⟩ := by
  obtain ⟨entries, saved⟩ := d
  subst h
  cases ending <;> rfl

theorem Database.inScope_eq_transact (d : Database) (requests : List Request) (ending : Ending) :
    Storage.inScope d requests ending =
      match d.transact requests ending with
      | .error e => (.error e, d)
      | .ok (replies, closed) => (.ok (replies, .ok ()), closed) := by
  cases hsaved : d.saved with
  | some before =>
    have hopen : FaithfulStorage.isOpen d = true := Option.isSome_iff_exists.mpr ⟨before, hsaved⟩
    have hrefused : d.transact requests ending = .error .transactionActive := by
      rw [transact, begin, hsaved]
      rfl
    rw [hrefused]
    exact FaithfulStorage.inScope_of_isOpen hopen requests ending
  | none =>
    have hidle : FaithfulStorage.isOpen d = false := congrArg Option.isSome hsaved
    obtain ⟨hresult, hdatabase⟩ := FaithfulStorage.inScope_of_not_isOpen hidle requests ending
    have hdone : d.transact requests ending =
        .ok ((Request.performEach d.entries requests).1,
          ⟨if ending = .commit then (Request.performEach d.entries requests).2 else d.entries, none⟩) := by
      rw [transact, begin, hsaved]
      change (do
        let closed ← Database.finish ⟨(Request.performEach d.entries requests).2, some d.entries⟩ ending
        return ((Request.performEach d.entries requests).1, closed)) = _
      rw [finish_of_busy rfl]
      rfl
    rw [hdone]
    exact Prod.ext hresult hdatabase

/-- A single write is committed if it succeeds, and its scope is left without an ending if it fails. -/
theorem Database.inScope_eq_attempt {d : Database} (h : d.saved = none) (request : Request) :
    Storage.inScope d [request] (if (request.perform d.entries).1.isOk then .commit else .drop) =
      (.ok ([(d.attempt request).1], .ok ()), (d.attempt request).2) := by
  have hidle : FaithfulStorage.isOpen d = false := congrArg Option.isSome h
  have hone : Request.performEach d.entries [request] =
      ([(request.perform d.entries).1], (request.perform d.entries).2) := rfl
  have hsame : d = ⟨d.entries, none⟩ := congrArg (Database.mk d.entries) h
  rw [attempt_of_idle h]
  rcases hperform : request.perform d.entries with ⟨e | reply, after⟩
  · obtain ⟨hresult, hdatabase⟩ := FaithfulStorage.inScope_of_not_isOpen hidle [request] .drop
    rw [hperform] at hone
    exact Prod.ext (hresult.trans (congrArg (fun done => Except.ok (done.1, Except.ok ())) hone))
      (hdatabase.trans hsame.symm)
  · obtain ⟨hresult, hdatabase⟩ := FaithfulStorage.inScope_of_not_isOpen hidle [request] .commit
    rw [hperform] at hone
    exact Prod.ext (hresult.trans (congrArg (fun done => Except.ok (done.1, Except.ok ())) hone))
      (hdatabase.trans (congrArg (fun done => Database.mk done.2 none) hone))

/-! ## A conversion that fails midway -/

def legacyData : Bytes := Bytes.ofNat 8 recordMagic.toNat ++ List.replicate 40 0

def halfLegacy : Entries := (Entries.empty.put (portKey 0) legacyData).put (portKey Int32.minValue) legacyData

def halfLegacyFile : FileStorage := ⟨.idle halfLegacy, false, rfl⟩

/-- The conversion has changed the first record when it fails, and nothing of that is left. -/
theorem all_or_nothing_halfLegacy :
    (Request.performEach halfLegacy [.convertLegacy]).2 ≠ halfLegacy ∧
    (Storage.inScope halfLegacyFile [.convertLegacy] .drop).1 =
      .ok ([.error (.corruptRecord Int32.minValue (.legacyPortOutOfRange Int32.minValue))], .ok ()) ∧
    Storage.entries (Storage.inScope halfLegacyFile [.convertLegacy] .drop).2 = halfLegacy ∧
    Storage.inScope (Storage.begin halfLegacyFile).2 [.convertLegacy] .drop =
      (.error .transactionActive, (Storage.begin halfLegacyFile).2) := by
  obtain ⟨_, hidle⟩ := FaithfulStorage.all_or_nothing halfLegacyFile [.convertLegacy] .drop
  obtain ⟨hopen, _⟩ := FaithfulStorage.all_or_nothing (Storage.begin halfLegacyFile).2 [.convertLegacy] .drop
  obtain ⟨hresult, _, hentries, _⟩ := hidle rfl
  have hreplies : (Request.performEach halfLegacy [.convertLegacy]).1 =
      [.error (.corruptRecord Int32.minValue (.legacyPortOutOfRange Int32.minValue))] := by
    decide +kernel
  refine ⟨by decide +kernel, ?_, hentries, hopen rfl⟩
  exact hresult.trans (congrArg (fun replies => Except.ok (replies, Except.ok ())) hreplies)

end GatedRelay
