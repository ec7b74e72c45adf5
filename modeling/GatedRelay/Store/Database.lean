import GatedRelay.Record.Codec
import GatedRelay.Store.Entries
import GatedRelay.Store.Locator

/-!
# Databases with one transaction at a time

While a transaction is open the entries from before it are kept.  Committing forgets them and rolling back returns to
them.  There is one level only: neither can happen without a transaction, and none can start inside another.
-/

set_option autoImplicit false

namespace GatedRelay

inductive FileFault where
  | malformed (e : LocatorError)
  | unopened (path : String)
  /-- The files that a database needs beside its own cannot be. -/
  | crippled
  | readOnly
  deriving DecidableEq

def FileFault.message : FileFault → String
  | malformed e => e.message
  | unopened path => s!"unable to open database file: {path}"
  | crippled => "unable to open database file"
  | readOnly => "attempt to write a readonly database"

inductive StoreError where
  | alreadyExists (port2 : Int32)
  | notFound (port2 : Int32)
  | corruptRecord (port2 : Int32) (reason : RecordError)
  | databaseMissing (path : String)
  | database (fault : FileFault)
  | transactionActive
  | noTransaction
  | workerGone
  deriving DecidableEq

def StoreError.message : StoreError → String
  | alreadyExists port2 => s!"Entry already exists for port2 {port2.toInt}"
  | notFound port2 => s!"No entry for port2 {port2.toInt}"
  | corruptRecord port2 reason => s!"corrupt record for port2 {port2.toInt}: {reason.message}"
  | databaseMissing path => s!"database not found: {path}"
  | database fault => s!"database error: {fault.message}"
  | transactionActive => "transaction already in progress"
  | noTransaction => "no transaction in progress"
  | workerGone => "store actor is not running"

structure Database where
  entries : Entries := .empty
  /-- The entries from before the open transaction. -/
  saved : Option Entries := none
  deriving DecidableEq

namespace Database

def begin (d : Database) : Except StoreError Database :=
  match d.saved with
  | some _ => .error .transactionActive
  | none => .ok { d with saved := some d.entries }

def commit (d : Database) : Except StoreError Database :=
  match d.saved with
  | some _ => .ok { d with saved := none }
  | none => .error .noTransaction

def rollback (d : Database) : Except StoreError Database :=
  match d.saved with
  | some before => .ok ⟨before, none⟩
  | none => .error .noTransaction

/-- Closing a database and opening it again loses an open transaction. -/
def reopen (d : Database) : Database := ⟨d.saved.getD d.entries, none⟩

end Database

end GatedRelay
