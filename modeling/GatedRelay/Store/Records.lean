import GatedRelay.Store.Database

/-!
# Records in a store

A record is stored under the key of its engineer port.  A value of the wrong width or with the wrong magic number is
never given out as a record: looking it up finds nothing and listing passes over it, but it does take up its key.
Changing a record reads it, changes named fields and writes it back.
-/

set_option autoImplicit false

namespace GatedRelay.Entries

/-- The record of a port, if a well-formed one is stored. -/
def fetch? (e : Entries) (port2 : Int32) : Option Credential :=
  (e.get? (portKey port2)).bind fun data => (Credential.unpack port2 data).toOption

/-- All well-formed records, in the order of their keys. -/
def listing (e : Entries) : List Credential := e.keys.filterMap fun key => (portOfKey? key).bind e.fetch?

def save (e : Entries) (r : Credential) : Entries := e.put (portKey r.port2) r.pack

/-- The new record is given back with its name uncut. -/
def create (e : Entries) (r : Credential) : Except StoreError (Credential × Entries) :=
  match e.get? (portKey r.port2) with
  | some _ => .error (.alreadyExists r.port2)
  | none => .ok (r, e.save r)

def remove (e : Entries) (port2 : Int32) : Except StoreError (Credential × Entries) :=
  match e.fetch? port2 with
  | none => .error (.notFound port2)
  | some r => .ok (r, e.erase (portKey port2))

def update (e : Entries) (port2 : Int32) (change : Credential → Credential) :
    Except StoreError (Credential × Entries) :=
  match e.fetch? port2 with
  | none => .error (.notFound port2)
  | some r => .ok (change r, e.save (change r))

def legacy? (e : Entries) (key : Bytes) : Option (Int32 × Bytes) := do
  let port2 ← portOfKey? key
  let data ← e.get? key
  if data.length = Credential.legacyWidth ∧ Credential.magicOf data = recordMagic then some (port2, data) else none

/-- Upgrade the older records under these keys, in turn.  An error leaves what was upgraded before it. -/
def convertKeys : List Bytes → Entries → Except StoreError (List Credential) × Entries
  | [], e => (.ok [], e)
  | key :: rest, e =>
    match e.legacy? key with
    | none => convertKeys rest e
    | some (port2, data) =>
      match Credential.ofLegacy port2 data with
      | .error reason => (.error (.corruptRecord port2 reason), e)
      | .ok r =>
        let (converted, after) := convertKeys rest (e.save r)
        (converted.map (r :: ·), after)

def convertLegacy (e : Entries) : Except StoreError (List Credential) × Entries := convertKeys e.keys e

end GatedRelay.Entries
