import GatedRelay.Store.Records
import GatedRelay.Signing.Key

/-!
# Requests to a store and transactions

A request reads records or changes them.  A failing request does not end its transaction, and only the conversion of
older records can fail after it has written something.
-/

set_option autoImplicit false

namespace GatedRelay

inductive Request where
  | get (port2 : Int32)
  | list
  | add (port1 port2 : Int32) (name passphrase : String)
  | remove (port2 : Int32)
  | setName (port2 : Int32) (name : String)
  | setPassphrase (port2 : Int32) (passphrase : String)
  | setPort1 (port2 port1 : Int32)
  | resetTimestamp (port2 : Int32)
  | recordSession (port2 : Int32) (count1 count2 : UInt32) (newConnection : Bool)
  | advanceTimestamp (port2 : Int32) (timestamp : UInt64)
  | setSigningKey (port2 : Int32) (secret : Secret) (timestamp : UInt64)
  | convertLegacy
  deriving DecidableEq

inductive Reply where
  | found (r : Option Credential)
  | record (r : Credential)
  | records (rs : List Credential)
  deriving DecidableEq

namespace Credential

/-- Add the tallies of a finished session.  Tallies wrap around. -/
def addSession (r : Credential) (count1 count2 : UInt32) (newConnection : Bool) : Credential :=
  { r with
    count1 := r.count1 + count1
    count2 := r.count2 + count2
    connections := if newConnection then r.connections + 1 else r.connections }

/-- Raise the timestamp; it is never lowered. -/
def advance (r : Credential) (timestamp : UInt64) : Credential :=
  { r with timestamp := Clock.later r.timestamp timestamp }

end Credential

namespace Request

def answerOne (e : Entries) : Except StoreError (Credential × Entries) → Except StoreError Reply × Entries
  | .ok (r, after) => (.ok (.record r), after)
  | .error err => (.error err, e)

def perform (e : Entries) : Request → Except StoreError Reply × Entries
  | get port2 => (.ok (.found (e.fetch? port2)), e)
  | list => (.ok (.records e.listing), e)
  | add port1 port2 name passphrase =>
    answerOne e (e.create ({ port2 := port2, port1 := port1, name := name : Credential }.withPassphrase passphrase))
  | remove port2 => answerOne e (e.remove port2)
  | setName port2 name => answerOne e (e.update port2 fun r => { r with name := name })
  | setPassphrase port2 passphrase => answerOne e (e.update port2 (·.withPassphrase passphrase))
  | setPort1 port2 port1 => answerOne e (e.update port2 fun r => { r with port1 := port1 })
  | resetTimestamp port2 => answerOne e (e.update port2 fun r => { r with timestamp := 0 })
  | recordSession port2 count1 count2 newConnection =>
    answerOne e (e.update port2 (·.addSession count1 count2 newConnection))
  | advanceTimestamp port2 timestamp => answerOne e (e.update port2 (·.advance timestamp))
  | setSigningKey port2 secret timestamp =>
    answerOne e (e.update port2 fun r => { r with secret := secret, timestamp := timestamp })
  | convertLegacy =>
    let (result, after) := e.convertLegacy
    (result.map .records, after)

def performEach (e : Entries) : List Request → List (Except StoreError Reply) × Entries
  | [] => ([], e)
  | request :: rest =>
    let (reply, after) := request.perform e
    let (replies, last) := performEach after rest
    (reply :: replies, last)

end Request

/-- How a transaction ends.  Dropping it rolls it back, as cancelling does. -/
inductive Ending where
  | commit
  | cancel
  | drop
  deriving DecidableEq

namespace Database

def finish (d : Database) : Ending → Except StoreError Database
  | .commit => d.commit
  | .cancel => d.rollback
  | .drop => d.rollback

/-- Run requests in a transaction of their own: their answers, and the database after it. -/
def transact (d : Database) (requests : List Request) (ending : Ending) :
    Except StoreError (List (Except StoreError Reply) × Database) := do
  let opened ← d.begin
  let (replies, after) := Request.performEach opened.entries requests
  let closed ← { opened with entries := after }.finish ending
  return (replies, closed)

/-- Run one request in a transaction that is committed if it succeeds and rolled back if it fails. -/
def attempt (d : Database) (request : Request) : Except StoreError Reply × Database :=
  match d.begin with
  | .error e => (.error e, d)
  | .ok opened =>
    match request.perform opened.entries with
    | (.error e, after) => (.error e, ({ opened with entries := after }.rollback).toOption.getD d)
    | (.ok reply, after) =>
      match { opened with entries := after }.commit with
      | .error e => (.error e, d)
      | .ok closed => (.ok reply, closed)

end Database

end GatedRelay
