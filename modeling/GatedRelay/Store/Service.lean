import GatedRelay.Store.Request

/-!
# The store service

One worker owns the database and serves commands in order, each write in a transaction of its own.  Some writes are
posted without waiting for an answer.  A worker that has stopped answers nothing and loses what is posted.
-/

set_option autoImplicit false

namespace GatedRelay

structure Service where
  database : Database := {}
  running : Bool := true

namespace Service

def load (s : Service) (port2 : Int32) : Except StoreError (Option Credential) :=
  if s.running then .ok (s.database.entries.fetch? port2) else .error .workerGone

def loadAll (s : Service) : Except StoreError (List Credential) :=
  if s.running then .ok s.database.entries.listing else .error .workerGone

def write (s : Service) (request : Request) : Except StoreError Reply × Service :=
  if s.running then
    let (reply, after) := s.database.attempt request
    (reply, { s with database := after })
  else (.error .workerGone, s)

/-- Write without waiting.  What goes wrong changes nothing. -/
def post (s : Service) (request : Request) : Service := (s.write request).2

def quit (s : Service) : Service := { s with running := false }

def outside (s : Service) (change : Entries → Entries) : Service :=
  { s with database := { s.database with entries := change s.database.entries } }

end Service

end GatedRelay
