import GatedRelay.Relay.Basic
import GatedRelay.Identity

/-!
# Starting a relay

At the start every usable record must get its pair: the first that does not ends the attempt, and nothing stays open.
The identity for encrypted connections is read before any socket is bound.
-/

set_option autoImplicit false

namespace GatedRelay

inductive StartError where
  | identity (e : IdentityError)
  | store (e : StoreError)
  | socket (e : BindError)
  deriving DecidableEq

def StartError.message : StartError → String
  | identity e => e.message
  | store _ => "failed to read key database"
  | socket e => e.message

namespace Relay

/-- Give up what has been opened.  The journal stays. -/
def abandon (r : Relay) : Relay := { r with pairs := [], bound := [] }

/-- Start a relay on a store while others hold some sockets.  With an error it holds nothing. -/
def start (config : RelayConfig) (identity : Except IdentityError (Option Identity)) (store : Service)
    (taken : List Socket) : Relay × Option StartError :=
  match identity with
  | .error e => ({ config := config, store := store : Relay }.log .opening, some (.identity e))
  | .ok identity =>
    let r := { config := { config with secure := identity.isSome }, store := store : Relay }.log .opening
    match store.loadAll with
    | .error e => (r, some (.store e))
    | .ok records =>
      match r.openAll taken records with
      | (r, some e) => (r.abandon, some (.socket e))
      | (r, none) => (r.log (.pairsAdded r.pairs.length), none)

end Relay

end GatedRelay
