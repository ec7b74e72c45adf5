import GatedRelay.Frame.Basic

/-!
# Verdicts and trust

A verdict is what the check of one frame says.  Trust is what the verdicts so far say about a peer: a good frame makes
it authenticated for as long as the key stays, and a rejected one counts against it only before that.
-/

set_option autoImplicit false

namespace GatedRelay

inductive Fault where
  | badSignature
  | replay
  | oldTimestamp
  deriving DecidableEq

inductive Verdict where
  | noKey
  | unsigned
  | rejected (fault : Fault)
  | good (timestamp : Stamp)
  deriving DecidableEq

namespace Verdict

def isGood : Verdict → Bool
  | good _ => true
  | _ => false

def isRejection : Verdict → Bool
  | rejected _ => true
  | _ => false

def notice? : Verdict → Option String
  | noKey => some "Need to setup support signing key"
  | unsigned => some "Need to use support signing key"
  | rejected .badSignature => some "Bad support signing key"
  | rejected .replay => some "Bad signing timestamp - replay"
  | rejected .oldTimestamp => some "Bad signing timestamp - old timestamp"
  | good _ => none

end Verdict

inductive Trust where
  | unauthenticated
  | badSignature
  | authenticated
  deriving DecidableEq, Inhabited

namespace Trust

/-- Trust is lost only when the gate is reset. -/
def after (t : Trust) : Verdict → Trust
  | .noKey => t
  | .unsigned => t
  | .rejected _ => if t = .authenticated then .authenticated else .badSignature
  | .good _ => .authenticated

theorem after_eq_authenticated_iff {t : Trust} {v : Verdict} :
    t.after v = .authenticated ↔ t = .authenticated ∨ v.isGood = true := by
  cases v <;> simp [after, Verdict.isGood]

end Trust

end GatedRelay
