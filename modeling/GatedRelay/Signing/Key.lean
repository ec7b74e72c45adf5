import GatedRelay.Record.Basic
import GatedRelay.Frame.Basic

/-!
# Signing keys

A key is a secret with a clock, in units of ten microseconds.  The clock is the replay horizon of a pair: it starts
ahead of the stored timestamp, follows accepted frames and the time of day, and never moves back.  Every frame signed
with the key takes a tick of its own.
-/

set_option autoImplicit false

namespace GatedRelay

namespace Clock

/-- The sum, or the last value that a clock can show. -/
def add (clock : UInt64) (n : Nat) : UInt64 := UInt64.ofNat (min (clock.toNat + n) (UInt64.size - 1))

theorem toNat_add (clock : UInt64) (n : Nat) : (add clock n).toNat = min (clock.toNat + n) (UInt64.size - 1) := by
  rw [add, UInt64.toNat_ofNat_of_lt']
  have h := Nat.min_le_right (clock.toNat + n) (UInt64.size - 1)
  have h' : UInt64.size - 1 < UInt64.size := by decide
  exact Nat.lt_of_le_of_lt h h'

theorem le_add (clock : UInt64) (n : Nat) : clock ≤ add clock n := by
  rw [UInt64.le_iff_toNat_le, toNat_add]
  exact Nat.le_min.mpr ⟨Nat.le_add_right _ _, Nat.le_sub_one_of_lt clock.toNat_lt_size⟩

def later (a b : UInt64) : UInt64 := if a ≤ b then b else a

theorem toNat_later (a b : UInt64) : (later a b).toNat = max a.toNat b.toNat := by
  unfold later
  split
  · rename_i h
    rw [UInt64.le_iff_toNat_le] at h
    exact (Nat.max_eq_right h).symm
  · rename_i h
    rw [UInt64.le_iff_toNat_le] at h
    omega

end Clock

structure SigningKey where
  secret : Secret
  clock : UInt64
  deriving DecidableEq

namespace SigningKey

/-- Ticks between the stored timestamp and the clock of a loaded key: 15 seconds, for what was accepted but not stored
before a restart. -/
def loadOffset : Nat := 1_500_000

def outgoingLink : UInt8 := 0

def load (secret : Secret) (stored : UInt64) : SigningKey := ⟨secret, Clock.add stored loadOffset⟩

/-- A record with neither a secret nor a timestamp has never been set up. -/
def ofCredential? (r : Credential) : Option SigningKey :=
  if r.secret.isSet = false ∧ r.timestamp = 0 then none else some (load r.secret r.timestamp)

def observe (k : SigningKey) (timestamp : UInt64) : SigningKey := { k with clock := Clock.later k.clock timestamp }

/-- Sign a frame for delivery, with the next tick.  The tick is taken even if the frame cannot carry a signature. -/
def sign (k : SigningKey) (f : Frame) : SigningKey × Option Frame :=
  let clock := Clock.add k.clock 1
  ({ k with clock := clock }, f.signedWith ⟨k.secret, outgoingLink, clock⟩)

def describe (k : SigningKey) : String := s!"SigningKey \x7b timestamp: {k.clock.toNat}, .. \x7d"

theorem clock_observe (k : SigningKey) (t : UInt64) : (k.observe t).clock.toNat = max k.clock.toNat t.toNat :=
  Clock.toNat_later _ _

theorem clock_sign (k : SigningKey) (f : Frame) :
    (k.sign f).1.clock.toNat = min (k.clock.toNat + 1) (UInt64.size - 1) := Clock.toNat_add _ _

end SigningKey

end GatedRelay
