import GatedRelay.Frame.Checksum

/-!
# What a checksum tells

The share of a byte in the register can be undone, so two seeds give the same text different checksums
(`seeded_injective`), and the seed that a frame was built with is found again (`recoverSeed_seeded`).  Every byte moves
the high byte of the register to the low one and leaves its own trace in the high byte, so that nothing is lost of a
register, and two bytes in a row can be told from the register that they lead to (`eq_of_foldl_step`).
-/

set_option autoImplicit false

namespace GatedRelay.Checksum

/-- The byte that a share comes from, read off the high byte of the share. -/
def gather (share : UInt16) : UInt8 :=
  let high := (share >>> 8).toUInt8
  let y := high ^^^ (high >>> 5)
  y ^^^ (y <<< 4)

theorem gather_spread_ofNat : ∀ n < 256, gather (spread (UInt8.ofNat n)) = UInt8.ofNat n := by decide +kernel

theorem gather_spread (x : UInt8) : gather (spread x) = x := by
  have h := gather_spread_ofNat x.toNat x.toNat_lt
  rwa [UInt8.ofNat_toNat] at h

theorem shiftRight_shiftRight (register : UInt16) : register >>> 8 >>> 8 = 0 := by
  have hlt := register.toNat_lt
  apply UInt16.toNat_inj.mp
  simp [UInt16.toNat_shiftRight, Nat.shiftRight_eq_div_pow]
  omega

theorem shiftRight_step (register : UInt16) (b : UInt8) :
    step register b >>> 8 = spread (b ^^^ register.toUInt8) >>> 8 := by
  rw [step, UInt16.shiftRight_xor, shiftRight_shiftRight, UInt16.zero_xor]

/-- The high byte of the register tells what the last byte and the low byte before it came to. -/
theorem gather_step (register : UInt16) (b : UInt8) : gather (step register b) = b ^^^ register.toUInt8 := by
  rw [gather, shiftRight_step]
  exact gather_spread (b ^^^ register.toUInt8)

theorem step_injective (register : UInt16) : Function.Injective (step register) := by
  intro a b h
  have hbytes := congrArg gather h
  rw [gather_step, gather_step] at hbytes
  simpa using hbytes

theorem shiftRight_of_step {register register' : UInt16} {a b : UInt8} (h : step register a = step register' b) :
    register >>> 8 = register' >>> 8 := by
  have hbytes := congrArg gather h
  rw [gather_step, gather_step] at hbytes
  simpa [step, hbytes] using h

theorem eq_of_halves {register register' : UInt16} (hlow : register.toUInt8 = register'.toUInt8)
    (hhigh : register >>> 8 = register' >>> 8) : register = register' := by
  have hmod := congrArg UInt8.toNat hlow
  have hdiv := congrArg UInt16.toNat hhigh
  apply UInt16.toNat_inj.mp
  simp [UInt16.toNat_shiftRight, Nat.shiftRight_eq_div_pow] at hmod hdiv
  omega

theorem step_injective_register (b : UInt8) : Function.Injective (step · b) := by
  intro register register' h
  have hbytes := congrArg gather h
  simp only [gather_step] at hbytes
  exact eq_of_halves (by simpa using hbytes) (shiftRight_of_step h)

theorem foldl_step_injective (text : Bytes) : Function.Injective fun register => text.foldl step register := by
  induction text with
  | nil => exact Function.injective_id
  | cons b rest ih => exact ih.comp (step_injective_register b)

/-- The second step leaves the trace of the first byte in the register, half of it unmixed. -/
theorem eq_of_step_step {register : UInt16} {a a' b b' : UInt8}
    (h : step (step register a) a' = step (step register b) b') : a = b ∧ a' = b' := by
  have hhigh := shiftRight_of_step h
  have hfirst : gather (step register a) = gather (step register b) := by simp only [gather, hhigh]
  rw [gather_step, gather_step] at hfirst
  obtain rfl : a = b := by simpa using hfirst
  exact ⟨rfl, step_injective _ h⟩

theorem eq_of_foldl_step {register : UInt16} {x y : Bytes} (hlength : x.length = y.length) (hle : x.length ≤ 2)
    (h : x.foldl step register = y.foldl step register) : x = y := by
  match x, y, hlength, hle with
  | [], [], _, _ => rfl
  | [a], [b], _, _ => rw [step_injective register h]
  | [a, a'], [b, b'], _, _ =>
    obtain ⟨rfl, rfl⟩ := eq_of_step_step h
    rfl

theorem seeded_injective (text : Bytes) : Function.Injective (seeded text) := step_injective (x25 text)

theorem recoverSeed_seeded {msgId : Nat} {seed : UInt8} (h : seed ∈ seedsFor msgId) (text : Bytes) :
    recoverSeed msgId text (seeded text seed) = some seed := by
  cases hfound : recoverSeed msgId text (seeded text seed) with
  | none =>
    have hnone := List.find?_eq_none.mp hfound seed h
    simp [seeded] at hnone
  | some found =>
    rw [seeded_injective text (seeded_of_recoverSeed hfound)]

end GatedRelay.Checksum
