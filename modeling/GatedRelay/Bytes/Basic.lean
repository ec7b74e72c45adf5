/-!
# Byte strings, words and blocks

Bytes are lists in wire order.  A number is written on exactly `w` bytes, least significant first; reading undoes
writing up to the width (`toNat_ofNat`) and writing undoes reading (`ofNat_toNat`).  A block is a byte string whose
width is part of its type.
-/

set_option autoImplicit false

namespace GatedRelay

abbrev Bytes := List UInt8

namespace Bytes

/-- The `w` low bytes of a number, least significant first. -/
def ofNat : Nat → Nat → Bytes
  | 0, _ => []
  | w + 1, n => UInt8.ofNat n :: ofNat w (n / 256)

def toNat : Bytes → Nat
  | [] => 0
  | b :: rest => b.toNat + 256 * toNat rest

@[simp] theorem length_ofNat (w n : Nat) : (ofNat w n).length = w := by
  induction w generalizing n with
  | zero => rfl
  | succ w ih => simp [ofNat, ih]

theorem one_shiftLeft_succ (w : Nat) : 1 <<< (8 * (w + 1)) = 256 * 1 <<< (8 * w) := by
  rw [Nat.shiftLeft_eq, Nat.shiftLeft_eq, Nat.mul_succ, Nat.pow_add]
  omega

theorem toNat_ofNat (w n : Nat) : toNat (ofNat w n) = n % 1 <<< (8 * w) := by
  induction w generalizing n with
  | zero => simp [ofNat, toNat, Nat.mod_one]
  | succ w ih =>
    have hb : (UInt8.ofNat n).toNat = n % 256 := UInt8.toNat_ofNat'
    rw [ofNat, toNat, ih, hb, one_shiftLeft_succ, Nat.mod_mul]

theorem toNat_lt (b : Bytes) : toNat b < 1 <<< (8 * b.length) := by
  induction b with
  | nil => simp [toNat]
  | cons x rest ih =>
    have hx : x.toNat < 256 := x.toNat_lt
    rw [toNat, List.length_cons, one_shiftLeft_succ]
    omega

theorem ofNat_toNat (b : Bytes) : ofNat b.length (toNat b) = b := by
  induction b with
  | nil => rfl
  | cons x rest ih =>
    have hx : x.toNat < 256 := x.toNat_lt
    have hdiv : (x.toNat + 256 * toNat rest) / 256 = toNat rest := by omega
    simp only [toNat, List.length_cons, ofNat, hdiv, ih, List.cons.injEq, and_true]
    apply UInt8.toNat_inj.mp
    rw [UInt8.toNat_ofNat']
    omega

/-- Cut to `n` bytes, or filled up to `n` bytes with zeros. -/
def fit (n : Nat) (b : Bytes) : Bytes :=
  b.take n ++ List.replicate (n - b.length) 0

@[simp] theorem length_fit (n : Nat) (b : Bytes) : (b.fit n).length = n := by
  simp only [fit, List.length_append, List.length_take, List.length_replicate]
  omega

theorem fit_eq_self {n : Nat} {b : Bytes} (h : b.length = n) : b.fit n = b := by
  subst h
  simp [fit]

def field (b : Bytes) (offset n : Nat) : Bytes :=
  (b.drop offset).take n

end Bytes

@[ext] structure Block (n : Nat) where
  bytes : Bytes
  length_eq : bytes.length = n
  deriving DecidableEq

namespace Block

def ofBytes (n : Nat) (b : Bytes) : Block n := ⟨b.fit n, Bytes.length_fit n b⟩

def zero (n : Nat) : Block n := ⟨List.replicate n 0, List.length_replicate⟩

@[simp] theorem ofBytes_bytes {n : Nat} (x : Block n) : ofBytes n x.bytes = x := by
  ext1
  exact Bytes.fit_eq_self x.length_eq

instance {n : Nat} : Inhabited (Block n) := ⟨zero n⟩

end Block

end GatedRelay
