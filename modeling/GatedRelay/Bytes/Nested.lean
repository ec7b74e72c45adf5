import GatedRelay.Bytes.Basic

/-!
# Nested binary data

An item is a tag, a length and as many bytes, which may be items again.  There is one way to write a length, the
shortest.  Lengths above two bytes are refused, and so are tags of more than one byte.  Reading undoes writing
(`item?_bytes_append`).
-/

set_option autoImplicit false

namespace GatedRelay.Nested

structure Item where
  tag : UInt8
  value : Bytes
  deriving DecidableEq

def truth : UInt8 := 0x01
def integer : UInt8 := 0x02
def bits : UInt8 := 0x03
def octets : UInt8 := 0x04
def name : UInt8 := 0x06
def sequence : UInt8 := 0x30

def part (n : UInt8) : UInt8 := 0xA0 + n

def length? : Bytes → Option (Nat × Bytes)
  | 0x81 :: n :: rest => if 0x80 ≤ n then some (n.toNat, rest) else none
  | 0x82 :: high :: low :: rest => if high = 0 then none else some (256 * high.toNat + low.toNat, rest)
  | n :: rest => if n < 0x80 then some (n.toNat, rest) else none
  | [] => none

theorem length_lt_of_length? {data rest : Bytes} {n : Nat} (h : length? data = some (n, rest)) :
    rest.length < data.length := by
  unfold length? at h
  split at h <;> simp_all
  all_goals omega

def lengthBytes (n : Nat) : Bytes :=
  if n < 0x80 then [UInt8.ofNat n]
  else if n < 0x100 then [0x81, UInt8.ofNat n]
  else [0x82, UInt8.ofNat (n / 0x100), UInt8.ofNat n]

theorem length?_lengthBytes_append {n : Nat} (h : n < 0x10000) (rest : Bytes) :
    length? (lengthBytes n ++ rest) = some (n, rest) := by
  unfold lengthBytes
  split
  · rename_i hn
    have hlt : UInt8.ofNat n < 0x80 := by
      rw [UInt8.lt_iff_toNat_lt, UInt8.toNat_ofNat']
      simp only [UInt8.reduceToNat]
      omega
    have hne (k : UInt8) (hk : 0x80 ≤ k) : UInt8.ofNat n ≠ k := by
      rintro rfl
      exact absurd hlt (UInt8.not_lt.mpr hk)
    simp only [List.singleton_append]
    rw [length?.eq_def]
    split
    · rename_i heq
      exact absurd (List.cons.inj heq).1 (hne _ (by decide))
    · rename_i heq
      exact absurd (List.cons.inj heq).1 (hne _ (by decide))
    · rename_i heq
      obtain ⟨rfl, rfl⟩ := List.cons.inj heq
      rw [if_pos hlt, UInt8.toNat_ofNat', Nat.mod_eq_of_lt (by omega)]
    · rename_i heq
      cases heq
  · split
    · rename_i hn hlt
      have hle : 0x80 ≤ UInt8.ofNat n := by
        rw [UInt8.le_iff_toNat_le, UInt8.toNat_ofNat']
        simp only [UInt8.reduceToNat]
        omega
      simp only [List.cons_append, List.nil_append, length?, if_pos hle, UInt8.toNat_ofNat']
      rw [Nat.mod_eq_of_lt (by omega)]
    · have hne : UInt8.ofNat (n / 0x100) ≠ 0 := by
        intro heq
        have := congrArg UInt8.toNat heq
        rw [UInt8.toNat_ofNat'] at this
        simp only [UInt8.toNat_zero] at this
        omega
      simp only [List.cons_append, List.nil_append, length?, if_neg hne, UInt8.toNat_ofNat', Option.some.injEq,
        Prod.mk.injEq, and_true]
      omega

def Item.bytes (i : Item) : Bytes := i.tag :: lengthBytes i.value.length ++ i.value

def item? : Bytes → Option (Item × Bytes)
  | [] => none
  | tag :: rest =>
    match length? rest with
    | none => none
    | some (n, body) =>
      if tag % 0x20 = 0x1F ∨ body.length < n then none else some (⟨tag, body.take n⟩, body.drop n)

theorem length_lt_of_item? {data rest : Bytes} {i : Item} (h : item? data = some (i, rest)) :
    rest.length < data.length := by
  cases data with
  | nil => simp [item?] at h
  | cons tag tail =>
    simp only [item?] at h
    split at h
    · cases h
    · rename_i n body hlength
      have hlt := length_lt_of_length? hlength
      split at h
      · cases h
      · cases h
        simp only [List.length_drop, List.length_cons]
        omega

theorem item?_bytes_append {i : Item} (htag : i.tag % 0x20 ≠ 0x1F) (hlength : i.value.length < 0x10000)
    (rest : Bytes) : item? (i.bytes ++ rest) = some (i, rest) := by
  have hbody : length? (lengthBytes i.value.length ++ (i.value ++ rest)) = some (i.value.length, i.value ++ rest) :=
    length?_lengthBytes_append hlength _
  simp only [Item.bytes, List.cons_append, List.append_assoc, item?, hbody]
  rw [if_neg (by simp [htag])]
  simp

def items? (data : Bytes) : Option (List Item) :=
  if data.isEmpty then some []
  else
    match _h : item? data with
    | none => none
    | some (i, rest) => (items? rest).map (i :: ·)
termination_by data.length
decreasing_by exact length_lt_of_item? _h

def Item.inside? (i : Item) (tag : UInt8) : Option (List Item) := if i.tag = tag then items? i.value else none

def only? (data : Bytes) : Option Item :=
  match items? data with
  | some [i] => some i
  | _ => none

def sequence? (data : Bytes) : Option (List Item) := (only? data).bind (·.inside? sequence)

/-- A number, most significant byte first.  The highest bit is a sign, which a zero byte in front keeps clear. -/
def Item.ofNatural (n : Nat) : Item := ⟨integer, (Bytes.ofNat ((n.log2 + 1) / 8 + 1) n).reverse⟩

/-- The number that an item holds, if it is not negative and is written without needless bytes. -/
def Item.natural? (i : Item) : Option Nat :=
  let n := Bytes.toNat i.value.reverse
  if i = ofNatural n then some n else none

example : (Item.ofNatural 0x80).bytes = [0x02, 0x02, 0x00, 0x80] ∧ (⟨integer, [0x80]⟩ : Item).natural? = none
    ∧ (⟨integer, [0x00, 0x7F]⟩ : Item).natural? = none ∧ (⟨integer, [0x00]⟩ : Item).natural? = some 0 := by
  decide

def Item.truth? (i : Item) : Option Bool :=
  if i = ⟨truth, [0xFF]⟩ then some true else if i = ⟨truth, [0x00]⟩ then some false else none

def Item.bits? (i : Item) (tag : UInt8) : Option Bytes :=
  match i.value with
  | 0 :: data => if i.tag = tag then some data else none
  | _ => none

def Item.ofBits (data : Bytes) : Item := ⟨bits, 0 :: data⟩

end GatedRelay.Nested
