import GatedRelay.Proofs.Text.Utf8
import Mathlib.Data.List.TakeWhile

/-!
# Text that is cut at a byte

The bytes of a text may be cut anywhere.  What is read back is the longest beginning of the text that fits: at most one
character is split, and of a split character nothing is left where ill-formed pieces are skipped, and one mark where
they are shown.
-/

set_option autoImplicit false

namespace GatedRelay.Utf8

/-! ## Beginnings that fit -/

def fitting : Nat → List Char → List Char
  | _, [] => []
  | n, c :: cs =>
    let width := (String.utf8EncodeChar c).length
    if width ≤ n then c :: fitting (n - width) cs else []

theorem fitting_prefix (n : Nat) (cs : List Char) : fitting n cs <+: cs := by
  induction cs generalizing n with
  | nil => exact List.prefix_refl []
  | cons c cs ih =>
    simp only [fitting]
    split
    · exact List.cons_prefix_cons.mpr ⟨rfl, ih _⟩
    · exact List.nil_prefix

theorem length_fitting_le (n : Nat) (cs : List Char) :
    ((fitting n cs).flatMap String.utf8EncodeChar).length ≤ n := by
  induction cs generalizing n with
  | nil => exact Nat.zero_le n
  | cons c cs ih =>
    simp only [fitting]
    split
    · have hrest := ih (n - (String.utf8EncodeChar c).length)
      rw [List.flatMap_cons, List.length_append]
      omega
    · exact Nat.zero_le n

theorem prefix_fitting {n : Nat} {ds cs : List Char} (hfront : ds <+: cs)
    (hfits : (ds.flatMap String.utf8EncodeChar).length ≤ n) : ds <+: fitting n cs := by
  induction cs generalizing n ds with
  | nil =>
    rw [List.prefix_nil.mp hfront]
    exact List.nil_prefix
  | cons c cs ih =>
    cases ds with
    | nil => exact List.nil_prefix
    | cons d ds =>
      obtain ⟨rfl, hrest⟩ := List.cons_prefix_cons.mp hfront
      rw [List.flatMap_cons, List.length_append] at hfits
      simp only [fitting]
      rw [if_pos (by omega)]
      exact List.cons_prefix_cons.mpr ⟨rfl, ih hrest (by omega)⟩

theorem fitting_eq_self {n : Nat} {cs : List Char} (h : (cs.flatMap String.utf8EncodeChar).length ≤ n) :
    fitting n cs = cs := by
  have hwhole : cs <+: fitting n cs := prefix_fitting (List.prefix_refl cs) h
  have hfront : fitting n cs <+: cs := fitting_prefix n cs
  exact hfront.eq_of_length_le hwhole.length_le

structure IsLongest (n : Nat) (text kept : String) : Prop where
  front : kept.toList <+: text.toList
  fits : (encode kept).length ≤ n
  longest : ∀ part : String, part.toList <+: text.toList → (encode part).length ≤ n → part.toList <+: kept.toList

theorem isLongest_fitting (n : Nat) (cs : List Char) :
    IsLongest n (String.ofList cs) (String.ofList (fitting n cs)) where
  front := by
    rw [String.toList_ofList, String.toList_ofList]
    exact fitting_prefix n cs
  fits := by
    rw [encode_ofList]
    exact length_fitting_le n cs
  longest := by
    intro part hfront hfits
    rw [String.toList_ofList] at hfront ⊢
    exact prefix_fitting hfront hfits

/-! ## Split characters -/

theorem pieces_ne_nil (p : Pending) (b : Bytes) : pieces (some p) b ≠ [] := by
  induction b generalizing p with
  | nil => simp [pieces]
  | cons b rest ih =>
    cases hb : p.next b with
    | whole c => simp [pieces, hb, Step.pieces]
    | more q =>
      simp only [pieces, hb, Step.pieces]
      exact ih q
    | illFormed => simp [pieces, hb]

theorem pieces_none_ne_nil {b : Bytes} (h : b ≠ []) : pieces none b ≠ [] := by
  cases b with
  | nil => exact absurd rfl h
  | cons b rest =>
    cases hb : first b with
    | whole c => simp [pieces, hb, Step.pieces]
    | more p =>
      simp only [pieces, hb, Step.pieces]
      exact pieces_ne_nil p rest
    | illFormed => simp [pieces, hb, Step.pieces]

/-- The beginning of one character is one ill-formed piece. -/
theorem pieces_of_pending {p : Pending} {front tail : Bytes} {c : Char} (htail : tail ≠ [])
    (h : pieces (some p) (front ++ tail) = [some c]) : pieces (some p) front = [none] := by
  induction front generalizing p with
  | nil => rfl
  | cons b front ih =>
    -- A character that ends before the tail would leave pieces behind it.
    have hlast := pieces_none_ne_nil (List.append_ne_nil_of_right_ne_nil front htail)
    cases hb : p.next b with
    | whole d => simp [pieces, hb, Step.pieces, hlast] at h
    | more q =>
      simp only [List.cons_append, pieces, hb, Step.pieces] at h ⊢
      exact ih h
    | illFormed => simp [pieces, hb] at h

theorem pieces_of_split {b : UInt8} {front tail : Bytes} {c : Char} (htail : tail ≠ [])
    (h : pieces none (b :: front ++ tail) = [some c]) : pieces none (b :: front) = [none] := by
  have hlast := pieces_none_ne_nil (List.append_ne_nil_of_right_ne_nil front htail)
  cases hb : first b with
  | whole d => simp [pieces, hb, Step.pieces, hlast] at h
  | more p =>
    simp only [List.cons_append, pieces, hb, Step.pieces] at h ⊢
    exact pieces_of_pending htail h
  | illFormed => simp [pieces, hb, Step.pieces] at h

theorem pieces_take_encodeChar {n : Nat} {c : Char} (h : n < (String.utf8EncodeChar c).length) :
    pieces none ((String.utf8EncodeChar c).take n) = if n = 0 then [] else [none] := by
  have hwhole : pieces none (String.utf8EncodeChar c) = [some c] := by
    have happend := pieces_encodeChar c []
    rwa [List.append_nil] at happend
  have htail : (String.utf8EncodeChar c).drop n ≠ [] := by
    rw [ne_eq, List.drop_eq_nil_iff]
    omega
  have hlength := List.length_take_of_le (Nat.le_of_lt h)
  cases hfront : (String.utf8EncodeChar c).take n with
  | nil =>
    rw [hfront] at hlength
    have hzero : n = 0 := hlength.symm
    rw [if_pos hzero]
    rfl
  | cons b front =>
    rw [hfront, List.length_cons] at hlength
    rw [if_neg (by omega)]
    apply pieces_of_split htail
    rw [← hfront, List.take_append_drop, hwhole]

/-- What is read of a text that is cut: the characters that fit, and one ill-formed piece if another one was split. -/
theorem pieces_take (n : Nat) (cs : List Char) :
    pieces none ((cs.flatMap String.utf8EncodeChar).take n) = (fitting n cs).map some ++
      if ((fitting n cs).flatMap String.utf8EncodeChar).length < min n (cs.flatMap String.utf8EncodeChar).length
      then [none] else [] := by
  induction cs generalizing n with
  | nil => simp [pieces, fitting]
  | cons c cs ih =>
    simp only [List.flatMap_cons, fitting]
    split
    · rename_i hfits
      rw [List.take_append, List.take_of_length_le hfits, pieces_encodeChar, ih, List.map_cons, List.cons_append,
        List.flatMap_cons, List.length_append, List.length_append]
      congr 3
      rw [eq_iff_iff]
      omega
    · rename_i hsplit
      rw [List.take_append_of_le_length (by omega), pieces_take_encodeChar (by omega), List.map_nil, List.nil_append,
        List.flatMap_nil, List.length_nil, List.length_append]
      rcases Nat.eq_zero_or_pos n with hn | hn
      · rw [if_pos hn, if_neg (by omega)]
      · rw [if_neg (by omega), if_pos (by omega)]

theorem decodeSkipping_take (n : Nat) (cs : List Char) :
    decodeSkipping ((cs.flatMap String.utf8EncodeChar).take n) = String.ofList (fitting n cs) := by
  rw [decodeSkipping, decode, pieces_take]
  split <;> simp [List.filterMap_map]

/-- A character that is split is replaced by one mark. -/
theorem decodeReplacing_take (n : Nat) (cs : List Char) :
    decodeReplacing ((cs.flatMap String.utf8EncodeChar).take n) = String.ofList (fitting n cs ++
      if ((fitting n cs).flatMap String.utf8EncodeChar).length < min n (cs.flatMap String.utf8EncodeChar).length
      then ['\uFFFD'] else []) := by
  rw [decodeReplacing, decode, pieces_take]
  split <;> simp [Function.comp_def]

/-! ## Zero bytes -/

theorem zero_mem_encodeChar {c : Char} : 0 ∈ String.utf8EncodeChar c ↔ c = '\x00' := by
  constructor
  · intro h
    have hzero {n : Nat} (hn : n < 256) : (0 : UInt8) = UInt8.ofNat n ↔ n = 0 := by
      rw [eq_comm, ofNat_eq_iff hn]
      rfl
    have hval : c.val.toNat = 0 := by
      simp only [String.utf8EncodeChar] at h
      generalize c.val.toNat = n at h ⊢
      -- In the longer forms the bits that mark a byte's place keep it from being zero.
      split at h
      · rwa [List.mem_singleton, hzero (by omega)] at h
      · split at h
        · simp only [List.mem_cons, List.not_mem_nil, or_false] at h
          rw [hzero (by omega), hzero (by omega)] at h
          omega
        · split at h
          · simp only [List.mem_cons, List.not_mem_nil, or_false] at h
            rw [hzero (by omega), hzero (by omega), hzero (by omega)] at h
            omega
          · simp only [List.mem_cons, List.not_mem_nil, or_false] at h
            rw [hzero (by omega), hzero (by omega), hzero (by omega), hzero (by omega)] at h
            omega
    exact Char.ext (UInt32.toNat_inj.mp hval)
  · rintro rfl
    decide

theorem encodeChar_zero : String.utf8EncodeChar '\x00' = [0] := rfl

theorem takeWhile_encode (cs : List Char) :
    (cs.flatMap String.utf8EncodeChar).takeWhile (· ≠ 0) =
      (cs.takeWhile (· ≠ '\x00')).flatMap String.utf8EncodeChar := by
  induction cs with
  | nil => rfl
  | cons c cs ih =>
    by_cases hzero : c = '\x00'
    · subst hzero
      simp [encodeChar_zero]
    · have hall (b) (hb : b ∈ String.utf8EncodeChar c) : decide (b ≠ 0) = true := by
        apply decide_eq_true
        rintro rfl
        exact hzero (zero_mem_encodeChar.mp hb)
      rw [List.flatMap_cons, List.takeWhile_append_of_pos hall, ih, List.takeWhile_cons_of_pos (by simpa using hzero),
        List.flatMap_cons]

theorem zero_mem_encode {text : String} : 0 ∈ encode text ↔ '\x00' ∈ text.toList := by
  simp only [encode, List.mem_flatMap, zero_mem_encodeChar, exists_eq_right]

end GatedRelay.Utf8
