import GatedRelay.Text.Utf8

/-!
# Reading what was written in UTF-8

Decoding undoes encoding.  Of an arbitrary byte string the whole characters, encoded again, are what is left of it when
some bytes are taken out; so skipping what is ill-formed neither lengthens a text nor brings new bytes into it.
-/

set_option autoImplicit false

namespace GatedRelay.Utf8

/-! ## Characters as numbers -/

theorem toNat_val_ofNat {n : Nat} (h : n < 0xD800 ∨ 0xDFFF < n ∧ n < 0x110000) : (Char.ofNat n).val.toNat = n := by
  have hvalid : n.isValidChar := h
  rw [Char.ofNat, dif_pos hvalid]
  rfl

theorem ofNat_eq_iff {n : Nat} {b : UInt8} (h : n < 256) : UInt8.ofNat n = b ↔ n = b.toNat := by
  rw [← UInt8.toNat_inj, UInt8.toNat_ofNat', Nat.mod_eq_of_lt h]

def Pending.finish : Pending → Bytes → Option Char
  | _, [] => none
  | p, b :: rest =>
    match p.next b with
    | .whole c => if rest = [] then some c else none
    | .more q => q.finish rest
    | .illFormed => none

def Pending.Spells (p : Pending) (front : Bytes) : Prop :=
  ∀ tail c, p.finish tail = some c → String.utf8EncodeChar c = front ++ tail

theorem next_eq_whole {p : Pending} {b : UInt8} {c : Char} (h : p.next b = .whole c) :
    p.low ≤ b ∧ b ≤ p.high ∧ p.missing = 1 ∧ c = Char.ofNat (64 * p.bits + b.toNat % 64) := by
  unfold Pending.next at h
  split at h
  · rename_i hb
    simp only at h
    split at h
    · cases h
      exact ⟨hb.1, hb.2, ‹_›, rfl⟩
    · cases h
  · cases h

theorem next_eq_more {p q : Pending} {b : UInt8} (h : p.next b = .more q) :
    p.low ≤ b ∧ b ≤ p.high ∧ p.missing ≠ 1 ∧ q = ⟨0x80, 0xBF, p.missing - 1, 64 * p.bits + b.toNat % 64⟩ := by
  unfold Pending.next at h
  split at h
  · rename_i hb
    simp only at h
    split at h
    · cases h
    · cases h
      exact ⟨hb.1, hb.2, ‹_›, rfl⟩
  · cases h

theorem Pending.Spells.more {p q : Pending} {front : Bytes} {b : UInt8} (h : p.Spells front)
    (hb : p.next b = .more q) : q.Spells (front ++ [b]) := by
  intro tail c hc
  rw [List.append_assoc]
  exact h (b :: tail) c (by simpa [finish, hb] using hc)

theorem Pending.Spells.whole {p : Pending} {front : Bytes} {b : UInt8} {c : Char} (h : p.Spells front)
    (hb : p.next b = .whole c) : String.utf8EncodeChar c = front ++ [b] :=
  h [b] c (by simp [finish, hb])

theorem next_of_mem {p : Pending} {b : UInt8} (hlow : p.low ≤ b) (hhigh : b ≤ p.high) :
    p.next b = if p.missing = 1 then .whole (Char.ofNat (64 * p.bits + b.toNat % 64))
      else .more ⟨0x80, 0xBF, p.missing - 1, 64 * p.bits + b.toNat % 64⟩ := by
  rw [Pending.next, if_pos ⟨hlow, hhigh⟩]

theorem finish_one_iff {low high : UInt8} {bits : Nat} {tail : Bytes} {c : Char} :
    Pending.finish ⟨low, high, 1, bits⟩ tail = some c ↔
      ∃ b, tail = [b] ∧ low ≤ b ∧ b ≤ high ∧ c = Char.ofNat (64 * bits + b.toNat % 64) := by
  constructor
  · intro h
    match tail with
    | [] => cases h
    | b :: rest =>
      unfold Pending.finish at h
      split at h
      · rename_i hnext
        obtain ⟨hlow, hhigh, _, rfl⟩ := next_eq_whole hnext
        split at h
        · cases h
          rename_i hrest
          exact ⟨b, by rw [hrest], hlow, hhigh, rfl⟩
        · cases h
      · rename_i hnext
        exact absurd rfl (next_eq_more hnext).2.2.1
      · cases h
  · rintro ⟨b, rfl, hlow, hhigh, rfl⟩
    simp [Pending.finish, next_of_mem (p := ⟨low, high, 1, bits⟩) hlow hhigh]

theorem finish_more_iff {low high : UInt8} {missing bits : Nat} {tail : Bytes} {c : Char} :
    Pending.finish ⟨low, high, missing + 2, bits⟩ tail = some c ↔
      ∃ b rest, tail = b :: rest ∧ low ≤ b ∧ b ≤ high ∧
        Pending.finish ⟨0x80, 0xBF, missing + 1, 64 * bits + b.toNat % 64⟩ rest = some c := by
  constructor
  · intro h
    match tail with
    | [] => cases h
    | b :: rest =>
      unfold Pending.finish at h
      split at h
      · rename_i hnext
        have := (next_eq_whole hnext).2.2.1
        simp at this
      · rename_i hnext
        obtain ⟨hlow, hhigh, _, rfl⟩ := next_eq_more hnext
        exact ⟨b, rest, rfl, hlow, hhigh, h⟩
      · cases h
  · rintro ⟨b, rest, rfl, hlow, hhigh, h⟩
    simpa [Pending.finish, next_of_mem (p := ⟨low, high, missing + 2, bits⟩) hlow hhigh] using h

theorem spells_two {lead : UInt8} (h : 0xC2 ≤ lead ∧ lead < 0xE0) :
    Pending.Spells ⟨0x80, 0xBF, 1, lead.toNat % 32⟩ [lead] := by
  intro tail c hc
  obtain ⟨b, rfl, hlow, hhigh, rfl⟩ := finish_one_iff.mp hc
  simp only [UInt8.le_iff_toNat_le, UInt8.lt_iff_toNat_lt, UInt8.reduceToNat] at *
  have hval : (Char.ofNat (64 * (lead.toNat % 32) + b.toNat % 64)).val.toNat =
      64 * (lead.toNat % 32) + b.toNat % 64 := toNat_val_ofNat (by omega)
  simp only [String.utf8EncodeChar, hval]
  rw [if_neg (by omega), if_pos (by omega)]
  simp only [List.cons_append, List.nil_append, List.cons.injEq, and_true]
  rw [ofNat_eq_iff (by omega), ofNat_eq_iff (by omega)]
  omega

/-- The bounds of the second byte keep the character above 0x7FF and out of the surrogates. -/
theorem spells_three {low high lead : UInt8} {bits : Nat} (hbits : lead.toNat = 0xE0 + bits) (hbits' : bits < 16)
    (hlow : 0x80 ≤ low) (hhigh : high ≤ 0xBF) (hleast : bits = 0 → 0xA0 ≤ low) (hsurrogate : bits = 13 → high ≤ 0x9F) :
    Pending.Spells ⟨low, high, 2, bits⟩ [lead] := by
  intro tail c hc
  obtain ⟨b, rest, rfl, h₁, h₂, hc⟩ := finish_more_iff.mp hc
  obtain ⟨b', rfl, h₁', h₂', rfl⟩ := finish_one_iff.mp hc
  simp only [UInt8.le_iff_toNat_le, UInt8.reduceToNat] at *
  have hb : b.toNat % 64 = b.toNat - 0x80 := by omega
  have hb' : b'.toNat % 64 = b'.toNat - 0x80 := by omega
  simp only [hb, hb']
  generalize hn : 64 * (64 * bits + (b.toNat - 0x80)) + (b'.toNat - 0x80) = n
  have hval : (Char.ofNat n).val.toNat = n := toNat_val_ofNat (by omega)
  simp only [String.utf8EncodeChar, hval]
  rw [if_neg (by omega), if_neg (by omega), if_pos (by omega)]
  simp only [List.cons_append, List.nil_append, List.cons.injEq, and_true]
  rw [ofNat_eq_iff (by omega), ofNat_eq_iff (by omega), ofNat_eq_iff (by omega)]
  omega

theorem spells_four {low high lead : UInt8} {bits : Nat} (hbits : lead.toNat = 0xF0 + bits) (hbits' : bits < 5)
    (hlow : 0x80 ≤ low) (hhigh : high ≤ 0xBF) (hleast : bits = 0 → 0x90 ≤ low) (hmost : bits = 4 → high ≤ 0x8F) :
    Pending.Spells ⟨low, high, 3, bits⟩ [lead] := by
  intro tail c hc
  obtain ⟨b, rest, rfl, h₁, h₂, hc⟩ := finish_more_iff.mp hc
  obtain ⟨b', rest, rfl, h₁', h₂', hc⟩ := finish_more_iff.mp hc
  obtain ⟨b'', rfl, h₁'', h₂'', rfl⟩ := finish_one_iff.mp hc
  simp only [UInt8.le_iff_toNat_le, UInt8.reduceToNat] at *
  have hb : b.toNat % 64 = b.toNat - 0x80 := by omega
  have hb' : b'.toNat % 64 = b'.toNat - 0x80 := by omega
  have hb'' : b''.toNat % 64 = b''.toNat - 0x80 := by omega
  simp only [hb, hb', hb'']
  generalize hn : 64 * (64 * (64 * bits + (b.toNat - 0x80)) + (b'.toNat - 0x80)) + (b''.toNat - 0x80) = n
  have hval : (Char.ofNat n).val.toNat = n := toNat_val_ofNat (by omega)
  simp only [String.utf8EncodeChar, hval]
  rw [if_neg (by omega), if_neg (by omega), if_neg (by omega)]
  simp only [List.cons_append, List.nil_append, List.cons.injEq, and_true]
  rw [ofNat_eq_iff (by omega), ofNat_eq_iff (by omega), ofNat_eq_iff (by omega), ofNat_eq_iff (by omega)]
  omega

/-! ## Lead bytes -/

theorem first_two {lead : UInt8} (hleast : 0xC2 ≤ lead.toNat) (hmost : lead.toNat < 0xE0) :
    first lead = .more ⟨0x80, 0xBF, 1, lead.toNat % 32⟩ := by
  simp only [first, UInt8.lt_iff_toNat_lt, UInt8.reduceToNat]
  rw [if_neg (by omega), if_neg (by omega), if_pos (by omega)]

theorem first_three {lead : UInt8} {bits : Nat} (hlead : lead.toNat = 0xE0 + bits) (hbits : bits < 16) :
    first lead = .more ⟨if bits = 0 then 0xA0 else 0x80, if bits = 13 then 0x9F else 0xBF, 2, bits⟩ := by
  simp only [first, UInt8.lt_iff_toNat_lt, ← UInt8.toNat_inj, UInt8.reduceToNat]
  rw [if_neg (by omega), if_neg (by omega), if_neg (by omega)]
  by_cases hzero : bits = 0
  · rw [if_pos (by omega), hzero]
    rfl
  · rw [if_neg (by omega), if_neg hzero]
    by_cases hsurrogate : bits = 13
    · rw [if_pos (by omega), hsurrogate]
      rfl
    · rw [if_neg (by omega), if_neg hsurrogate, if_pos (by omega)]
      congr
      omega

theorem first_four {lead : UInt8} {bits : Nat} (hlead : lead.toNat = 0xF0 + bits) (hbits : bits < 5) :
    first lead = .more ⟨if bits = 0 then 0x90 else 0x80, if bits = 4 then 0x8F else 0xBF, 3, bits⟩ := by
  simp only [first, UInt8.lt_iff_toNat_lt, ← UInt8.toNat_inj, UInt8.reduceToNat]
  rw [if_neg (by omega), if_neg (by omega), if_neg (by omega), if_neg (by omega), if_neg (by omega), if_neg (by omega)]
  by_cases hzero : bits = 0
  · rw [if_pos (by omega), hzero]
    rfl
  · rw [if_neg (by omega), if_neg hzero]
    by_cases hlast : bits = 4
    · rw [if_neg (by omega), if_pos (by omega), hlast]
      rfl
    · rw [if_pos (by omega), if_neg hlast]
      congr
      omega

theorem first_illFormed {lead : UInt8} (h : 0x80 ≤ lead.toNat ∧ lead.toNat < 0xC2 ∨ 0xF5 ≤ lead.toNat) :
    first lead = .illFormed := by
  simp only [first, UInt8.lt_iff_toNat_lt, ← UInt8.toNat_inj, UInt8.reduceToNat]
  rcases h with ⟨hleast, hmost⟩ | hleast
  · rw [if_neg (by omega), if_pos (by omega)]
  · rw [if_neg (by omega), if_neg (by omega), if_neg (by omega), if_neg (by omega), if_neg (by omega),
      if_neg (by omega), if_neg (by omega), if_neg (by omega), if_neg (by omega)]

theorem spells_first {lead : UInt8} {p : Pending} (h : first lead = .more p) : p.Spells [lead] := by
  by_cases hone : lead.toNat < 0x80
  · rw [first, if_pos (UInt8.lt_iff_toNat_lt.mpr hone)] at h
    cases h
  by_cases htwo : 0xC2 ≤ lead.toNat ∧ lead.toNat < 0xE0
  · rw [first_two htwo.1 htwo.2] at h
    cases h
    exact spells_two ⟨UInt8.le_iff_toNat_le.mpr htwo.1, UInt8.lt_iff_toNat_lt.mpr htwo.2⟩
  by_cases hthree : 0xE0 ≤ lead.toNat ∧ lead.toNat < 0xF0
  · obtain ⟨bits, hbits⟩ := Nat.exists_eq_add_of_le hthree.1
    rw [first_three hbits (by omega)] at h
    cases h
    exact spells_three hbits (by omega) (by split <;> decide) (by split <;> decide) (by rintro rfl; decide)
      (by rintro rfl; decide)
  by_cases hfour : 0xF0 ≤ lead.toNat ∧ lead.toNat < 0xF5
  · obtain ⟨bits, hbits⟩ := Nat.exists_eq_add_of_le hfour.1
    rw [first_four hbits (by omega)] at h
    cases h
    exact spells_four hbits (by omega) (by split <;> decide) (by split <;> decide) (by rintro rfl; decide)
      (by rintro rfl; decide)
  · rw [first_illFormed (by omega)] at h
    cases h

theorem encode_of_first {b : UInt8} {c : Char} (h : first b = .whole c) : String.utf8EncodeChar c = [b] := by
  unfold first at h
  split at h
  · rename_i hb
    cases h
    simp only [UInt8.lt_iff_toNat_lt, UInt8.reduceToNat] at hb
    have hval : (Char.ofNat b.toNat).val.toNat = b.toNat := toNat_val_ofNat (by omega)
    simp only [String.utf8EncodeChar, hval]
    rw [if_pos (by omega), UInt8.ofNat_toNat]
  · repeat (split at h; · cases h)
    cases h

/-! ## The text of a byte string -/

/-- The whole characters of a byte string are written in it, one after the other. -/
theorem sublist_pieces (b : Bytes) : ∀ (state : Option Pending) (front : Bytes),
    (∀ p, state = some p → p.Spells front) →
      List.Sublist (((pieces state b).filterMap id).flatMap String.utf8EncodeChar) (front ++ b) := by
  induction b with
  | nil =>
    intro state front _
    cases state <;> simp [pieces]
  | cons b rest ih =>
    have hfirst : List.Sublist
        ((((first b).pieces fun state => pieces state rest).filterMap id).flatMap String.utf8EncodeChar)
        (b :: rest) := by
      cases hb : first b with
      | whole c =>
        simp only [Step.pieces, List.filterMap_cons, id_eq, List.flatMap_cons, encode_of_first hb]
        exact (ih none [] (by simp)).cons_cons b
      | more p => exact ih (some p) [b] (by rintro _ ⟨⟩; exact spells_first hb)
      | illFormed =>
        simp only [Step.pieces, List.filterMap_cons, id_eq]
        exact (ih none [] (by simp)).cons b
    intro state front hstate
    cases state with
    | none => exact hfirst.trans (List.sublist_append_right front _)
    | some p =>
      have hp := hstate p rfl
      cases hb : p.next b with
      | whole c =>
        simp only [pieces, hb, Step.pieces, List.filterMap_cons, id_eq, List.flatMap_cons, hp.whole hb]
        rw [List.append_cons front b rest]
        exact (List.Sublist.refl _).append (ih none [] (by simp))
      | more q =>
        simp only [pieces, hb, Step.pieces]
        rw [List.append_cons front b rest]
        exact ih (some q) _ (by rintro _ ⟨⟩; exact hp.more hb)
      | illFormed =>
        simp only [pieces, hb, List.filterMap_cons, id_eq]
        exact hfirst.trans (List.sublist_append_right front _)

theorem encode_ofList (cs : List Char) : encode (String.ofList cs) = cs.flatMap String.utf8EncodeChar := by
  rw [encode, String.toList_ofList]

theorem encode_decodeSkipping_sublist (b : Bytes) : List.Sublist (encode (decodeSkipping b)) b := by
  rw [decodeSkipping, encode_ofList]
  exact sublist_pieces b none [] (by simp)

theorem pieces_finish {p : Pending} {tail : Bytes} {c : Char} (h : p.finish tail = some c) (rest : Bytes) :
    pieces (some p) (tail ++ rest) = some c :: pieces none rest := by
  induction tail generalizing p with
  | nil => cases h
  | cons b tail ih =>
    unfold Pending.finish at h
    split at h
    · rename_i hnext
      split at h
      · cases h
        rename_i htail
        simp only [htail, List.cons_append, List.nil_append, pieces, hnext, Step.pieces]
      · cases h
    · rename_i hnext
      simp only [List.cons_append, pieces, hnext, Step.pieces]
      exact ih h
    · cases h

theorem pieces_of_first {lead : UInt8} {p : Pending} {tail : Bytes} {c : Char} (hfirst : first lead = .more p)
    (htail : p.finish tail = some c) (rest : Bytes) :
    pieces none (lead :: tail ++ rest) = some c :: pieces none rest := by
  simp only [List.cons_append, pieces, hfirst, Step.pieces]
  exact pieces_finish htail rest

theorem toNat_ofNat_of_lt {k : Nat} (h : k < 256) : (UInt8.ofNat k).toNat = k := by
  rw [UInt8.toNat_ofNat', Nat.mod_eq_of_lt h]

def continuation (n : Nat) : UInt8 := UInt8.ofNat (n % 64 + 128)

theorem toNat_continuation (n : Nat) : (continuation n).toNat = n % 64 + 128 := toNat_ofNat_of_lt (by omega)

theorem le_continuation {low : UInt8} {n : Nat} (h : low.toNat ≤ n % 64 + 128) : low ≤ continuation n := by
  rwa [UInt8.le_iff_toNat_le, toNat_continuation]

theorem continuation_le {high : UInt8} {n : Nat} (h : n % 64 + 128 ≤ high.toNat) : continuation n ≤ high := by
  rwa [UInt8.le_iff_toNat_le, toNat_continuation]

theorem continuation_mem (n : Nat) : 0x80 ≤ continuation n ∧ continuation n ≤ 0xBF :=
  ⟨le_continuation (Nat.le_add_left _ _), continuation_le (by simp only [UInt8.reduceToNat]; omega)⟩

theorem finish_continuation {low high : UInt8} {n bits : Nat} (hlow : low ≤ continuation n)
    (hhigh : continuation n ≤ high) (h : bits = n / 64) :
    Pending.finish ⟨low, high, 1, bits⟩ [continuation n] = some (Char.ofNat n) := by
  refine finish_one_iff.mpr ⟨_, rfl, hlow, hhigh, ?_⟩
  rw [toNat_continuation, h]
  congr 1
  omega

theorem finish_continuations {low high : UInt8} {missing n bits : Nat} {tail : Bytes} {c : Char}
    (hlow : low ≤ continuation n) (hhigh : continuation n ≤ high) (h : bits = n / 64)
    (htail : Pending.finish ⟨0x80, 0xBF, missing + 1, n⟩ tail = some c) :
    Pending.finish ⟨low, high, missing + 2, bits⟩ (continuation n :: tail) = some c := by
  refine finish_more_iff.mpr ⟨_, _, rfl, hlow, hhigh, ?_⟩
  have hbits : 64 * bits + (continuation n).toNat % 64 = n := by
    rw [toNat_continuation]
    omega
  rwa [hbits]

theorem pieces_one {n : Nat} (h : n < 0x80) (rest : Bytes) :
    pieces none (UInt8.ofNat n :: rest) = some (Char.ofNat n) :: pieces none rest := by
  have hn : (UInt8.ofNat n).toNat = n := toNat_ofNat_of_lt (by omega)
  have hfirst : first (UInt8.ofNat n) = .whole (Char.ofNat n) := by
    rw [first, if_pos, hn]
    rwa [UInt8.lt_iff_toNat_lt, hn]
  simp only [pieces, hfirst, Step.pieces]

theorem pieces_two {n : Nat} (hleast : 0x80 ≤ n) (hmost : n < 0x800) (rest : Bytes) :
    pieces none (UInt8.ofNat (n / 64 % 32 + 192) :: [continuation n] ++ rest) =
      some (Char.ofNat n) :: pieces none rest := by
  have hlead : (UInt8.ofNat (n / 64 % 32 + 192)).toNat = n / 64 + 192 := by
    rw [toNat_ofNat_of_lt (by omega)]
    omega
  refine pieces_of_first (first_two (by omega) (by omega)) ?_ rest
  exact finish_continuation (continuation_mem n).1 (continuation_mem n).2 (by omega)

theorem pieces_three {n : Nat} (hleast : 0x800 ≤ n) (hmost : n < 0x10000) (hvalid : n < 0xD800 ∨ 0xDFFF < n)
    (rest : Bytes) :
    pieces none (UInt8.ofNat (n / 4096 % 16 + 224) :: [continuation (n / 64), continuation n] ++ rest) =
      some (Char.ofNat n) :: pieces none rest := by
  have hlead : (UInt8.ofNat (n / 4096 % 16 + 224)).toNat = 0xE0 + n / 4096 := by
    rw [toNat_ofNat_of_lt (by omega)]
    omega
  refine pieces_of_first (first_three hlead (by omega)) ?_ rest
  refine finish_continuations (le_continuation ?_) (continuation_le ?_) (by omega)
    (finish_continuation (continuation_mem n).1 (continuation_mem n).2 rfl)
  · split
    · simp only [UInt8.reduceToNat]
      omega
    · exact Nat.le_add_left _ _
  · split
    · simp only [UInt8.reduceToNat]
      omega
    · simp only [UInt8.reduceToNat]
      omega

theorem pieces_four {n : Nat} (hleast : 0x10000 ≤ n) (hmost : n < 0x110000) (rest : Bytes) :
    pieces none (UInt8.ofNat (n / 262144 % 8 + 240) ::
        [continuation (n / 4096), continuation (n / 64), continuation n] ++ rest) =
      some (Char.ofNat n) :: pieces none rest := by
  have hlead : (UInt8.ofNat (n / 262144 % 8 + 240)).toNat = 0xF0 + n / 262144 := by
    rw [toNat_ofNat_of_lt (by omega)]
    omega
  have hlast := finish_continuation (continuation_mem n).1 (continuation_mem n).2 rfl
  have hmiddle := continuation_mem (n / 64)
  refine pieces_of_first (first_four hlead (by omega)) ?_ rest
  refine finish_continuations (le_continuation ?_) (continuation_le ?_) (by omega)
    (finish_continuations hmiddle.1 hmiddle.2 (by omega) hlast)
  · split
    · simp only [UInt8.reduceToNat]
      omega
    · exact Nat.le_add_left _ _
  · split
    · simp only [UInt8.reduceToNat]
      omega
    · simp only [UInt8.reduceToNat]
      omega

theorem pieces_encodeChar (c : Char) (rest : Bytes) :
    pieces none (String.utf8EncodeChar c ++ rest) = some c :: pieces none rest := by
  have hvalid : c.val.toNat < 0xD800 ∨ 0xDFFF < c.val.toNat ∧ c.val.toNat < 0x110000 := c.valid
  have hc : Char.ofNat c.val.toNat = c := Char.ofNat_toNat c
  generalize c.val.toNat = n at hvalid hc
  subst hc
  simp only [String.utf8EncodeChar, toNat_val_ofNat hvalid]
  split
  · exact pieces_one (by omega) rest
  · split
    · exact pieces_two (by omega) (by omega) rest
    · split
      · exact pieces_three (by omega) (by omega) (by omega) rest
      · exact pieces_four (by omega) (by omega) rest

theorem decode_encode (text : String) : decode (encode text) = text.toList.map some := by
  rw [decode, encode]
  induction text.toList with
  | nil => rfl
  | cons c cs ih => rw [List.flatMap_cons, pieces_encodeChar, ih, List.map_cons]

theorem decodeSkipping_encode (text : String) : decodeSkipping (encode text) = text := by
  rw [decodeSkipping, decode_encode, List.filterMap_map, Function.comp_def]
  simp

end GatedRelay.Utf8
