import GatedRelay.Proofs.Frame.Grammar

/-!
# Every byte of a stream is accounted for

What a parser has received is the frames that it has given out and the bytes that it has dropped, in the order in which
they came, and then what it keeps (`accounted_after`).  It keeps only what may still become a frame, so that no
stream makes its buffer grow beyond the longest frame.
-/

set_option autoImplicit false

namespace GatedRelay

/-! ## What is kept -/

namespace Grammar

/-- Nothing, or a start byte and too few bytes for a header, or fewer than the header announces. -/
inductive Unfinished : Bytes → Prop where
  | nil : Unfinished []
  | header {v : Version} {tail : Bytes} (h : (v.start :: tail).length < headLength v) : Unfinished (v.start :: tail)
  | body {v : Version} {tail : Bytes} (hheader : headLength v ≤ (v.start :: tail).length)
      (h : (v.start :: tail).length < frameLength v (v.start :: tail)) : Unfinished (v.start :: tail)

theorem unfinished_of_short {d : Bytes} (h : Frame.read d = .short) : Unfinished d := by
  cases Frame.opening d with
  | nil => exact .nil
  | noStart hstart =>
    rw [Frame.read_of_no_start hstart] at h
    cases h
  | unannounced hread => exact .header (length_lt_of_unannounced hread)
  | @announced v tail rest a hread =>
    obtain ⟨hframe, hlength, _⟩ := length_of_announced hread
    rw [Frame.read_of_announced hread] at h
    split at h
    · apply Unfinished.body
      · rw [List.length_cons]
        omega
      · rw [List.length_cons, hframe]
        omega
    · cases hcomplete : a.complete (rest.take a.bodyLength) with
      | none =>
        rw [hcomplete] at h
        cases h
      | some f =>
        rw [hcomplete] at h
        cases h

theorem headLength_le (v : Version) : headLength v ≤ 10 := by
  cases v <;> decide

theorem frameLength_le (v : Version) (d : Bytes) : frameLength v d ≤ 280 := by
  have hhead := headLength_le v
  have hpayload : (d.getD 1 0).toNat < 256 := (d.getD 1 0).toNat_lt
  unfold frameLength textLength
  split <;> omega

theorem Unfinished.length_lt {d : Bytes} (h : Unfinished d) : d.length < 280 := by
  cases h with
  | nil => decide
  | @header v tail h =>
    have hhead := headLength_le v
    omega
  | @body v tail _ h =>
    have hframe := frameLength_le v (v.start :: tail)
    omega

end Grammar

theorem unfinished_kept (d : Bytes) : Grammar.Unfinished (sift d).kept :=
  Grammar.unfinished_of_short (read_kept d)

/-! ## What has been given out or dropped -/

/-- Some bytes are those of frames and single dropped ones, in this order, and then those that are kept. -/
inductive Accounted : Bytes → List Frame → Nat → Bytes → Prop where
  | kept (d : Bytes) : Accounted d [] 0 d
  | frame (f : Frame) {d kept : Bytes} {frames : List Frame} {dropped : Nat} (h : Accounted d frames dropped kept) :
      Accounted (f.bytes ++ d) (f :: frames) dropped kept
  | dropped (b : UInt8) {d kept : Bytes} {frames : List Frame} {dropped : Nat} (h : Accounted d frames dropped kept) :
      Accounted (b :: d) frames (dropped + 1) kept

section Accounted

variable {d more kept kept' : Bytes} {frames frames' : List Frame} {dropped dropped' : Nat}

theorem Accounted.append (h : Accounted d frames dropped kept) (h' : Accounted (kept ++ more) frames' dropped' kept') :
    Accounted (d ++ more) (frames ++ frames') (dropped + dropped') kept' := by
  induction h with
  | kept d =>
    rw [List.nil_append, Nat.zero_add]
    exact h'
  | frame f _ ih =>
    rw [List.append_assoc]
    exact .frame f (ih h')
  | dropped b _ ih =>
    rw [Nat.add_right_comm]
    exact .dropped b (ih h')

theorem Accounted.length_eq (h : Accounted d frames dropped kept) :
    d.length = (frames.flatMap Frame.bytes).length + dropped + kept.length := by
  induction h with
  | kept d => simp
  | frame f _ ih =>
    rw [List.length_append, ih, List.flatMap_cons, List.length_append]
    omega
  | dropped b _ ih =>
    rw [List.length_cons, ih]
    omega

end Accounted

theorem accounted_sift (d : Bytes) : Accounted d (sift d).frames (sift d).dropped (sift d).kept := by
  induction d using sift.induct with
  | case1 d h =>
    rw [sift_of_short h]
    exact .kept d
  | case2 d h _ ih =>
    rw [sift_of_noise h]
    cases d with
    | nil => exact absurd rfl (Frame.ne_nil_of_read_noise h)
    | cons b tail => exact .dropped b ih
  | case3 d f rest h _ ih =>
    obtain rfl := Frame.bytes_of_read h
    rw [sift_of_frame h]
    exact .frame f ih

/-! ## Parsers -/

namespace Parser

inductive Call where
  | push (d : Bytes)
  | flush

def Call.bytes : Call → Bytes
  | push d => d
  | flush => []

def call (p : Parser) : Call → Parser × List Frame
  | .push d => p.push d
  | .flush => p.flush

def callEach (p : Parser) : List Call → Parser × List Frame
  | [] => (p, [])
  | c :: rest =>
    let q := p.call c
    let r := q.1.callEach rest
    (r.1, q.2 ++ r.2)

def Accounts (p : Parser) (d : Bytes) (r : Parser × List Frame) : Prop :=
  ∃ dropped, r.1.dropped = p.dropped + dropped ∧ Accounted (p.buffer ++ d) r.2 dropped r.1.buffer

theorem accounts_push (p : Parser) (d : Bytes) : p.Accounts d (p.push d) := ⟨_, rfl, accounted_sift _⟩

theorem Accounts.append {p : Parser} {d more : Bytes} {q r : Parser × List Frame} (h : p.Accounts d q)
    (h' : q.1.Accounts more r) : p.Accounts (d ++ more) (r.1, q.2 ++ r.2) := by
  obtain ⟨n, hdropped, haccounted⟩ := h
  obtain ⟨n', hdropped', haccounted'⟩ := h'
  refine ⟨n + n', ?_, ?_⟩
  · rw [hdropped', hdropped, Nat.add_assoc]
  · rw [← List.append_assoc]
    exact haccounted.append haccounted'

theorem buffer_flush (p : Parser) : p.flush.1.buffer = [] := by
  induction p using flush.induct with
  | case1 p h =>
    obtain ⟨buffer, n⟩ := p
    obtain rfl := h
    rw [flush_nil]
  | case2 p b rest h q _ ih =>
    obtain ⟨buffer, n⟩ := p
    obtain rfl := h
    rw [flush_cons]
    exact ih

theorem accounts_flush (p : Parser) : p.Accounts [] p.flush := by
  induction p using flush.induct with
  | case1 p h =>
    obtain ⟨buffer, n⟩ := p
    obtain rfl := h
    rw [flush_nil]
    exact ⟨0, rfl, .kept []⟩
  | case2 p b rest h q _ ih =>
    obtain ⟨buffer, n⟩ := p
    obtain rfl := h
    obtain ⟨n', hdropped, haccounted⟩ := (accounts_push ⟨rest, n + 1⟩ []).append ih
    rw [flush_cons]
    refine ⟨n' + 1, ?_, .dropped b haccounted⟩
    rw [hdropped, Nat.add_assoc, Nat.add_comm 1]

theorem accounts_call (p : Parser) (c : Call) : p.Accounts c.bytes (p.call c) := by
  cases c with
  | push d => exact p.accounts_push d
  | flush => exact p.accounts_flush

theorem unfinished_call (p : Parser) (c : Call) : Grammar.Unfinished (p.call c).1.buffer := by
  cases c with
  | push d => exact unfinished_kept (p.buffer ++ d)
  | flush =>
    rw [call, buffer_flush]
    exact .nil

theorem accounts_callEach (p : Parser) (calls : List Call) :
    p.Accounts (calls.flatMap Call.bytes) (p.callEach calls) := by
  induction calls generalizing p with
  | nil =>
    refine ⟨0, rfl, ?_⟩
    rw [List.flatMap_nil, List.append_nil]
    exact .kept p.buffer
  | cons c rest ih =>
    rw [List.flatMap_cons]
    exact (p.accounts_call c).append (ih (p.call c).1)

theorem unfinished_callEach {p : Parser} (h : Grammar.Unfinished p.buffer) (calls : List Call) :
    Grammar.Unfinished (p.callEach calls).1.buffer := by
  induction calls generalizing p with
  | nil => exact h
  | cons c rest ih => exact ih (p.unfinished_call c)

theorem callEach_append (p : Parser) (calls later : List Call) :
    (p.callEach (calls ++ later)).1 = ((p.callEach calls).1.callEach later).1 := by
  induction calls generalizing p with
  | nil => rfl
  | cons c rest ih => exact ih (p.call c).1

def after (calls : List Call) : Parser × List Frame := ({} : Parser).callEach calls

/-- All bytes are accounted for, and what is kept is not yet a frame, is shorter than 280 bytes, and is nothing at all
after a flush. -/
theorem accounted_after (calls : List Call) :
    Accounted (calls.flatMap Call.bytes) (after calls).2 (after calls).1.dropped (after calls).1.buffer ∧
      (after calls).1.dropped ≤ (calls.flatMap Call.bytes).length ∧
      Grammar.Unfinished (after calls).1.buffer ∧ (after calls).1.buffer.length < 280 ∧
      (calls.getLast? = some .flush → (after calls).1.buffer = []) := by
  obtain ⟨n, hdropped, haccounted⟩ := accounts_callEach {} calls
  have hunfinished : Grammar.Unfinished (after calls).1.buffer := unfinished_callEach .nil calls
  have hlength := haccounted.length_eq
  rw [Nat.zero_add] at hdropped
  rw [List.nil_append] at haccounted hlength
  rw [← hdropped] at haccounted hlength
  refine ⟨haccounted, ?_, hunfinished, hunfinished.length_lt, ?_⟩
  · rw [hlength, after]
    omega
  · intro hlast
    obtain ⟨before, rfl⟩ := List.getLast?_eq_some_iff.mp hlast
    rw [after, callEach_append]
    exact buffer_flush _

end Parser

end GatedRelay
