import GatedRelay.Frame.Stream
import GatedRelay.Proofs.Frame.Reading

/-!
# Streams that arrive in chunks

What has been decided about the front of a stream stands when more of it arrives, and what is kept is what is not yet
decided.  A parser therefore gives out the same frames, keeps the same bytes and drops as many, wherever a stream is
cut into chunks (`pushEach_eq_push_flatten`).
-/

set_option autoImplicit false

namespace GatedRelay

/-! ## Sifting -/

theorem sift_of_short {d : Bytes} (h : Frame.read d = .short) : sift d = ⟨[], d, 0⟩ := by
  rw [sift]
  split
  · rfl
  · rename_i h'
    rw [h] at h'
    cases h'
  · rename_i h'
    rw [h] at h'
    cases h'

theorem sift_of_noise {d : Bytes} (h : Frame.read d = .noise) :
    sift d = { sift d.tail with dropped := (sift d.tail).dropped + 1 } := by
  rw [sift]
  split
  · rename_i h'
    rw [h] at h'
    cases h'
  · rfl
  · rename_i h'
    rw [h] at h'
    cases h'

theorem sift_of_frame {d rest : Bytes} {f : Frame} (h : Frame.read d = .frame f rest) :
    sift d = { sift rest with frames := f :: (sift rest).frames } := by
  rw [sift]
  split
  · rename_i h'
    rw [h] at h'
    cases h'
  · rename_i h'
    rw [h] at h'
    cases h'
  · rename_i h'
    rw [h] at h'
    cases h'
    rfl

theorem sift_nil : sift [] = ⟨[], [], 0⟩ := sift_of_short rfl

/-- What becomes of the bytes when more arrive: those that were kept are sifted again together with the new ones. -/
def Sifted.resume (s : Sifted) (more : Bytes) : Sifted :=
  let t := sift (s.kept ++ more)
  ⟨s.frames ++ t.frames, t.kept, s.dropped + t.dropped⟩

theorem sift_append (d more : Bytes) : sift (d ++ more) = (sift d).resume more := by
  induction d using sift.induct with
  | case1 d h =>
    rw [sift_of_short h]
    simp [Sifted.resume]
  | case2 d h _ ih =>
    have hread : Frame.read (d ++ more) = .noise := by
      rw [Frame.read_append (by simp [h]), h]
      rfl
    have htail : (d ++ more).tail = d.tail ++ more := List.tail_append_of_ne_nil (Frame.ne_nil_of_read_noise h)
    rw [sift_of_noise hread, sift_of_noise h, htail, ih]
    simp only [Sifted.resume, Sifted.mk.injEq, true_and]
    omega
  | case3 d f rest h _ ih =>
    have hread : Frame.read (d ++ more) = .frame f (rest ++ more) := by
      rw [Frame.read_append (by simp [h]), h]
      rfl
    rw [sift_of_frame hread, sift_of_frame h, ih]
    rfl

/-- What is kept is undecided: it is the beginning of a frame, and without more bytes nothing comes of it. -/
theorem read_kept (d : Bytes) : Frame.read (sift d).kept = .short := by
  induction d using sift.induct with
  | case1 d h =>
    rw [sift_of_short h]
    exact h
  | case2 d h _ ih =>
    rw [sift_of_noise h]
    exact ih
  | case3 d f rest h _ ih =>
    rw [sift_of_frame h]
    exact ih

theorem sift_kept (d : Bytes) : sift (sift d).kept = ⟨[], (sift d).kept, 0⟩ := sift_of_short (read_kept d)

/-! ## Parsers -/

namespace Parser

def pushEach (p : Parser) : List Bytes → Parser × List Frame
  | [] => (p, [])
  | d :: rest =>
    let q := p.push d
    let r := q.1.pushEach rest
    (r.1, q.2 ++ r.2)

def Settled (p : Parser) : Prop := p.push [] = (p, [])

theorem settled_push (p : Parser) (d : Bytes) : (p.push d).1.Settled := by
  rw [Settled, push, push, List.append_nil, sift_kept]
  rfl

theorem settled_pushEach {p : Parser} (h : p.Settled) (chunks : List Bytes) : (p.pushEach chunks).1.Settled := by
  induction chunks generalizing p with
  | nil => exact h
  | cons d rest ih => exact ih (p.settled_push d)

theorem push_append (p : Parser) (c d : Bytes) :
    p.push (c ++ d) = (((p.push c).1.push d).1, (p.push c).2 ++ ((p.push c).1.push d).2) := by
  simp only [push]
  rw [← List.append_assoc, sift_append]
  simp only [Sifted.resume, Nat.add_assoc]

theorem pushEach_of_settled {p : Parser} (h : p.Settled) (chunks : List Bytes) :
    p.pushEach chunks = p.push chunks.flatten := by
  induction chunks generalizing p with
  | nil => exact h.symm
  | cons d rest ih =>
    rw [List.flatten_cons, push_append, ← ih (p.settled_push d)]
    rfl

theorem settled_empty : Settled {} := by
  rw [Settled, push, List.append_nil, sift_nil]
  rfl

/-- A stream gives the same frames, leaves the same bytes and loses as many wherever it is cut, whatever a parser has
received before it. -/
theorem pushEach_eq_push_flatten (before chunks : List Bytes) :
    (({} : Parser).pushEach before).1.pushEach chunks =
      (({} : Parser).pushEach before).1.push chunks.flatten :=
  pushEach_of_settled (settled_pushEach settled_empty before) chunks

end Parser

end GatedRelay
