import GatedRelay.Frame.Reading

/-!
# Frames in a byte stream

A parser holds the bytes that may still become a frame.  It gives out frames as they are completed and drops noise byte
by byte, so that a false start costs one byte and the search goes on behind it.  At the end of a datagram nothing more
can follow: a beginning that is still short is noise too.
-/

set_option autoImplicit false

namespace GatedRelay

/-- What became of a byte string: frames in stream order, bytes kept for later, number of bytes dropped. -/
structure Sifted where
  frames : List Frame
  kept : Bytes
  dropped : Nat
  deriving DecidableEq

/-- Take frames and drop noise as long as the front is not merely short. -/
def sift (d : Bytes) : Sifted :=
  match h : Frame.read d with
  | .short => ⟨[], d, 0⟩
  | .noise =>
    have : d.tail.length < d.length := by
      have := List.length_pos_iff.mpr (Frame.ne_nil_of_read_noise h)
      simp only [List.length_tail]
      omega
    let s := sift d.tail
    { s with dropped := s.dropped + 1 }
  | .frame f rest =>
    have := Frame.length_rest_lt h
    let s := sift rest
    { s with frames := f :: s.frames }
termination_by d.length

theorem length_kept_le (d : Bytes) : (sift d).kept.length ≤ d.length := by
  induction d using sift.induct with
  | case1 d h => rw [sift]; split <;> simp_all
  | case2 d h _ ih =>
    rw [sift]
    split
    · simp_all
    · simp only
      simp only [List.length_tail] at ih
      omega
    · simp_all
  | case3 d f rest h hlt ih =>
    rw [sift]
    split
    · simp_all
    · simp_all
    · rename_i f' rest' h'
      rw [h] at h'
      cases h'
      simp only
      omega

structure Parser where
  buffer : Bytes := []
  dropped : Nat := 0
  deriving DecidableEq

namespace Parser

def push (p : Parser) (d : Bytes) : Parser × List Frame :=
  let s := sift (p.buffer ++ d)
  (⟨s.kept, p.dropped + s.dropped⟩, s.frames)

/-- No more bytes will come: what is kept is dropped byte by byte, and frames behind a false start come out. -/
def flush (p : Parser) : Parser × List Frame :=
  match h : p.buffer with
  | [] => (p, [])
  | _ :: rest =>
    let q := (⟨rest, p.dropped + 1⟩ : Parser).push []
    have : q.1.buffer.length < p.buffer.length := by
      have := length_kept_le (rest ++ [])
      simp only [List.append_nil] at this
      simp only [q, push, List.append_nil, h, List.length_cons]
      omega
    let r := q.1.flush
    (r.1, q.2 ++ r.2)
termination_by p.buffer.length

end Parser

/-- The frames of a datagram, which no other datagram completes. -/
def parseDatagram (d : Bytes) : List Frame :=
  let p := ({} : Parser).push d
  p.2 ++ p.1.flush.2

end GatedRelay
