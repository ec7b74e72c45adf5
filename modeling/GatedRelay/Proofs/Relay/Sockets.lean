import GatedRelay.Relay.Basic

/-!
# Binding sockets one by one

A host knows which sockets are held.  Binding one fails exactly where it is held, and dropping it frees it.  Binding a
row of sockets, and dropping those bound so far when one fails, holds them all or leaves the host as it was
(`Host.bindAll_eq`).  So opening the pair of a record is all or nothing: `Relay.openPair_cases`.
-/

set_option autoImplicit false

namespace GatedRelay

structure Host where
  held : List Socket

namespace Host

def bind (h : Host) (s : Socket) : Except Socket Host := if s ∈ h.held then .error s else .ok ⟨s :: h.held⟩

def drop (h : Host) (s : Socket) : Host := ⟨h.held.erase s⟩

/-- Bind sockets behind some of one's own, the latest first.  On a failure one's own are dropped. -/
def bindAll (h : Host) (own : List Socket) : List Socket → Except Socket (List Socket) × Host
  | [] => (.ok own.reverse, h)
  | s :: rest =>
    match h.bind s with
    | .error s => (.error s, own.foldl drop h)
    | .ok h => h.bindAll (s :: own) rest

theorem foldl_drop (own held : List Socket) : own.foldl drop ⟨own ++ held⟩ = ⟨held⟩ := by
  induction own with
  | nil => rfl
  | cons s rest ih =>
    have hdrop : drop ⟨s :: rest ++ held⟩ s = ⟨rest ++ held⟩ := by
      rw [drop, List.cons_append, List.erase_cons_head]
    rw [List.foldl_cons, hdrop, ih]

theorem bindAll_append (own held wanted : List Socket) :
    bindAll ⟨own ++ held⟩ own wanted = match Socket.bindEach (own ++ held) wanted with
      | .error s => (.error s, ⟨held⟩)
      | .ok bound => (.ok (own.reverse ++ bound), ⟨bound.reverse ++ (own ++ held)⟩) := by
  induction wanted generalizing own with
  | nil => simp [bindAll, Socket.bindEach]
  | cons s rest ih =>
    rw [bindAll, Socket.bindEach, bind]
    by_cases hs : s ∈ own ++ held
    · rw [if_pos hs, if_pos hs]
      simp only [foldl_drop]
    · rw [if_neg hs, if_neg hs]
      have hrest := ih (s :: own)
      rw [List.cons_append] at hrest
      simp only [hrest]
      cases Socket.bindEach (s :: (own ++ held)) rest with
      | error s => rfl
      | ok bound => simp

/-- A row of sockets is bound as a whole, or the host is as before. -/
theorem bindAll_eq (h : Host) (wanted : List Socket) :
    h.bindAll [] wanted = match Socket.bindEach h.held wanted with
      | .error s => (.error s, h)
      | .ok bound => (.ok bound, ⟨bound.reverse ++ h.held⟩) :=
  bindAll_append [] h.held wanted

end Host

/-! ## The ports of a record -/

theorem portNumber?_eq_some_iff {port : Int32} {n : UInt16} :
    portNumber? port = some n ↔ 0 < n.toNat ∧ port.toInt = n.toNat := by
  have hn := n.toNat_lt
  rw [portNumber?]
  split
  · rename_i hrange
    have hport : (UInt16.ofNat port.toInt.toNat).toNat = port.toInt.toNat :=
      UInt16.toNat_ofNat_of_lt (by rw [UInt16.size]; omega)
    rw [Option.some.injEq, ← UInt16.toNat_inj, hport]
    omega
  · constructor
    · intro h
      cases h
    · rintro ⟨_, _⟩
      omega

theorem Credential.ports?_eq_some_iff {c : Credential} {port1 port2 : UInt16} :
    c.ports? = some (port1, port2) ↔ port1 ≠ port2 ∧ (0 < port1.toNat ∧ c.port1.toInt = port1.toNat) ∧
      0 < port2.toNat ∧ c.port2.toInt = port2.toNat := by
  rw [← portNumber?_eq_some_iff, ← portNumber?_eq_some_iff, ports?]
  cases h1 : portNumber? c.port1 with
  | none => simp
  | some n1 =>
    cases h2 : portNumber? c.port2 with
    | none => simp
    | some n2 =>
      by_cases hsame : n1 = n2
      · simp only [if_pos hsame, Option.some.injEq]
        constructor
        · intro h
          cases h
        · rintro ⟨hne, rfl, rfl⟩
          exact absurd hsame hne
      · simp only [if_neg hsame, Option.some.injEq, Prod.mk.injEq]
        constructor
        · rintro ⟨rfl, rfl⟩
          exact ⟨hsame, rfl, rfl⟩
        · rintro ⟨_, rfl, rfl⟩
          exact ⟨rfl, rfl⟩

theorem Socket.nodup_ofPair {port1 port2 : UInt16} (h : port1 ≠ port2) : (ofPair port1 port2).Nodup := by
  simp [ofPair, h]

theorem Socket.mem_ofPair {s : Socket} {port1 port2 : UInt16} :
    s ∈ ofPair port1 port2 ↔ s.port = port1 ∨ s.port = port2 := by
  obtain ⟨protocol, port⟩ := s
  cases protocol <;> simp [ofPair]

/-! ## Opening the pair of a record -/

namespace Relay

variable {r : Relay} {taken : List Socket} {c : Credential} {port1 port2 : UInt16}

structure Opens (r : Relay) (taken : List Socket) (c : Credential) (port1 port2 : UInt16) : Prop where
  ports : c.ports? = some (port1, port2)
  absent : r.pair? port2 = none
  free : ∀ s ∈ Socket.ofPair port1 port2, s ∉ r.bound ++ taken

def Done (r : Relay) (taken : List Socket) (c : Credential) : Prop := ∀ port1 port2, ¬r.Opens taken c port1 port2

def withNew (r : Relay) (c : Credential) (port1 port2 : UInt16) : Relay :=
  { r with
    pairs := r.pairs ++ [r.newPair c port1 port2]
    bound := r.bound ++ Socket.ofPair port1 port2
    journal := .pairAdded port1 port2 :: r.journal }

theorem openPair_of_opens (h : r.Opens taken c port1 port2) :
    r.openPair taken c = (r.withNew c port1 port2, .opened) := by
  have hnodup := Socket.nodup_ofPair (Credential.ports?_eq_some_iff.mp h.ports).1
  have hbind := Socket.bindEach_eq_ok_iff.mpr ⟨rfl, hnodup, h.free⟩
  simp only [openPair, h.ports, h.absent, hbind]
  rfl

/-- A pair is opened with all its sockets, or nothing is changed; a failure is that of binding its sockets. -/
theorem openPair_cases (r : Relay) (taken : List Socket) (c : Credential) :
    (∃ port1 port2, r.Opens taken c port1 port2 ∧ r.openPair taken c = (r.withNew c port1 port2, .opened)) ∨
      r.Done taken c ∧ (r.openPair taken c = (r, .skipped) ∨
        ∃ port1 port2 s, c.ports? = some (port1, port2) ∧
          Socket.bindEach (r.bound ++ taken) (Socket.ofPair port1 port2) = .error s ∧
          r.openPair taken c = (r, .failed ⟨port2, s⟩)) := by
  cases hports : c.ports? with
  | none =>
    refine .inr ⟨fun _ _ h => ?_, .inl (by simp only [openPair, hports])⟩
    cases hports.symm.trans h.ports
  | some ports =>
    obtain ⟨port1, port2⟩ := ports
    have hsame {port1' port2' : UInt16} (h : r.Opens taken c port1' port2') : port1 = port1' ∧ port2 = port2' := by
      cases hports.symm.trans h.ports
      exact ⟨rfl, rfl⟩
    cases hpair : r.pair? port2 with
    | some p =>
      refine .inr ⟨fun _ _ h => ?_, .inl (by simp only [openPair, hports, hpair, Option.isSome_some, if_true])⟩
      obtain ⟨rfl, rfl⟩ := hsame h
      cases hpair.symm.trans h.absent
    | none =>
      cases hbind : Socket.bindEach (r.bound ++ taken) (Socket.ofPair port1 port2) with
      | ok sockets =>
        have hopens : r.Opens taken c port1 port2 := ⟨hports, hpair, (Socket.bindEach_eq_ok_iff.mp hbind).2.2⟩
        exact .inl ⟨port1, port2, hopens, openPair_of_opens hopens⟩
      | error s =>
        refine .inr ⟨fun _ _ h => ?_, .inr ⟨port1, port2, s, rfl, hbind, ?_⟩⟩
        · obtain ⟨rfl, rfl⟩ := hsame h
          have hnodup := Socket.nodup_ofPair (Credential.ports?_eq_some_iff.mp hports).1
          cases hbind.symm.trans (Socket.bindEach_eq_ok_iff.mpr ⟨rfl, hnodup, h.free⟩)
        · simp only [openPair, hports, hpair, hbind]
          rfl

end Relay

end GatedRelay
