import GatedRelay.Record.Basic

/-!
# Sockets

A pair of ports takes four sockets, one for datagrams and one for streams on each of them.  Sockets are bound one after
the other.  When one is held already, those bound just before it are given back, so that binding succeeds as a whole or
leaves nothing behind.
-/

set_option autoImplicit false

namespace GatedRelay

inductive Protocol where
  | udp
  | tcp
  deriving DecidableEq

structure Socket where
  protocol : Protocol
  port : UInt16
  deriving DecidableEq

namespace Socket

def describe (s : Socket) : String :=
  match s.protocol with
  | .udp => s!"UDP port {s.port.toNat}"
  | .tcp => s!"port {s.port.toNat}"

/-- The sockets of a pair, in the order in which they are bound. -/
def ofPair (port1 port2 : UInt16) : List Socket := [⟨.udp, port1⟩, ⟨.udp, port2⟩, ⟨.tcp, port1⟩, ⟨.tcp, port2⟩]

/-- Bind sockets beside those that are held: all of them, or the first that is held already. -/
def bindEach (held : List Socket) : List Socket → Except Socket (List Socket)
  | [] => .ok []
  | s :: rest =>
    if s ∈ held then .error s
    else
      match bindEach (s :: held) rest with
      | .error e => .error e
      | .ok bound => .ok (s :: bound)

theorem bindEach_eq_ok_iff {held wanted bound : List Socket} :
    bindEach held wanted = .ok bound ↔ bound = wanted ∧ wanted.Nodup ∧ ∀ s ∈ wanted, s ∉ held := by
  induction wanted generalizing held bound with
  | nil => simp [bindEach, eq_comm]
  | cons s rest ih =>
    unfold bindEach
    by_cases hs : s ∈ held
    · simp [hs]
    · cases h : bindEach (s :: held) rest with
      | error e =>
        simp only [if_neg hs]
        constructor
        · intro h'
          cases h'
        · rintro ⟨rfl, hnodup, hfree⟩
          obtain ⟨hnotin, hnodup⟩ := List.nodup_cons.mp hnodup
          have hok : bindEach (s :: held) rest = .ok rest := ih.mpr ⟨rfl, hnodup, fun t ht hmem => by
            rcases List.mem_cons.mp hmem with rfl | hmem
            · exact hnotin ht
            · exact hfree t (List.mem_cons_of_mem _ ht) hmem⟩
          rw [hok] at h
          cases h
      | ok b =>
        obtain ⟨rfl, hnodup, hfree⟩ := ih.mp h
        simp only [if_neg hs, Except.ok.injEq]
        constructor
        · rintro rfl
          refine ⟨rfl, List.nodup_cons.mpr ⟨fun ht => hfree s ht List.mem_cons_self, hnodup⟩, fun t ht => ?_⟩
          rcases List.mem_cons.mp ht with rfl | ht
          · exact hs
          · exact fun hmem => hfree t ht (List.mem_cons_of_mem _ hmem)
        · rintro ⟨rfl, -, -⟩
          rfl

end Socket

def portNumber? (port : Int32) : Option UInt16 :=
  if 0 < port.toInt ∧ port.toInt < 0x10000 then some (UInt16.ofNat port.toInt.toNat) else none

/-- The ports of a record, if a pair can be opened on them: two different ones. -/
def Credential.ports? (r : Credential) : Option (UInt16 × UInt16) :=
  match portNumber? r.port1, portNumber? r.port2 with
  | some port1, some port2 => if port1 = port2 then none else some (port1, port2)
  | _, _ => none

end GatedRelay
