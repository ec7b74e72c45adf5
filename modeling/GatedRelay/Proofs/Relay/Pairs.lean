import GatedRelay.Proofs.Pair.Moves
import GatedRelay.Proofs.Pair.Operations
import GatedRelay.Proofs.Relay.Scans
import GatedRelay.Relay.Start

/-!
# Open pairs do not collide

A relay that has started holds the sockets of its open pairs, and no port belongs to two of them.  That stays so
whatever becomes of the store, in all that happens in the pairs and in every reload.  A pair keeps its ports for good.
-/

set_option autoImplicit false

namespace GatedRelay

/-! ## The ports of a pair -/

namespace Pair

def ports (p : Pair) : UInt16 × UInt16 := (p.port1, p.port2)

theorem Booked.ports {p q : Pair} (h : p.Booked q) : q.ports = p.ports := by
  obtain ⟨_, _, _, rfl, _⟩ := h
  rfl

theorem ports_act (p : Pair) (b : Moment × Move) : (p.act b).ports = p.ports := by
  obtain ⟨m, move⟩ := b
  cases move with
  | connect role transport peer =>
    rcases p.connect_cases m role transport peer with ⟨_, hq⟩ | ⟨a, q, key, _, hconnect, hq, _⟩
    · exact hq.ports
    · simp only [act, hconnect]
      exact hq.ports
  | established id =>
    rcases p.booked_established m id with hq | hq
    · exact hq.ports
    · exact hq.ports
  | userFrame f =>
    simp only [act, fromUser_eq]
    rfl
  | engineerFrame id f =>
    cases hs : p.slots.find? id with
    | none => simp only [act, fromEngineer, hs]
    | some s =>
      obtain ⟨_, _, _, _, ⟨heq, _⟩ | ⟨heq, _⟩⟩ := fromEngineer_cases hs m f
      · simp only [act, heq]
        rfl
      · simp only [act, heq]
        rfl
  | disconnected id => exact (p.booked_closeSlot id).ports
  | sweep =>
    obtain ⟨q, key, hq, hsweep, _⟩ := p.sweep_cases m
    simp only [act, hsweep]
    exact hq.ports
  | quit => exact p.booked_shutdown.ports
  | refuse | welcome | arrival | storeChange => rfl

theorem ports_replay (p : Pair) (moves : List (Moment × Move)) : (p.replay moves).ports = p.ports := by
  induction moves generalizing p with
  | nil => rfl
  | cons b rest ih => rw [replay_cons, ih, ports_act]

theorem ports_step (p : Pair) (m : Moment) (e : Event) : (p.step m e).ports = p.ports := by
  rw [← replay_moves, ports_replay]

end Pair

namespace Relay

variable {r r' : Relay} {taken : List Socket} {c : Credential} {port1 port2 : UInt16}

def portPairs (r : Relay) : List (UInt16 × UInt16) := r.pairs.map Pair.ports

structure Orderly (r : Relay) : Prop where
  usable : ∀ q ∈ r.portPairs, (1 ≤ q.1.toNat ∧ q.1.toNat ≤ 65535) ∧ (1 ≤ q.2.toNat ∧ q.2.toNat ≤ 65535) ∧ q.1 ≠ q.2
  apart : r.portPairs.Pairwise fun q q' => [q.1, q.2].Disjoint [q'.1, q'.2]
  bound : r.bound = r.portPairs.flatMap fun q => Socket.ofPair q.1 q.2

namespace Orderly

theorem of_same (h : r.Orderly) (hports : r'.portPairs = r.portPairs) (hbound : r'.bound = r.bound) :
    r'.Orderly where
  usable := hports ▸ h.usable
  apart := hports ▸ h.apart
  bound := by rw [hbound, hports, h.bound]

theorem nodup (h : r.Orderly) : (r.pairs.map (·.port2)).Nodup := by
  have happart := h.apart
  rw [portPairs, List.pairwise_map] at happart
  rw [List.Nodup, List.pairwise_map]
  have hmem (p : Pair) : p.port2 ∈ [p.ports.1, p.ports.2] := by simp [Pair.ports]
  refine happart.imp @fun p q hdisjoint hsame => hdisjoint (hmem p) ?_
  rw [hsame]
  exact hmem q

theorem pair?_eq (h : r.Orderly) {p : Pair} (hp : p ∈ r.pairs) : r.pair? p.port2 = some p := by
  cases hfound : r.pair? p.port2 with
  | none => exact absurd (decide_eq_true rfl) (List.find?_eq_none.mp hfound p hp)
  | some q =>
    have hport : q.port2 = p.port2 := by simpa using List.find?_some hfound
    rw [List.inj_on_of_nodup_map h.nodup (List.mem_of_find?_eq_some hfound) hp hport]

theorem withNew (h : r.Orderly) (hopens : r.Opens taken c port1 port2) : (r.withNew c port1 port2).Orderly := by
  obtain ⟨hne, ⟨hpos1, _⟩, hpos2, _⟩ := Credential.ports?_eq_some_iff.mp hopens.ports
  have hports : (r.withNew c port1 port2).portPairs = r.portPairs ++ [(port1, port2)] := List.map_append
  have hlt1 := port1.toNat_lt
  have hlt2 := port2.toNat_lt
  constructor
  · intro q hq
    rw [hports] at hq
    rcases List.mem_append.mp hq with hq | hq
    · exact h.usable q hq
    · rw [List.mem_singleton.mp hq]
      exact ⟨⟨hpos1, Nat.le_of_lt_succ hlt1⟩, ⟨hpos2, Nat.le_of_lt_succ hlt2⟩, hne⟩
  · rw [hports, List.pairwise_append]
    refine ⟨h.apart, List.pairwise_singleton _ _, fun q hq q' hq' port hport hport' => ?_⟩
    rw [List.mem_singleton.mp hq'] at hport'
    have hnew : (⟨.udp, port⟩ : Socket) ∈ Socket.ofPair port1 port2 := Socket.mem_ofPair.mpr (by simpa using hport')
    have hheld : (⟨.udp, port⟩ : Socket) ∈ r.bound := by
      rw [h.bound, List.mem_flatMap]
      exact ⟨q, hq, Socket.mem_ofPair.mpr (by simpa using hport)⟩
    exact hopens.free _ hnew (List.mem_append_left _ hheld)
  · rw [hports, List.flatMap_append, ← h.bound]
    simp [Relay.withNew]

theorem openEach (h : r.Orderly) (records : List Credential) : (r.openEach taken records).1.Orderly :=
  openEach_induct (fun _ _ h => h.of_same rfl rfl) (fun _ _ _ _ hopens h => h.withNew hopens) records h

theorem openAll (h : r.Orderly) {records : List Credential} : (r.openAll taken records).1.Orderly := by
  induction records generalizing r with
  | nil => exact h
  | cons c rest ih =>
    rw [Relay.openAll]
    rcases r.openPair_cases taken c with ⟨_, _, hopens, heq⟩ | ⟨_, hskip | ⟨_, _, _, _, _, hfail⟩⟩
    · rw [heq]
      exact ih (h.withNew hopens)
    · rw [hskip]
      exact ih h
    · rw [hfail]
      exact h

end Orderly

/-! ## Reloading -/

theorem reload_of_ok {records : List Credential} (h : r.store.loadAll = .ok records) (taken : List Socket) :
    ∃ journal, r.reload taken =
      ((r.openEach taken records).1.noting journal, .ok (r.openEach taken records).2) := by
  simp only [reload, h]
  split
  · exact ⟨_, rfl⟩
  · exact ⟨(r.openEach taken records).1.journal, rfl⟩

theorem reload_of_error {e : StoreError} (h : r.store.loadAll = .error e) (taken : List Socket) :
    r.reload taken = (r, .error e) := by
  simp only [reload, h]

structure Reloads (r : Relay) (taken : List Socket) : Prop where
  unread : ∀ e, r.store.loadAll = .error e → r.reload taken = (r, .error e)
  /-- Open pairs stay as they are, and those that are opened behind them are counted. -/
  counted : ∀ records, r.store.loadAll = .ok records → ∃ opened, (r.reload taken).1.pairs = r.pairs ++ opened ∧
    (r.reload taken).2 = .ok opened.length ∧
    ∀ p ∈ opened, ∃ c ∈ records, c.port1.toInt = p.port1.toNat ∧ c.port2.toInt = p.port2.toNat ∧
      p = r.newPair c p.port1 p.port2
  /-- A record whose sockets cannot be bound changes neither the relay nor the host, and the others are opened as if it
  were not there. -/
  failing : ∀ front c rest e, r.store.loadAll = .ok (front ++ c :: rest) →
    ((r.openEach taken front).1.openPair taken c).2 = .failed e →
      ((r.openEach taken front).1.openPair taken c).1 = (r.openEach taken front).1 ∧
      (∃ port1 port2, c.ports? = some (port1, port2) ∧
        Host.bindAll ⟨(r.openEach taken front).1.bound ++ taken⟩ [] (Socket.ofPair port1 port2) =
          (.error e.socket, ⟨(r.openEach taken front).1.bound ++ taken⟩)) ∧
      ∃ journal, r.reload taken =
        ((r.openEach taken (front ++ rest)).1.noting journal, .ok (r.openEach taken (front ++ rest)).2)
  again : ∀ records, r.store.loadAll = .ok records →
    ∃ journal, (r.reload taken).1.reload taken = ((r.reload taken).1.noting journal, .ok 0)

theorem reloads (r : Relay) (taken : List Socket) : r.Reloads taken where
  unread _ h := reload_of_error h taken
  counted records h := by
    obtain ⟨journal, hreload⟩ := reload_of_ok h taken
    obtain ⟨opened, hextends, hcount⟩ := r.openEach_extends taken records
    refine ⟨opened, ?_, ?_, fun p hp => ?_⟩
    · rw [hreload]
      exact hextends.pairs
    · rw [hreload, hcount]
    · obtain ⟨c, hc, hports, hfresh⟩ := hextends.fresh p hp
      obtain ⟨_, ⟨_, hport1⟩, _, hport2⟩ := Credential.ports?_eq_some_iff.mp hports
      exact ⟨c, hc, hport1, hport2, hfresh⟩
  failing front c rest e h hfailed := by
    rcases (r.openEach taken front).1.openPair_cases taken c with
      ⟨_, _, _, hopened⟩ | ⟨hdone, hskipped | ⟨port1, port2, s, hports, hbind, heq⟩⟩
    · rw [hopened] at hfailed
      cases hfailed
    · rw [hskipped] at hfailed
      cases hfailed
    · rw [heq] at hfailed
      cases hfailed
      obtain ⟨journal, hreload⟩ := reload_of_ok h taken
      obtain ⟨after, hskip⟩ := openEach_skip hdone rest
      refine ⟨by rw [heq], ⟨port1, port2, hports, ?_⟩, journal, ?_⟩
      · rw [Host.bindAll_eq, hbind]
      · rw [hreload, hskip]
        rfl
  again records h := by
    obtain ⟨journal, hreload⟩ := reload_of_ok h taken
    obtain ⟨opened, hextends, _⟩ := r.openEach_extends taken records
    have hload : ((r.openEach taken records).1.noting journal).store.loadAll = .ok records := by
      rw [← h, ← hextends.store]
      rfl
    have hdone : ∀ c ∈ records, ((r.openEach taken records).1.noting journal).Done taken c :=
      fun c hc => (r.done_openEach taken records c hc).noting journal
    obtain ⟨_, hidle⟩ := openEach_of_done hdone
    obtain ⟨after, hagain⟩ := reload_of_ok hload taken
    rw [hidle] at hagain
    rw [hreload]
    exact ⟨after, hagain⟩

/-! ## Runs -/

inductive Act where
  | restore (store : Service)
  /-- Others may hold other sockets at every reload. -/
  | reload (taken : List Socket)
  | event (m : Moment) (port2 : UInt16) (e : Event)

def act (r : Relay) : Act → Relay
  | .restore store => { r with store := store }
  | .reload taken => (r.reload taken).1
  | .event m port2 e => r.step m port2 e

def run (r : Relay) (acts : List Act) : Relay := acts.foldl act r

theorem Orderly.step (h : r.Orderly) (m : Moment) (port2 : UInt16) (e : Event) : (r.step m port2 e).Orderly := by
  cases hp : r.pair? port2 with
  | none =>
    rw [Relay.step, hp]
    exact h
  | some p =>
    have hport : p.port2 = port2 := by simpa using List.find?_some hp
    refine h.of_same ?_ (by rw [Relay.step, hp])
    simp only [portPairs, Relay.step, hp, List.map_map]
    apply List.map_congr_left
    intro q hq
    by_cases hsame : q.port2 = port2
    · have hfound := h.pair?_eq hq
      rw [hsame, hp] at hfound
      obtain rfl := Option.some.inj hfound
      simp only [Function.comp_apply, if_pos hport, Pair.ports_step]
      rfl
    · simp only [Function.comp_apply, if_neg hsame]

theorem Orderly.act (h : r.Orderly) (a : Act) : (r.act a).Orderly := by
  cases a with
  | restore store => exact h.of_same rfl rfl
  | reload taken =>
    cases hload : r.store.loadAll with
    | error e =>
      rw [Relay.act, reload_of_error hload]
      exact h
    | ok records =>
      obtain ⟨journal, hreload⟩ := reload_of_ok hload taken
      rw [Relay.act, hreload]
      exact (h.openEach records).of_same rfl rfl
  | event m port2 e => exact h.step m port2 e

theorem Orderly.run (h : r.Orderly) (acts : List Act) : (r.run acts).Orderly := by
  induction acts generalizing r with
  | nil => exact h
  | cons a rest ih => exact ih (h.act a)

theorem orderly_start {config : RelayConfig} {identity : Except IdentityError (Option Identity)} {store : Service}
    (h : start config identity store taken = (r, none)) : r.Orderly := by
  have hempty (config : RelayConfig) : Orderly ({ config := config, store := store : Relay }.log .opening) :=
    ⟨nofun, .nil, rfl⟩
  cases identity with
  | error e => cases h
  | ok identity =>
    cases hload : store.loadAll with
    | error e =>
      simp only [start, hload] at h
      cases h
    | ok records =>
      have hall : (openAll _ taken records).1.Orderly := (hempty { config with secure := identity.isSome }).openAll
      simp only [start, hload] at h
      generalize openAll _ taken records = opened at h hall
      obtain ⟨after, _ | e⟩ := opened
      · cases h
        exact hall.of_same rfl rfl
      · cases h

/-- The pairs of a relay that has started never collide, and every reload keeps those that are open. -/
theorem pairs_never_collide {config : RelayConfig} {identity : Except IdentityError (Option Identity)}
    {store : Service} (h : start config identity store taken = (r, none)) (acts : List Act) :
    (r.run acts).Orderly ∧ (∀ p ∈ (r.run acts).pairs, (r.run acts).pair? p.port2 = some p) ∧
      ∀ taken, (r.run acts).Reloads taken := by
  have horderly := (orderly_start h).run acts
  exact ⟨horderly, fun _ hp => horderly.pair?_eq hp, (r.run acts).reloads⟩

def storing (ports : List (Int32 × Int32)) : Service :=
  { database := { entries := ports.foldl (fun e p => e.save { port1 := p.1, port2 := p.2 }) .empty } }

/-- Of three new records one asks for a port that is in use and one for a port that does not exist. -/
def growth : List Act := [.restore (storing [(1, 2), (2, 3), (-1, 4), (5, 6)]), .reload []]

theorem pairs_never_collide_growth :
    let r := (start { } (.ok none) (storing [(1, 2)]) []).1
    start { } (.ok none) (storing [(1, 2)]) [] = (r, none) ∧ (r.run growth).portPairs = [(1, 2), (5, 6)] ∧
      (r.run growth).Orderly ∧ (∀ p ∈ (r.run growth).pairs, (r.run growth).pair? p.port2 = some p) ∧
      ∀ taken, (r.run growth).Reloads taken := by
  have hnone : (start { } (.ok none) (storing [(1, 2)]) []).2 = none := by decide +kernel
  have hstart : start { } (.ok none) (storing [(1, 2)]) [] = ((start { } (.ok none) (storing [(1, 2)]) []).1, none) :=
    Prod.ext rfl hnone
  exact ⟨hstart, by decide +kernel, pairs_never_collide hstart growth⟩

end Relay

end GatedRelay
