import GatedRelay.Proofs.Relay.Sockets

/-!
# What a scan of the store opens

A scan goes through the records once.  It adds pairs behind those that are open and counts them, and a record that
fails makes no difference to the others.  After it there is nothing left to open for any record, so that a second scan
opens nothing.
-/

set_option autoImplicit false

namespace GatedRelay.Relay

variable {r r' : Relay} {taken : List Socket} {c : Credential} {port1 port2 : UInt16}

def noting (r : Relay) (journal : List RelayEntry) : Relay := { r with journal := journal }

theorem opens_noting {journal : List RelayEntry} :
    (r.noting journal).Opens taken c port1 port2 ↔ r.Opens taken c port1 port2 :=
  ⟨fun h => ⟨h.ports, h.absent, h.free⟩, fun h => ⟨h.ports, h.absent, h.free⟩⟩

theorem Done.noting (h : r.Done taken c) (journal : List RelayEntry) : (r.noting journal).Done taken c :=
  fun port1 port2 hopens => h port1 port2 (opens_noting.mp hopens)

theorem opens_or_done (r : Relay) (taken : List Socket) (c : Credential) :
    (∃ port1 port2, r.Opens taken c port1 port2) ∨ r.Done taken c := by
  by_cases h : ∃ port1 port2, r.Opens taken c port1 port2
  · exact .inl h
  · exact .inr fun port1 port2 hopens => h ⟨port1, port2, hopens⟩

/-! ## Record by record -/

theorem openEach_of_opens (h : r.Opens taken c port1 port2) (rest : List Credential) :
    r.openEach taken (c :: rest) =
      (((r.withNew c port1 port2).openEach taken rest).1, ((r.withNew c port1 port2).openEach taken rest).2 + 1) := by
  rw [openEach, openPair_of_opens h]

theorem openEach_of_done_cons (h : r.Done taken c) :
    ∃ journal, ∀ rest, r.openEach taken (c :: rest) = (r.noting journal).openEach taken rest := by
  simp only [openEach]
  rcases r.openPair_cases taken c with ⟨port1, port2, hopens, _⟩ | ⟨_, hskip | ⟨port1, port2, s, _, _, hfail⟩⟩
  · exact absurd hopens (h port1 port2)
  · rw [hskip]
    exact ⟨r.journal, fun _ => rfl⟩
  · rw [hfail]
    exact ⟨.pairNotAdded :: r.journal, fun _ => rfl⟩

theorem openEach_induct {P : Relay → Prop} (hnoting : ∀ r journal, P r → P (r.noting journal))
    (hopen : ∀ r c port1 port2, r.Opens taken c port1 port2 → P r → P (r.withNew c port1 port2))
    (records : List Credential) (h : P r) : P (r.openEach taken records).1 := by
  induction records generalizing r with
  | nil => exact h
  | cons c rest ih =>
    rcases r.opens_or_done taken c with ⟨port1, port2, hopens⟩ | hdone
    · rw [openEach_of_opens hopens]
      exact ih (hopen r c port1 port2 hopens h)
    · obtain ⟨journal, heq⟩ := openEach_of_done_cons hdone
      rw [heq]
      exact ih (hnoting r journal h)

theorem openEach_append (r : Relay) (taken : List Socket) (front rest : List Credential) :
    r.openEach taken (front ++ rest) =
      (((r.openEach taken front).1.openEach taken rest).1,
        (r.openEach taken front).2 + ((r.openEach taken front).1.openEach taken rest).2) := by
  induction front generalizing r with
  | nil => simp [openEach]
  | cons c front ih =>
    rw [List.cons_append]
    rcases r.opens_or_done taken c with ⟨port1, port2, hopens⟩ | hdone
    · rw [openEach_of_opens hopens, openEach_of_opens hopens, ih]
      simp only [Prod.mk.injEq, true_and]
      omega
    · obtain ⟨journal, heq⟩ := openEach_of_done_cons hdone
      rw [heq, heq, ih]

theorem openEach_noting (r : Relay) (taken : List Socket) (journal : List RelayEntry) (records : List Credential) :
    ∃ after, (r.noting journal).openEach taken records =
      ((r.openEach taken records).1.noting after, (r.openEach taken records).2) := by
  induction records generalizing r journal with
  | nil => exact ⟨journal, rfl⟩
  | cons c rest ih =>
    rcases r.opens_or_done taken c with ⟨port1, port2, hopens⟩ | hdone
    · rw [openEach_of_opens hopens, openEach_of_opens (opens_noting.mpr hopens)]
      obtain ⟨after, hafter⟩ := ih (r.withNew c port1 port2) (.pairAdded port1 port2 :: journal)
      exact ⟨after, congrArg (fun x => (x.1, x.2 + 1)) hafter⟩
    · obtain ⟨first, hfirst⟩ := openEach_of_done_cons hdone
      obtain ⟨second, hsecond⟩ := openEach_of_done_cons (hdone.noting journal)
      obtain ⟨after, hafter⟩ := ih r first
      obtain ⟨after', hafter'⟩ := ih r second
      rw [hfirst, hsecond, hafter]
      exact ⟨after', hafter'⟩

/-- A record for which nothing is opened might as well not be there. -/
theorem openEach_skip {front : List Credential} (h : (r.openEach taken front).1.Done taken c)
    (rest : List Credential) : ∃ after, r.openEach taken (front ++ c :: rest) =
      ((r.openEach taken (front ++ rest)).1.noting after, (r.openEach taken (front ++ rest)).2) := by
  obtain ⟨journal, heq⟩ := openEach_of_done_cons h
  obtain ⟨after, hafter⟩ := openEach_noting (r.openEach taken front).1 taken journal rest
  refine ⟨after, ?_⟩
  rw [openEach_append, openEach_append, heq, hafter]

/-! ## What is added -/

structure Extends (r r' : Relay) (records : List Credential) (opened : List Pair) : Prop where
  store : r'.store = r.store
  pairs : r'.pairs = r.pairs ++ opened
  bound : r'.bound = r.bound ++ opened.flatMap fun p => Socket.ofPair p.port1 p.port2
  fresh : ∀ p ∈ opened, ∃ c ∈ records, c.ports? = some (p.port1, p.port2) ∧ p = r.newPair c p.port1 p.port2

theorem openEach_extends (r : Relay) (taken : List Socket) (records : List Credential) :
    ∃ opened, r.Extends (r.openEach taken records).1 records opened ∧
      (r.openEach taken records).2 = opened.length := by
  induction records generalizing r with
  | nil => exact ⟨[], ⟨rfl, by simp [openEach], by simp [openEach], nofun⟩, rfl⟩
  | cons c rest ih =>
    have hmore {opened : List Pair}
        (h : ∀ p ∈ opened, ∃ c ∈ rest, c.ports? = some (p.port1, p.port2) ∧ p = r.newPair c p.port1 p.port2) :
        ∀ p ∈ opened, ∃ d ∈ c :: rest, d.ports? = some (p.port1, p.port2) ∧ p = r.newPair d p.port1 p.port2 := by
      intro p hp
      obtain ⟨d, hd, hfresh⟩ := h p hp
      exact ⟨d, List.mem_cons_of_mem c hd, hfresh⟩
    rcases r.opens_or_done taken c with ⟨port1, port2, hopens⟩ | hdone
    · rw [openEach_of_opens hopens]
      obtain ⟨opened, hextends, hcount⟩ := ih (r.withNew c port1 port2)
      refine ⟨r.newPair c port1 port2 :: opened, ⟨hextends.store, ?_, ?_, ?_⟩, by simp [hcount]⟩
      · rw [hextends.pairs, withNew, List.append_assoc, List.singleton_append]
      · rw [hextends.bound, withNew, List.flatMap_cons, List.append_assoc]
        rfl
      · intro p hp
        rcases List.mem_cons.mp hp with rfl | hp
        · exact ⟨c, List.mem_cons_self, hopens.ports, rfl⟩
        · exact hmore hextends.fresh p hp
    · obtain ⟨journal, heq⟩ := openEach_of_done_cons hdone
      rw [heq]
      obtain ⟨opened, hextends, hcount⟩ := ih (r.noting journal)
      exact ⟨opened, ⟨hextends.store, hextends.pairs, hextends.bound, hmore hextends.fresh⟩, hcount⟩

/-! ## A second scan -/

theorem Done.extends {records : List Credential} {opened : List Pair} (h : r.Done taken c)
    (hextends : r.Extends r' records opened) : r'.Done taken c := by
  intro port1 port2 hopens
  refine h port1 port2 ⟨hopens.ports, ?_, fun s hs hheld => hopens.free s hs ?_⟩
  · have habsent := hopens.absent
    rw [pair?, hextends.pairs, List.find?_append, Option.or_eq_none_iff] at habsent
    exact habsent.1
  · rw [hextends.bound]
    rcases List.mem_append.mp hheld with hheld | hheld
    · exact List.mem_append_left _ (List.mem_append_left _ hheld)
    · exact List.mem_append_right _ hheld

theorem done_withNew (h : r.Opens taken c port1 port2) : (r.withNew c port1 port2).Done taken c := by
  intro port1' port2' hopens
  cases h.ports.symm.trans hopens.ports
  have habsent := hopens.absent
  rw [pair?, List.find?_eq_none] at habsent
  exact habsent (r.newPair c port1 port2) (List.mem_append_right _ List.mem_cons_self) (decide_eq_true rfl)

/-- After a scan there is nothing left to open. -/
theorem done_openEach (r : Relay) (taken : List Socket) (records : List Credential) :
    ∀ c ∈ records, (r.openEach taken records).1.Done taken c := by
  induction records generalizing r with
  | nil => nofun
  | cons c rest ih =>
    intro d hd
    rcases r.opens_or_done taken c with ⟨port1, port2, hopens⟩ | hdone
    · rw [openEach_of_opens hopens]
      obtain ⟨opened, hextends, _⟩ := (r.withNew c port1 port2).openEach_extends taken rest
      rcases List.mem_cons.mp hd with rfl | hd
      · exact (done_withNew hopens).extends hextends
      · exact ih _ d hd
    · obtain ⟨journal, heq⟩ := openEach_of_done_cons hdone
      rw [heq]
      obtain ⟨opened, hextends, _⟩ := (r.noting journal).openEach_extends taken rest
      rcases List.mem_cons.mp hd with rfl | hd
      · exact (hdone.noting journal).extends hextends
      · exact ih _ d hd

theorem openEach_of_done {records : List Credential} (h : ∀ c ∈ records, r.Done taken c) :
    ∃ journal, r.openEach taken records = (r.noting journal, 0) := by
  induction records generalizing r with
  | nil => exact ⟨r.journal, rfl⟩
  | cons c rest ih =>
    obtain ⟨journal, heq⟩ := openEach_of_done_cons (h c List.mem_cons_self)
    obtain ⟨after, hafter⟩ := ih fun d hd => (h d (List.mem_cons_of_mem c hd)).noting journal
    exact ⟨after, (heq rest).trans hafter⟩

end GatedRelay.Relay
