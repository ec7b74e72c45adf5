import GatedRelay.Proofs.Pair.Books
import GatedRelay.Proofs.Store.Records

/-!
# What a pair writes

Posting changes the store as the request says and nothing else, but for a line in the log when the store does not run.
The clock of the key goes into the record of the pair if it is ahead of what was written last.
-/

set_option autoImplicit false

namespace GatedRelay.Pair

theorem post_eq (p : Pair) (request : Request) :
    ∃ es, (∀ e ∈ es, e = .logged .writeDropped) ∧
      p.post request = { p with store := p.store.post request, history := es ++ p.history } := by
  unfold post
  split
  · exact ⟨[], by simp, rfl⟩
  · rename_i hstopped
    refine ⟨[.logged .writeDropped], by simp, ?_⟩
    have hstore : p.store.post request = p.store := by rw [Service.post, Service.write, if_neg hstopped]
    rw [hstore]
    rfl

/-- The clock is written if it is ahead of what was written last. -/
theorem saveClock_cases (p : Pair) :
    (p.saveClock = p ∧ ∀ k, p.key = some k → k.clock ≤ p.savedClock) ∨
      ∃ k es, p.key = some k ∧ p.savedClock < k.clock ∧ (∀ e ∈ es, e = .logged .writeDropped) ∧
        p.saveClock = { p with
          store := p.store.post (.advanceTimestamp p.recordPort k.clock)
          savedClock := k.clock
          history := es ++ p.history } := by
  unfold saveClock
  split
  · rename_i hk
    exact .inl ⟨rfl, fun k hk' => by rw [hk] at hk'; cases hk'⟩
  · rename_i k hk
    split
    · rename_i hle
      exact .inl ⟨rfl, fun k' hk' => by rw [hk] at hk'; cases hk'; exact hle⟩
    · rename_i hlt
      obtain ⟨es, hes, heq⟩ := p.post_eq (.advanceTimestamp p.recordPort k.clock)
      refine .inr ⟨k, es, hk, UInt64.not_le.mp hlt, hes, ?_⟩
      rw [heq]

/-- Writing the clock leaves the store as able to write as before, and a clock that is ahead in the record. -/
theorem canChange_saveClock {p : Pair} (h : p.store.CanChange p.recordPort) {k : SigningKey} (hk : p.key = some k)
    {r : Credential} (hr : p.store.database.entries.fetch? p.recordPort = some r) :
    p.saveClock.store.CanChange p.recordPort ∧
      p.saveClock.store.database.entries.fetch? p.recordPort =
        some (if p.savedClock < k.clock then r.advance k.clock else r) := by
  rcases p.saveClock_cases with ⟨heq, hle⟩ | ⟨k', es, hk', hlt, _, heq⟩
  · rw [heq, if_neg (UInt64.not_lt.mpr (hle k hk))]
    exact ⟨h, hr⟩
  · obtain rfl := Option.some.inj (hk.symm.trans hk')
    have hupdates := updates_advanceTimestamp p.recordPort k.clock
    rw [heq, if_pos hlt]
    exact Service.post_of_canChange h hupdates hr rfl rfl rfl

/-- Whether the clock is written or not, only the timestamp of the record can differ. -/
theorem retimed_saveClock {p : Pair} (h : p.store.CanChange p.recordPort) {k : SigningKey} (hk : p.key = some k)
    {r : Credential} (hr : p.store.database.entries.fetch? p.recordPort = some r) :
    p.saveClock.store.CanChange p.recordPort ∧
      ∃ timestamp, p.saveClock.store.database.entries.fetch? p.recordPort =
        some { r with timestamp := timestamp } := by
  obtain ⟨hcan, hfetch⟩ := canChange_saveClock h hk hr
  refine ⟨hcan, ?_⟩
  split at hfetch
  · exact ⟨_, hfetch⟩
  · exact ⟨r.timestamp, hfetch⟩

theorem store_saveClock_of_not_canChange {p : Pair} (h : ¬p.store.CanChange p.recordPort) :
    p.saveClock.store = p.store := by
  rcases p.saveClock_cases with ⟨heq, _⟩ | ⟨k, es, _, _, _, heq⟩
  · rw [heq]
  · rw [heq]
    exact Service.post_of_not_canChange h (updates_advanceTimestamp p.recordPort k.clock)

theorem history_saveClock (p : Pair) :
    ∃ es, (∀ e ∈ es, e = .logged .writeDropped) ∧ p.saveClock.history = es ++ p.history := by
  rcases p.saveClock_cases with ⟨heq, _⟩ | ⟨_, es, _, _, hes, heq⟩
  · exact ⟨[], by simp, by rw [heq]; rfl⟩
  · exact ⟨es, hes, by rw [heq]⟩

theorem store_rotateKey (p : Pair) (m : Moment) (request : SetupSigning) :
    (p.rotateKey m request).store =
      p.store.post (.setSigningKey p.recordPort request.secret request.initialTimestamp) := by
  unfold rotateKey Service.post
  split
  · rename_i heq
    rw [heq]
    rfl
  · rename_i heq
    rw [heq]
    rfl

end GatedRelay.Pair
