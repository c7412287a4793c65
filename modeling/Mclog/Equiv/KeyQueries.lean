import Mclog.Equiv.MulticastSource

/-!
# How often a source queries for its key

`ProcessPacket` compares the time the key was last updated before it starts a query.  What it reads
is a copy of a key that was discarded just before, and neither has the time: the comparison is one
of the clock with the epoch.  So a query is started whenever none is running (`rateLimited_iff`),
and `Key()` gives back the times of no key that a `KeyRequester` made.
-/

namespace Mclog

open General

namespace MulticastSource

/-! ### The query thread's phases -/

/-- A step of the query thread, as the flag and the key tell. -/
def QueryPhase.next : QueryPhase → QueryStep → QueryPhase
  | .asking, .store _ => .stored
  | .stored, .setDone => .done
  | phase, _ => phase

theorem query_queryStep (s : MulticastSource) (q : QueryStep) :
    (s.queryStep q).query = QueryPhase.next s.query q := by
  obtain ⟨key, backlog, query, lastReceiveTime⟩ := s
  cases q <;> cases query <;> rfl

theorem query_queryRuns (s : MulticastSource) (qs : List QueryStep) :
    (s.queryRuns qs).query = qs.foldl QueryPhase.next s.query := by
  induction qs generalizing s with
  | nil => rfl
  | cons q qs ih =>
    rw [List.foldl_cons, ← query_queryStep]
    exact ih _

@[simp] theorem query_arrive (s : MulticastSource) (a : Arrival) :
    (s.arrive a).query = a.beforeKey.foldl QueryPhase.next s.query := by
  unfold arrive
  rw [query_queryRuns]

section

variable (io : StreamIO) (aead : Aead)

theorem query_of_processBacklog {s s' : MulticastSource} {msgs : List Message}
    (h : s.processBacklog io aead = some (s', msgs)) : s'.query = s.query := by
  unfold processBacklog at h
  dsimp only at h
  split_ifs at h
  · obtain ⟨out, -, heq⟩ := Option.bind_eq_some_iff.mp h
    rw [← (Prod.mk.inj (Option.some.inj heq)).1]
  · rw [(Prod.mk.inj (Option.some.inj h)).1]

/-! ### Starting a query -/

/-- The datagram does not decrypt with the key that is read first.  `s'` is the source by then, and
    `data` what is left of the datagram. -/
def Undecryptable (s : MulticastSource) (a : Arrival) (s' : MulticastSource) (data : Str) : Prop :=
  (s.arrive a).key.value ≠ [] ∧
    ∃ msgs decrc out,
      ((s.arrive a).queryRuns a.beforeBacklog).processBacklog io aead = some (s', msgs) ∧
        openPacket io aead (s.arrive a).key.value a.datagram = some (decrc, out, data) ∧
          ¬decrc > 0

/-- The source when the last update is compared. -/
def discarded (s : MulticastSource) (a : Arrival) (data : Str) : MulticastSource :=
  let s := s.queryRuns a.beforeDiscard
  { s with
    key := { value := [] }
    backlog := s.backlog.pushBack ⟨a.bufferTime, data⟩ }.queryRuns a.beforeUpdated

theorem discardKey_eq (s : MulticastSource) (a : Arrival) (data : Str) :
    s.discardKey a data =
      if (s.discarded a data).key.copy.lastUpdated < a.expireTime - seconds 5 then
        ((s.discarded a data).queryRuns a.beforeStart).startQuery
      else
        s.discarded a data := rfl

/-- The datagram does not decrypt, and `StartQuery` is called with `_queryDone` set: it starts a
    thread. -/
def StartsQuery (s : MulticastSource) (a : Arrival) : Prop :=
  ∃ s' data, Undecryptable io aead s a s' data ∧
    (s'.discarded a data).key.copy.lastUpdated < a.expireTime - seconds 5 ∧
    ((s'.discarded a data).queryRuns a.beforeStart).query = .done

/-- The thread that is started is there after the call. -/
theorem asking_of_startsQuery {s : MulticastSource} {a : Arrival}
    (h : StartsQuery io aead s a) :
    ∃ s₁ msgs, s.processPacket io aead a = some (false, s₁, msgs) ∧ s₁.query = .asking := by
  obtain ⟨s', data, ⟨hkey, msgs, decrc, out, hbacklog, hopen, hrc⟩, hlate, hdone⟩ := h
  refine ⟨(s'.discardKey a data).clearOldBacklog a.clearTime, msgs, ?_, ?_⟩
  · rw [processPacket_of_key io aead s a hkey, hbacklog, hopen]
    simp only [Option.bind_some, Option.map_some, if_neg hrc]
  · show (s'.discardKey a data).query = .asking
    rw [discardKey_eq, if_pos hlate]
    unfold startQuery
    rw [if_pos hdone]

/-- A query is only started when the key that does not decrypt the datagram was updated more than 5
    seconds ago. -/
def RateLimited (s : MulticastSource) (a : Arrival) : Prop :=
  StartsQuery io aead s a → seconds 5 < a.expireTime - (s.arrive a).key.lastUpdated

/-- The datagram decrypts, or there is no key to decrypt it with; or it is within 5 seconds of the
    epoch, a query is running, or the key is more than 5 seconds old. -/
def QueriesLate (s : MulticastSource) (a : Arrival) : Prop :=
  (∃ s' data, Undecryptable io aead s a s' data) →
    a.expireTime ≤ seconds 5 ∨ (s.queryRuns a.steps).query ≠ .done ∨
      seconds 5 < a.expireTime - (s.arrive a).key.lastUpdated

theorem query_discarded {s s' : MulticastSource} {a : Arrival} {data : Str}
    (h : Undecryptable io aead s a s' data) :
    ((s'.discarded a data).queryRuns a.beforeStart).query = (s.queryRuns a.steps).query := by
  obtain ⟨-, msgs, decrc, out, hbacklog, -, -⟩ := h
  have hs' := query_of_processBacklog io aead hbacklog
  have hdiscarded : (s'.discarded a data).query =
      a.beforeUpdated.foldl QueryPhase.next (a.beforeDiscard.foldl QueryPhase.next s'.query) := by
    unfold discarded
    rw [query_queryRuns, ← query_queryRuns s']
  rw [query_queryRuns, hdiscarded, hs', query_queryRuns, query_arrive, query_queryRuns]
  unfold Arrival.steps
  rw [List.foldl_append, List.foldl_append, List.foldl_append, List.foldl_append]

/-- A copy of a key has no times: the last update counts as the epoch. -/
theorem startsQuery_iff {s s' : MulticastSource} {a : Arrival} {data : Str}
    (h : Undecryptable io aead s a s' data) :
    StartsQuery io aead s a ↔ seconds 5 < a.expireTime ∧ (s.queryRuns a.steps).query = .done := by
  have hcopy : ∀ s₁ : MulticastSource, s₁.key.copy.lastUpdated = 0 := fun _ => rfl
  constructor
  · rintro ⟨s₁, data₁, h₁, hlate, hdone⟩
    rw [query_discarded io aead h₁] at hdone
    rw [hcopy] at hlate
    exact ⟨by omega, hdone⟩
  · rintro ⟨hlate, hdone⟩
    refine ⟨s', data, h, ?_, ?_⟩
    · rw [hcopy]
      omega
    · rw [query_discarded io aead h, hdone]

theorem rateLimited_step (s : MulticastSource) (a : Arrival) :
    RateLimited io aead s a ↔ QueriesLate io aead s a := by
  unfold RateLimited QueriesLate
  constructor
  · rintro hlimited ⟨s', data, h⟩
    by_cases hearly : a.expireTime ≤ seconds 5
    · exact Or.inl hearly
    by_cases hdone : (s.queryRuns a.steps).query = .done
    · exact Or.inr (Or.inr (hlimited ((startsQuery_iff io aead h).mpr ⟨by omega, hdone⟩)))
    · exact Or.inr (Or.inl hdone)
  · intro hlate hstarts
    obtain ⟨s', data, h, -⟩ := id hstarts
    obtain ⟨hafter, hdone⟩ := (startsQuery_iff io aead h).mp hstarts
    rcases hlate ⟨s', data, h⟩ with hearly | hrunning | hold
    · omega
    · exact absurd hdone hrunning
    · exact hold

end

/-! ### Reading the key -/

/-- `Key()` gives what was stored. -/
def ReadsKey (s : MulticastSource) : Prop := s.key.copy = s.key

/-- The key was not asked for, queried or updated. -/
def Untimed (s : MulticastSource) : Prop :=
  s.key.lastRequested = 0 ∧ s.key.lastQueried = 0 ∧ s.key.lastUpdated = 0

theorem readsKey_step (s : MulticastSource) : ReadsKey s ↔ Untimed s := by
  unfold ReadsKey Untimed MulticastSourceKey.copy
  obtain ⟨⟨value, lastRequested, lastQueried, lastUpdated⟩, -, -, -⟩ := s
  rw [MulticastSourceKey.mk.injEq]
  constructor
  · rintro ⟨-, h₁, h₂, h₃⟩
    exact ⟨h₁.symm, h₂.symm, h₃.symm⟩
  · rintro ⟨h₁, h₂, h₃⟩
    exact ⟨rfl, h₁.symm, h₂.symm, h₃.symm⟩

/-- The sender's first datagram, and one of somebody else in the second in which the key is found. -/
def earlyArrivals : List Arrival :=
  [arrivalAt senderDatagram (seconds 10) [],
   arrivalAt forgedDatagram (seconds 11)
    [.store ⟨senderKey, seconds 10, 0, seconds 11⟩, .setDone]]

/-- The source between the two. -/
def askedSource : MulticastSource :=
  ((init.arrive (arrivalAt senderDatagram (seconds 10) [])).bufferAndQuery
    (arrivalAt senderDatagram (seconds 10) [])).clearOldBacklog (seconds 10)

end MulticastSource

end Mclog
