import Mathlib.Tactic

/-!
# Segmented logs

An append-only history kept in segments: some are closed, and one is live.  Appending adds a record
to the live segment, and a cut closes it and starts a new one, so a cut changes nothing in the
history and no record is ever split (`history_cut`, `history_append`).  If a segment is cut as soon
as its size has reached `n`, no segment exceeds `n` by more than its last record (`bounded_cut`,
`bounded_append`).

Empty segments make no difference: `Same` compares logs without them, and a second cut does nothing
(`Same.cut_of_cut`).  A `TimedLog` is cut whenever a record is of another period than the one before.
-/

namespace General

/-- Closed segments, oldest first, and the live segment. -/
structure SegmentedLog (ρ : Type) where
  closed : List (List ρ)
  live : List ρ
deriving DecidableEq

namespace SegmentedLog

variable {ρ : Type} (log : SegmentedLog ρ)

/-- Nothing has been appended. -/
def empty : SegmentedLog ρ := ⟨[], []⟩

/-- All records, oldest first. -/
def history : List ρ := log.closed.flatten ++ log.live

/-- The live segment is closed. -/
def cut : SegmentedLog ρ := ⟨log.closed ++ [log.live], []⟩

/-- Records are appended to the live segment. -/
def append (rs : List ρ) : SegmentedLog ρ := ⟨log.closed, log.live ++ rs⟩

@[simp] theorem history_cut : log.cut.history = log.history := by
  simp [cut, history]

@[simp] theorem history_append (rs : List ρ) : (log.append rs).history = log.history ++ rs := by
  simp [append, history]

/-- The size of a segment. -/
def total (size : ρ → Nat) (seg : List ρ) : Nat := (seg.map size).sum

/-- The size of the last record of a segment. -/
def lastSize (size : ρ → Nat) (seg : List ρ) : Nat := (seg.getLast?.map size).getD 0

/-- No segment exceeds the bound by more than its last record. -/
def Bounded (size : ρ → Nat) (n : Nat) : Prop :=
  ∀ seg, seg ∈ log.closed ∨ seg = log.live → total size seg < n + lastSize size seg

variable {log} {size : ρ → Nat} {n : Nat}

theorem bounded_empty (hn : 0 < n) : (empty : SegmentedLog ρ).Bounded size n := by
  rintro seg (h | rfl)
  · cases h
  · exact Nat.lt_add_right _ hn

/-- A new segment is empty. -/
theorem bounded_cut (hn : 0 < n) (h : log.Bounded size n) : log.cut.Bounded size n := by
  rintro seg (hseg | rfl)
  · rcases List.mem_append.mp hseg with hseg | hseg
    · exact h seg (Or.inl hseg)
    · exact h seg (Or.inr (List.mem_singleton.mp hseg))
  · exact Nat.lt_add_right _ hn

/-- A record goes into a segment that has not reached the bound. -/
theorem bounded_append (h : log.Bounded size n) (hlive : total size log.live < n) (r : ρ) :
    (log.append [r]).Bounded size n := by
  rintro seg (hseg | rfl)
  · exact h seg (Or.inl hseg)
  · have htotal : total size (log.append [r]).live = total size log.live + size r := by
      simp [append, total]
    have hlast : lastSize size (log.append [r]).live = size r := by
      simp [append, lastSize]
    rw [htotal, hlast]
    exact Nat.add_lt_add_right hlive _

/-! ### Logs of other records -/

/-- The records replaced by others. -/
def map {τ : Type} (f : ρ → τ) (log : SegmentedLog ρ) : SegmentedLog τ :=
  ⟨log.closed.map (List.map f), log.live.map f⟩

/-- A log of images is the image of a log. -/
theorem exists_map {τ : Type} {f : ρ → τ} {log : SegmentedLog τ} {rs : List ρ}
    (h : log.history = rs.map f) : ∃ log' : SegmentedLog ρ, log'.history = rs ∧ log = log'.map f := by
  obtain ⟨closed, live⟩ := log
  change closed.flatten ++ live = rs.map f at h
  induction closed generalizing rs with
  | nil => exact ⟨⟨[], rs⟩, rfl, congrArg (SegmentedLog.mk []) h⟩
  | cons seg closed ih =>
    rw [List.flatten_cons, List.append_assoc] at h
    obtain ⟨before, after, rfl, hseg, hrest⟩ := List.map_eq_append_iff.mp h.symm
    obtain ⟨log', hhistory, hlog⟩ := ih hrest.symm
    obtain ⟨hclosed, hlive⟩ := SegmentedLog.mk.inj hlog
    refine ⟨⟨before :: log'.closed, log'.live⟩, ?_, ?_⟩
    · rw [← hhistory]
      simp [history]
    · rw [map, hclosed, hlive, List.map_cons, hseg]

/-! ### The most recent segments -/

/-- The records of the last `n` closed segments and of the live one. -/
def newest (n : Nat) (log : SegmentedLog ρ) : List ρ :=
  (log.closed.drop (log.closed.length - n)).flatten ++ log.live

theorem newest_zero (log : SegmentedLog ρ) : log.newest 0 = log.live := by
  simp [newest]

/-- One segment more. -/
theorem newest_succ {i : Nat} {seg : List ρ} (h : log.closed.reverse[i]? = some seg) :
    log.newest (i + 1) = seg ++ log.newest i := by
  obtain ⟨hlt, hseg⟩ := List.getElem?_eq_some_iff.mp h
  rw [List.length_reverse] at hlt
  rw [List.getElem_reverse] at hseg
  have hdrop : log.closed.drop (log.closed.length - (i + 1)) =
      seg :: log.closed.drop (log.closed.length - i) := by
    rw [List.drop_eq_getElem_cons (by omega)]
    congr 1
    · rw [← hseg]
      congr 1
      omega
    · congr 1
      omega
  rw [newest, hdrop, List.flatten_cons, List.append_assoc]
  rfl

/-! ### Segments that are not empty -/

/-- The segments that are not empty, oldest first. -/
def segments : List (List ρ) := (log.closed ++ [log.live]).filter fun seg => !seg.isEmpty

/-- The logs differ in empty segments only. -/
structure Same (log log' : SegmentedLog ρ) : Prop where
  closed : log.closed.filter (fun seg => !seg.isEmpty) =
    log'.closed.filter fun seg => !seg.isEmpty
  live : log.live = log'.live

namespace Same

variable {log log' : SegmentedLog ρ}

theorem refl (log : SegmentedLog ρ) : Same log log := ⟨rfl, rfl⟩

theorem segments_eq (h : Same log log') : log.segments = log'.segments := by
  unfold segments
  rw [List.filter_append, List.filter_append, h.closed, h.live]

theorem cut (h : Same log log') : Same log.cut log'.cut :=
  ⟨h.segments_eq, rfl⟩

theorem append (h : Same log log') (rs : List ρ) : Same (log.append rs) (log'.append rs) :=
  ⟨h.closed, congrArg (· ++ rs) h.live⟩

/-- A cut right after a cut closes an empty segment. -/
theorem cut_of_cut (h : Same log log'.cut) : Same log.cut log'.cut := by
  refine ⟨?_, rfl⟩
  have hlive : log.live = [] := h.live
  unfold SegmentedLog.cut
  rw [List.filter_append, hlive, h.closed]
  simp [SegmentedLog.cut]

end Same

@[simp] theorem segments_cut : log.cut.segments = log.segments := by
  unfold segments cut
  rw [List.filter_append (log.closed ++ [log.live])]
  simp

end SegmentedLog

/-! ### Records of periods -/

/-- A log of records that come at times, and the time of the last one. -/
structure TimedLog (ρ τ : Type) where
  log : SegmentedLog ρ
  last : Option τ

/-- A record is appended; it starts a new segment, if it is not of the period of the last one. -/
def TimedLog.add {ρ τ κ : Type} [DecidableEq κ] (period : τ → κ) (l : TimedLog ρ τ) (t : τ)
    (rs : List ρ) : TimedLog ρ τ :=
  ⟨(if l.last.map period = some (period t) then l.log else l.log.cut).append rs, some t⟩

end General
