import Mathlib.Tactic

/-!
# Batching items into bounded packets

Items of a given size are gathered in a pending batch of bounded capacity.  An item that does not
fit closes the batch and is tried again on an empty one; a flush closes a batch that is not empty.

`run_flatten` says that no item that fits an empty batch is lost, duplicated or moved: the closed
batches and the pending one, in order, are the fitting items.  `run_ne_nil_iff` says exactly when no
empty batch is closed: an oversized item must come directly after a fitting one.
-/

namespace General

variable {ι : Type}

/-- What happens to a batcher: an item arrives, or the pending batch is to be closed. -/
inductive BatchEvent (ι : Type) where
  | item (a : ι)
  | flush

/-- The item of an event, if it is one. -/
def BatchEvent.item? : BatchEvent ι → Option ι
  | item a => some a
  | flush => none

/-- The batches closed so far, and the one that is being filled. -/
structure Batcher (ι : Type) where
  closed : List (List ι)
  pending : List ι

namespace Batcher

variable (size : ι → Nat) (capacity : Nat)

/-- The size of a batch. -/
def total (batch : List ι) : Nat := (batch.map size).sum

@[simp] theorem total_nil : total size ([] : List ι) = 0 := rfl

/-- A batch of items of positive size is empty exactly when its size is 0. -/
theorem total_pos_iff (hpos : ∀ a, 0 < size a) (batch : List ι) :
    0 < total size batch ↔ batch ≠ [] := by
  cases batch with
  | nil => simp
  | cons a batch =>
    have := hpos a
    simp only [total, List.map_cons, List.sum_cons, ne_eq, reduceCtorEq, not_false_eq_true, iff_true]
    omega

/-- The effect of an event. -/
def step (b : Batcher ι) : BatchEvent ι → Batcher ι
  | .item a =>
    if total size b.pending + size a ≤ capacity then { b with pending := b.pending ++ [a] }
    else ⟨b.closed ++ [b.pending], if size a ≤ capacity then [a] else []⟩
  | .flush => if b.pending = [] then b else ⟨b.closed ++ [b.pending], []⟩

/-- The batcher before anything happened. -/
def empty : Batcher ι := ⟨[], []⟩

/-- The effect of a sequence of events. -/
def run (es : List (BatchEvent ι)) : Batcher ι := es.foldl (step size capacity) empty

@[simp] theorem run_nil : run size capacity ([] : List (BatchEvent ι)) = empty := rfl

@[simp] theorem run_concat (es : List (BatchEvent ι)) (e : BatchEvent ι) :
    run size capacity (es ++ [e]) = step size capacity (run size capacity es) e := by
  simp [run]

/-- The items that fit an empty batch, in order. -/
def fitting (es : List (BatchEvent ι)) : List ι :=
  (es.filterMap BatchEvent.item?).filter fun a => size a ≤ capacity

theorem fitting_concat (es : List (BatchEvent ι)) (e : BatchEvent ι) :
    fitting size capacity (es ++ [e]) =
      fitting size capacity es ++ (e.item?.toList.filter fun a => size a ≤ capacity) := by
  cases e <;> simp [fitting, BatchEvent.item?]

/-- **Nothing that fits is lost, duplicated or moved.** -/
theorem run_flatten (es : List (BatchEvent ι)) :
    (run size capacity es).closed.flatten ++ (run size capacity es).pending =
      fitting size capacity es := by
  induction es using List.reverseRecOn with
  | nil => rfl
  | append_singleton es e ih =>
    rw [run_concat, fitting_concat, ← ih]
    set b := run size capacity es with hb
    cases e with
    | item a =>
      simp only [step, BatchEvent.item?, Option.toList_some]
      split_ifs with hroom hfit
      · have hfit : size a ≤ capacity := by omega
        simp [hfit]
      · simp [hfit]
      · simp [hfit]
    | flush =>
      simp only [step, BatchEvent.item?, Option.toList_none, List.filter_nil, List.append_nil]
      split_ifs with hnil
      · rfl
      · simp

/-- Nothing is pending after an item exactly if it is oversized. -/
theorem pending_step_item_eq_nil_iff (b : Batcher ι) (a : ι) :
    (step size capacity b (.item a)).pending = [] ↔ capacity < size a := by
  simp only [step]
  split_ifs with hroom hfit
  · refine iff_of_false (by simp) ?_
    omega
  · refine iff_of_false (by simp) ?_
    omega
  · refine iff_of_true rfl ?_
    omega

/-- Nothing is pending after some items exactly if the last of them is oversized, or if there are none
    and nothing was pending. -/
theorem pending_foldl_items_eq_nil_iff (b : Batcher ι) (as : List ι) :
    ((as.map BatchEvent.item).foldl (step size capacity) b).pending = [] ↔
      match as.getLast? with
      | some a => capacity < size a
      | none => b.pending = [] := by
  induction as using List.reverseRecOn with
  | nil => exact Iff.rfl
  | append_singleton as a _ =>
    rw [List.map_append, List.foldl_append, List.getLast?_concat]
    exact pending_step_item_eq_nil_iff size capacity _ a

/-- What has been closed stays closed. -/
theorem prefix_closed_step (b : Batcher ι) (e : BatchEvent ι) :
    b.closed.flatten <+: (step size capacity b e).closed.flatten := by
  cases e with
  | item a =>
    simp only [step]
    split_ifs
    · exact List.prefix_refl _
    · simp
    · simp
  | flush =>
    simp only [step]
    split_ifs
    · exact List.prefix_refl _
    · simp

/-- What has been gathered stays gathered. -/
theorem prefix_flatten_step (b : Batcher ι) (e : BatchEvent ι) :
    b.closed.flatten ++ b.pending <+:
      (step size capacity b e).closed.flatten ++ (step size capacity b e).pending := by
  cases e with
  | item a =>
    simp only [step]
    split_ifs
    · rw [← List.append_assoc]
      exact List.prefix_append _ _
    · simp
    · simp
  | flush =>
    simp only [step]
    split_ifs
    · exact List.prefix_refl _
    · simp

/-- An item is gathered, or dropped if it is oversized. -/
theorem flatten_step_item (b : Batcher ι) (a : ι) :
    (step size capacity b (.item a)).closed.flatten ++ (step size capacity b (.item a)).pending =
      b.closed.flatten ++ b.pending ++ if size a ≤ capacity then [a] else [] := by
  simp only [step]
  split_ifs with hroom hfit hfit
  · rw [List.append_assoc]
  · omega
  · simp
  · simp

/-- A flush closes what is pending. -/
theorem closed_step_flush (b : Batcher ι) :
    (step size capacity b .flush).closed.flatten = b.closed.flatten ++ b.pending := by
  simp only [step]
  split_ifs with hnil
  · rw [hnil, List.append_nil]
  · simp

/-! ### Empty batches -/

/-- The last event is an item that fits. -/
def EndsFitting (es : List (BatchEvent ι)) : Prop :=
  ∃ before a, es = before ++ [.item a] ∧ size a ≤ capacity

/-- Every oversized item comes directly after an item that fits. -/
def OversizedAfterFitting (es : List (BatchEvent ι)) : Prop :=
  ∀ before a after, es = before ++ .item a :: after → capacity < size a →
    EndsFitting size capacity before

/-- A batch is pending exactly after an item that fits. -/
theorem pending_ne_nil_iff (es : List (BatchEvent ι)) :
    (run size capacity es).pending ≠ [] ↔ EndsFitting size capacity es := by
  cases es using List.reverseRecOn with
  | nil => simp [empty, EndsFitting]
  | append_singleton es e =>
    have hends : EndsFitting size capacity (es ++ [e]) ↔
        ∃ a, e = .item a ∧ size a ≤ capacity := by
      constructor
      · rintro ⟨before, a, heq, ha⟩
        exact ⟨a, (List.append_inj' heq rfl).2 |> List.singleton_inj.mp, ha⟩
      · rintro ⟨a, rfl, ha⟩
        exact ⟨es, a, rfl, ha⟩
    rw [hends, run_concat]
    cases e with
    | item a =>
      simp only [step, BatchEvent.item.injEq, exists_eq_left']
      split_ifs with hroom hfit
      · simp only [ne_eq, List.append_eq_nil_iff, List.cons_ne_self, and_false, not_false_eq_true,
          true_iff]
        omega
      · simpa using hfit
      · simpa using hfit
    | flush =>
      simp only [step, reduceCtorEq, false_and, exists_false, iff_false, not_not]
      split_ifs with hnil
      · exact hnil
      · rfl

theorem oversizedAfterFitting_concat (es : List (BatchEvent ι)) (e : BatchEvent ι) :
    OversizedAfterFitting size capacity (es ++ [e]) ↔
      OversizedAfterFitting size capacity es ∧
        ∀ a, e = .item a → capacity < size a → EndsFitting size capacity es := by
  constructor
  · intro h
    refine ⟨fun before a after heq ha => h before a (after ++ [e]) (by simp [heq]) ha, ?_⟩
    rintro a rfl ha
    exact h es a [] (by simp) ha
  · rintro ⟨h, hlast⟩ before a after heq ha
    -- The oversized item is the last event, or one of the earlier ones.
    rcases List.eq_nil_or_concat after with rfl | ⟨after, e', rfl⟩
    · obtain ⟨rfl, he⟩ := List.append_inj' heq rfl
      exact hlast a (List.singleton_inj.mp he) ha
    · rw [List.concat_eq_append, ← List.cons_append, ← List.append_assoc] at heq
      obtain ⟨rfl, -⟩ := List.append_inj' heq rfl
      exact h before a after rfl ha

/-- **No empty batch is closed**, exactly when every oversized item comes directly after an item
    that fits. -/
theorem run_ne_nil_iff (es : List (BatchEvent ι)) :
    (∀ batch ∈ (run size capacity es).closed, batch ≠ []) ↔
      OversizedAfterFitting size capacity es := by
  induction es using List.reverseRecOn with
  | nil => simp [empty, OversizedAfterFitting]
  | append_singleton es e ih =>
    rw [run_concat, oversizedAfterFitting_concat, ← ih, ← pending_ne_nil_iff]
    set b := run size capacity es with hb
    cases e with
    | item a =>
      simp only [step, BatchEvent.item.injEq, forall_eq']
      split_ifs with hroom hfit
      · have hsmall : ¬ capacity < size a := by omega
        simp [hsmall]
      · -- The item fits an empty batch, so the one it did not fit is not empty.
        have hpending : b.pending ≠ [] := by
          intro hnil
          simp only [hnil, total_nil, Nat.zero_add] at hroom
          exact hroom hfit
        simp [hpending, or_imp, forall_and]
      · have hlarge : capacity < size a := by omega
        simp [hlarge, or_imp, forall_and]
    | flush =>
      simp only [step, reduceCtorEq, false_imp_iff, implies_true, and_true]
      split_ifs with hnil
      · rfl
      · simp [hnil, or_imp, forall_and]

end Batcher

end General
