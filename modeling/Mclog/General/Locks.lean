import Mathlib.Tactic

/-!
# Locks of a thread

What one thread does to mutexes that are not recursive.  `LockAction.run` gives the mutexes it holds
afterwards, or `none` when it tries to lock one that it holds, on which it blocks for ever.

`Balanced` actions leave the thread with the mutexes it had.  Those in the scope of a guard are
balanced if what is inside is, and `run_append_eq_none` and `run_guarded_eq_none` say when a thread
blocks in terms of the parts.
-/

namespace General

/-- A thread locks a mutex or unlocks it. -/
inductive LockAction (μ : Type) where
  | lock (m : μ)
  | unlock (m : μ)
deriving DecidableEq

namespace LockAction

variable {μ : Type} [DecidableEq μ]

/-- The mutexes held after some actions; `none` when the thread blocks on one that it holds. -/
def run : List μ → List (LockAction μ) → Option (List μ)
  | held, [] => some held
  | held, .lock m :: as => if m ∈ held then none else run (m :: held) as
  | held, .unlock m :: as => run (held.erase m) as

/-- The actions in the scope of a `lock_guard`. -/
def guarded (m : μ) (body : List (LockAction μ)) : List (LockAction μ) :=
  .lock m :: body ++ [.unlock m]

/-- The actions leave the thread with the mutexes it had, unless it blocks. -/
def Balanced (as : List (LockAction μ)) : Prop := ∀ held held', run held as = some held' → held' = held

theorem run_append (held : List μ) (as bs : List (LockAction μ)) :
    run held (as ++ bs) = (run held as).bind fun held' => run held' bs := by
  induction as generalizing held with
  | nil => rfl
  | cons a as ih =>
    cases a with
    | lock m =>
      simp only [List.cons_append, run]
      split_ifs
      · rfl
      · exact ih _
    | unlock m => exact ih _

theorem Balanced.nil : Balanced ([] : List (LockAction μ)) := by
  intro held held' h
  exact (Option.some.inj h).symm

theorem Balanced.append {as bs : List (LockAction μ)} (ha : Balanced as) (hb : Balanced bs) :
    Balanced (as ++ bs) := by
  intro held held' h
  rw [run_append] at h
  obtain ⟨mid, hmid, hrest⟩ := Option.bind_eq_some_iff.mp h
  rw [hb mid held' hrest, ha held mid hmid]

theorem Balanced.flatMap {ι : Type} {f : ι → List (LockAction μ)} (l : List ι)
    (h : ∀ i ∈ l, Balanced (f i)) : Balanced (l.flatMap f) := by
  induction l with
  | nil => exact .nil
  | cons i l ih =>
    rw [List.flatMap_cons]
    exact (h i (by simp)).append (ih fun j hj => h j (by simp [hj]))

/-- What a guard does, when what is inside is balanced. -/
theorem run_guarded (held : List μ) (m : μ) {body : List (LockAction μ)} (h : Balanced body) :
    run held (guarded m body) =
      if m ∈ held ∨ run (m :: held) body = none then none else some held := by
  have hguard : run held (guarded m body) =
      if m ∈ held then none else (run (m :: held) body).bind fun held' => run held' [.unlock m] := by
    rw [← run_append]
    rfl
  rw [hguard]
  by_cases hheld : m ∈ held
  · simp [hheld]
  · rw [if_neg hheld]
    cases hbody : run (m :: held) body with
    | none => simp
    | some held' =>
      rw [h _ _ hbody]
      simp [run, hheld]

theorem Balanced.guarded (m : μ) {body : List (LockAction μ)} (h : Balanced body) :
    Balanced (guarded m body) := by
  intro held held' hrun
  rw [run_guarded held m h] at hrun
  split_ifs at hrun
  exact (Option.some.inj hrun).symm

/-- **When a guard blocks**: on its mutex, or inside. -/
theorem run_guarded_eq_none (held : List μ) (m : μ) {body : List (LockAction μ)}
    (h : Balanced body) :
    run held (guarded m body) = none ↔ m ∈ held ∨ run (m :: held) body = none := by
  rw [run_guarded held m h]
  split_ifs with hblocks
  · simp [hblocks]
  · simp [hblocks]

/-- **When a sequence blocks**: in one of its parts. -/
theorem run_append_eq_none (held : List μ) {as bs : List (LockAction μ)} (ha : Balanced as) :
    run held (as ++ bs) = none ↔ run held as = none ∨ run held bs = none := by
  rw [run_append]
  cases has : run held as with
  | none => simp
  | some held' =>
    rw [ha _ _ has]
    simp

theorem run_flatMap_eq_none {ι : Type} {f : ι → List (LockAction μ)} (held : List μ) (l : List ι)
    (h : ∀ i ∈ l, Balanced (f i)) :
    run held (l.flatMap f) = none ↔ ∃ i ∈ l, run held (f i) = none := by
  induction l with
  | nil => simp [run]
  | cons i l ih =>
    rw [List.flatMap_cons, run_append_eq_none held (h i (by simp)),
      ih fun j hj => h j (by simp [hj])]
    simp

end LockAction

end General
