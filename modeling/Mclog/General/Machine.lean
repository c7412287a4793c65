import Mathlib.Tactic

/-!
# Machines that can abort

A `Machine` consumes one input per step and emits outputs; a step may also abort.  `run_history` is
the rule for properties of whole runs: a relation between the inputs consumed, the outputs emitted
and the state, kept by every step from a state and an input that meet the condition `C`, holds at
the end of every run whose steps meet it, and such a run does not abort; `history_of_run` is the
same rule where steps may abort.  `Reachable` states come with the rules of invariants and of forward
simulation, and with what holds `After` a step and `Throughout`.  `Steps` is a sequence of steps of a
relation, one for each element of a list.
-/

namespace General

/-- One step: the next state and the outputs emitted, or `none` for an abort. -/
def Machine (σ ι ο : Type) : Type := σ → ι → Option (σ × List ο)

namespace Machine

variable {σ ι ο : Type} (m : Machine σ ι ο)

/-- All steps, with their outputs in order. -/
def run : σ → List ι → Option (σ × List ο)
  | s, [] => some (s, [])
  | s, i :: is =>
    match m s i with
    | none => none
    | some (s', out) => (run s' is).map fun p => (p.1, out ++ p.2)

/-- Every step of the run is taken in a state and on an input that meet `C`. -/
def Meets (C : σ → ι → Prop) : σ → List ι → Prop
  | _, [] => True
  | s, i :: is =>
    C s i ∧
      match m s i with
      | none => True
      | some (s', _) => Meets C s' is

instance decidableMeets (C : σ → ι → Prop) [∀ s i, Decidable (C s i)] :
    ∀ s is, Decidable (m.Meets C s is)
  | _, [] => .isTrue trivial
  | s, i :: is =>
    @instDecidableAnd _ _ _ <|
      match m s i with
      | none => .isTrue trivial
      | some (s', _) => decidableMeets C s' is

@[simp] theorem run_nil (s : σ) : m.run s [] = some (s, []) := rfl

theorem run_cons_of_some {s s' : σ} {i : ι} {out : List ο} (h : m s i = some (s', out))
    (is : List ι) : m.run s (i :: is) = (m.run s' is).map fun p => (p.1, out ++ p.2) := by
  simp only [run, h]

/-- A condition on the inputs alone is met by every run on inputs that satisfy it. -/
theorem meets_of_forall {P : ι → Prop} (s : σ) (is : List ι) (h : ∀ i ∈ is, P i) :
    m.Meets (fun _ i => P i) s is := by
  induction is generalizing s with
  | nil => trivial
  | cons i is ih =>
    refine ⟨h i (by simp), ?_⟩
    cases m s i with
    | none => trivial
    | some p => exact ih p.1 fun j hj => h j (by simp [hj])

/-- A condition on the inputs can be added to one on the steps. -/
theorem Meets.and_forall {m : Machine σ ι ο} {C : σ → ι → Prop} {P : ι → Prop} {s : σ}
    {is : List ι} (hC : m.Meets C s is) (hP : ∀ i ∈ is, P i) :
    m.Meets (fun s i => P i ∧ C s i) s is := by
  induction is generalizing s with
  | nil => trivial
  | cons i is ih =>
    obtain ⟨hc, hrest⟩ := hC
    refine ⟨⟨hP i (by simp), hc⟩, ?_⟩
    cases h : m s i with
    | none => trivial
    | some p =>
      rw [h] at hrest
      exact ih hrest fun j hj => hP j (by simp [hj])

/-- A run that goes through takes its first step. -/
theorem run_cons_eq_some {s s' : σ} {i : ι} {is : List ι} {out : List ο}
    (h : m.run s (i :: is) = some (s', out)) :
    ∃ s₁ out₁ out₂, m s i = some (s₁, out₁) ∧ m.run s₁ is = some (s', out₂) ∧
      out = out₁ ++ out₂ := by
  unfold run at h
  cases hi : m s i with
  | none =>
    rw [hi] at h
    cases h
  | some p =>
    rw [hi] at h
    obtain ⟨q, hq, heq⟩ := Option.map_eq_some_iff.mp h
    obtain ⟨rfl, rfl⟩ := Prod.mk.inj heq
    exact ⟨p.1, p.2, q.2, rfl, hq, rfl⟩

/-- Two conditions met. -/
theorem Meets.and {m : Machine σ ι ο} {C D : σ → ι → Prop} {s : σ} {is : List ι}
    (hC : m.Meets C s is) (hD : m.Meets D s is) : m.Meets (fun s i => C s i ∧ D s i) s is := by
  induction is generalizing s with
  | nil => trivial
  | cons i is ih =>
    obtain ⟨hc, hC⟩ := hC
    obtain ⟨hd, hD⟩ := hD
    refine ⟨⟨hc, hd⟩, ?_⟩
    cases h : m s i with
    | none => trivial
    | some p =>
      rw [h] at hC hD
      exact ih hC hD

/-- A weaker condition is met, too. -/
theorem Meets.mono {m : Machine σ ι ο} {C D : σ → ι → Prop} {s : σ} {is : List ι}
    (hC : m.Meets C s is) (h : ∀ s i, C s i → D s i) : m.Meets D s is := by
  induction is generalizing s with
  | nil => trivial
  | cons i is ih =>
    obtain ⟨hc, hrest⟩ := hC
    refine ⟨h s i hc, ?_⟩
    cases hm : m s i with
    | none => trivial
    | some p =>
      rw [hm] at hrest
      exact ih hrest

/-- A condition met by a run is met by its beginning. -/
theorem Meets.of_append {m : Machine σ ι ο} {C : σ → ι → Prop} {s : σ} {is js : List ι}
    (h : m.Meets C s (is ++ js)) : m.Meets C s is := by
  induction is generalizing s with
  | nil => trivial
  | cons i is ih =>
    obtain ⟨hi, hrest⟩ := h
    refine ⟨hi, ?_⟩
    cases hm : m s i with
    | none => trivial
    | some p =>
      rw [hm] at hrest
      exact ih hrest

/-- Conditions that are the same wherever an invariant holds are met by the same runs. -/
theorem meets_iff_of_invariant {C D : σ → ι → Prop} {I : σ → Prop}
    (hstep : ∀ s i s' out, I s → m s i = some (s', out) → I s')
    (hiff : ∀ s i, I s → (C s i ↔ D s i)) {s : σ} (hs : I s) (is : List ι) :
    m.Meets C s is ↔ m.Meets D s is := by
  induction is generalizing s with
  | nil => exact Iff.rfl
  | cons i is ih =>
    refine and_congr (hiff s i hs) ?_
    cases h : m s i with
    | none => exact Iff.rfl
    | some p => exact ih (hstep s i p.1 p.2 hs h)

/-- A run and one more step. -/
theorem run_append_singleton {s s' s'' : σ} {is : List ι} {i : ι} {out out' : List ο}
    (hrun : m.run s is = some (s', out)) (hi : m s' i = some (s'', out')) :
    m.run s (is ++ [i]) = some (s'', out ++ out') := by
  induction is generalizing s out with
  | nil =>
    obtain ⟨rfl, rfl⟩ := Prod.mk.inj (Option.some.inj hrun)
    simp [run, hi]
  | cons j is ih =>
    obtain ⟨s₁, out₁, out₂, hj, hrun₁, rfl⟩ := m.run_cons_eq_some hrun
    rw [List.cons_append, run_cons_of_some m hj, ih hrun₁, Option.map_some, List.append_assoc]

/-- A condition met by a run and one more step. -/
theorem Meets.of_append_singleton {m : Machine σ ι ο} {C : σ → ι → Prop} {s s' : σ} {is : List ι}
    {i : ι} {out : List ο} (h : m.Meets C s (is ++ [i])) (hrun : m.run s is = some (s', out)) :
    m.Meets C s is ∧ C s' i := by
  induction is generalizing s out with
  | nil =>
    obtain ⟨rfl, rfl⟩ := Prod.mk.inj (Option.some.inj hrun)
    exact ⟨trivial, h.1⟩
  | cons j is ih =>
    obtain ⟨hj, hrest⟩ := h
    obtain ⟨s₁, out₁, out₂, hm, hrun₁, rfl⟩ := m.run_cons_eq_some hrun
    rw [hm] at hrest
    obtain ⟨hmeets, hi⟩ := ih hrest hrun₁
    refine ⟨⟨hj, ?_⟩, hi⟩
    rw [hm]
    exact hmeets

/-- **The history rule.**  What every conforming step keeps holds after every conforming run, and
    no conforming run aborts. -/
theorem run_history {C : σ → ι → Prop} {R : List ι → List ο → σ → Prop}
    (hstep : ∀ before emitted s i, R before emitted s → C s i →
      ∃ s' out, m s i = some (s', out) ∧ R (before ++ [i]) (emitted ++ out) s')
    (is before : List ι) (emitted : List ο) (s : σ) (hs : R before emitted s)
    (hC : m.Meets C s is) :
    ∃ s' out, m.run s is = some (s', out) ∧ R (before ++ is) (emitted ++ out) s' := by
  induction is generalizing before emitted s with
  | nil => exact ⟨s, [], rfl, by simpa using hs⟩
  | cons i is ih =>
    obtain ⟨hc, hrest⟩ := hC
    obtain ⟨s₁, out₁, hm, hs₁⟩ := hstep before emitted s i hs hc
    rw [hm] at hrest
    obtain ⟨s₂, out₂, hrun, hs₂⟩ := ih _ _ s₁ hs₁ hrest
    refine ⟨s₂, out₁ ++ out₂, ?_, by simpa using hs₂⟩
    rw [run_cons_of_some m hm, hrun]
    rfl

/-- The history rule for a machine whose steps may abort: what every conforming step that is taken
    keeps holds after every conforming run that goes through. -/
theorem history_of_run {C : σ → ι → Prop} {R : List ι → List ο → σ → Prop}
    (hstep : ∀ before emitted s i s' out, R before emitted s → C s i → m s i = some (s', out) →
      R (before ++ [i]) (emitted ++ out) s')
    (is before : List ι) (emitted : List ο) (s s' : σ) (out : List ο) (hs : R before emitted s)
    (hC : m.Meets C s is) (hrun : m.run s is = some (s', out)) :
    R (before ++ is) (emitted ++ out) s' := by
  induction is generalizing before emitted s out with
  | nil =>
    obtain ⟨rfl, rfl⟩ := Prod.mk.inj (Option.some.inj hrun)
    simpa using hs
  | cons i is ih =>
    obtain ⟨hc, hrest⟩ := hC
    obtain ⟨s₁, out₁, out₂, hm, hrun₁, rfl⟩ := m.run_cons_eq_some hrun
    rw [hm] at hrest
    have hs₁ := hstep before emitted s i s₁ out₁ hs hc hm
    have := ih (before ++ [i]) (emitted ++ out₁) s₁ out₂ hs₁ hrest hrun₁
    simpa using this

/-- **The invariant rule**: the history rule for a property of the state alone. -/
theorem run_invariant {C : σ → ι → Prop} {I : σ → Prop}
    (hstep : ∀ s i, I s → C s i → ∃ s' out, m s i = some (s', out) ∧ I s')
    (is : List ι) (s : σ) (hs : I s) (hC : m.Meets C s is) :
    ∃ s' out, m.run s is = some (s', out) ∧ I s' :=
  m.run_history (R := fun _ _ => I) (fun _ _ s i hs hc => hstep s i hs hc) is [] [] s hs hC

end Machine

/-! ### Reachable states -/

/-- The states a system gets to from `start`, if each input it consumes is one `ok` admits in the
    state it is consumed in. -/
inductive Reachable {σ ι : Type} (step : σ → ι → Option σ) (ok : σ → ι → Prop) (start : σ) :
    σ → Prop where
  | init : Reachable step ok start start
  | step {s s' : σ} {i : ι} (h : Reachable step ok start s) (hok : ok s i)
      (hs : step s i = some s') : Reachable step ok start s'

namespace Reachable

variable {σ ι : Type} {step : σ → ι → Option σ} {ok : σ → ι → Prop} {start : σ}

/-- **The invariant rule** for reachable states.  A step may use what is known of the state it
    starts from being reachable. -/
theorem invariant {I : σ → Prop} (hinit : I start)
    (hstep : ∀ s i s', Reachable step ok start s → I s → ok s i → step s i = some s' → I s') {s : σ}
    (h : Reachable step ok start s) : I s := by
  induction h with
  | init => exact hinit
  | step hr hok hs ih => exact hstep _ _ _ hr ih hok hs

/-- More is reachable when more is admitted. -/
theorem mono {ok' : σ → ι → Prop} (hok : ∀ s i, ok s i → ok' s i) {s : σ}
    (h : Reachable step ok start s) : Reachable step ok' start s := by
  induction h with
  | init => exact .init
  | step _ hi hs ih => exact .step ih (hok _ _ hi) hs

/-- A run that can be computed. -/
theorem of_foldlM [∀ s i, Decidable (ok s i)] {is : List ι} {s s' : σ}
    (h : Reachable step ok start s)
    (hrun : is.foldlM (fun s i => if ok s i then step s i else none) s = some s') :
    Reachable step ok start s' := by
  induction is generalizing s with
  | nil =>
    obtain rfl := Option.some.inj hrun
    exact h
  | cons i is ih =>
    rw [List.foldlM_cons] at hrun
    obtain ⟨t, ht, hrest⟩ := Option.bind_eq_some_iff.mp hrun
    split_ifs at ht with hok
    exact ih (h.step hok ht) hrest

/-- **Forward simulation.**  If every step is matched by a step of another system, or by none, every
    reachable state is related to a reachable state of the other. -/
theorem simulates {τ κ : Type} {step' : τ → κ → Option τ} {ok' : τ → κ → Prop} {start' : τ}
    {R : σ → τ → Prop} (hinit : R start start')
    (hstep : ∀ s t i s', R s t → ok s i → step s i = some s' →
      R s' t ∨ ∃ j t', ok' t j ∧ step' t j = some t' ∧ R s' t') {s : σ}
    (h : Reachable step ok start s) : ∃ t, Reachable step' ok' start' t ∧ R s t := by
  induction h with
  | init => exact ⟨start', .init, hinit⟩
  | step hr hi hs ih =>
    obtain ⟨t, ht, hR⟩ := ih
    rcases hstep _ t _ _ hR hi hs with hR' | ⟨j, t', hj, hs', hR'⟩
    · exact ⟨t, ht, hR'⟩
    · exact ⟨t', ht.step hj hs', hR'⟩

end Reachable

/-- The step can be taken, and then `Q` holds. -/
def After {σ ι : Type} (step : σ → ι → Option σ) (i : ι) (Q : σ → Prop) (s : σ) : Prop :=
  ∃ s', step s i = some s' ∧ Q s'

/-- `Q` holds now and after any admitted steps. -/
def Throughout {σ ι : Type} (step : σ → ι → Option σ) (ok : σ → ι → Prop) (Q : σ → Prop) (s : σ) :
    Prop :=
  ∀ s', Reachable step ok s s' → Q s'

/-- **The invariant rule** for what holds throughout. -/
theorem Throughout.of_invariant {σ ι : Type} {step : σ → ι → Option σ} {ok : σ → ι → Prop}
    {I Q : σ → Prop} {s : σ} (hs : I s)
    (hstep : ∀ s i s', I s → ok s i → step s i = some s' → I s') (hQ : ∀ s, I s → Q s) :
    Throughout step ok Q s :=
  fun s' h => hQ s' (h.invariant hs fun s i s' _ => hstep s i s')

/-! ### Steps in turn -/

/-- A step for each element of a list, one after another. -/
inductive Steps {σ ι : Type} (R : ι → σ → σ → Prop) : List ι → σ → σ → Prop where
  | nil {s : σ} : Steps R [] s s
  | cons {i : ι} {is : List ι} {s s' s'' : σ} (h : R i s s') (hrest : Steps R is s' s'') :
      Steps R (i :: is) s s''

/-! ### Two runs -/

/-- `l'` is `l` with elements that satisfy `Extra` inserted at any positions. -/
inductive Inserts {ι : Type} (Extra : ι → Prop) : List ι → List ι → Prop where
  | nil : Inserts Extra [] []
  | keep (i : ι) {l l' : List ι} (h : Inserts Extra l l') : Inserts Extra (i :: l) (i :: l')
  | insert (i : ι) {l l' : List ι} (hi : Extra i) (h : Inserts Extra l l') :
      Inserts Extra l (i :: l')

/-- What the extra elements do not contribute to does not change. -/
theorem Inserts.flatMap_eq {ι ο : Type} {Extra : ι → Prop} {l l' : List ι}
    (h : Inserts Extra l l') (f : ι → List ο) (hf : ∀ i ∈ l', Extra i → f i = []) :
    l'.flatMap f = l.flatMap f := by
  induction h with
  | nil => rfl
  | keep i _ ih =>
    rw [List.flatMap_cons, List.flatMap_cons, ih fun j hj => hf j (List.mem_cons_of_mem _ hj)]
  | insert i hi _ ih =>
    rw [List.flatMap_cons, hf i (by simp) hi, List.nil_append,
      ih fun j hj => hf j (List.mem_cons_of_mem _ hj)]

end General
