import Mathlib.Data.List.ReduceOption
import Mclog.General.Machine

/-!
# Families of machines

A `Family` keeps a machine for each key that inputs have come for.  The first input for a key starts
the key's machine, and it also sweeps the family: every machine that has expired is taken away.

`project_run` is the rule for such a family.  For a single key, a run of the family is a run of one
machine that is replaced by a new one now and then; when it is replaced is read off the inputs alone
(`events`), if whether a machine has expired depends on no more than the last input it got.
-/

namespace General

variable {κ σ ι ο τ : Type}

/-! ### Machines replaced now and then -/

namespace Machine

/-- A run and another one after it. -/
theorem run_append (m : Machine σ ι ο) (s : σ) (is js : List ι) :
    m.run s (is ++ js) =
      (m.run s is).bind fun p => (m.run p.1 js).map fun q => (q.1, p.2 ++ q.2) := by
  induction is generalizing s with
  | nil => simp
  | cons i is ih =>
    rw [List.cons_append, run, run]
    cases m s i with
    | none => rfl
    | some p =>
      obtain ⟨s', out⟩ := p
      show Option.map _ (m.run s' (is ++ js)) = Option.bind (Option.map _ (m.run s' is)) _
      rw [ih]
      cases m.run s' is with
      | none => rfl
      | some q =>
        obtain ⟨s₁, out₁⟩ := q
        show Option.map _ (Option.map _ (m.run s₁ js)) = Option.map _ (m.run s₁ js)
        rw [Option.map_map]
        apply congrArg (Option.map · _)
        funext r
        simp

/-- A slot for a machine: an input goes to the machine in it, a new one in `init` if there is none,
    and `none` takes the machine away. -/
def slot (m : Machine σ ι ο) (init : σ) : Machine (Option σ) (Option ι) ο
  | s, some i => (m (s.getD init) i).map fun p => (some p.1, p.2)
  | _, none => some (none, [])

/-- A slot whose machine is never taken away runs as the machine does. -/
theorem run_slot_map_some (m : Machine σ ι ο) (init : σ) (is : List ι) (s : Option σ) :
    (m.slot init).run s (is.map some) =
      (m.run (s.getD init) is).map fun p => (if is = [] then s else some p.1, p.2) := by
  induction is generalizing s with
  | nil => rfl
  | cons i is ih =>
    rw [List.map_cons, run, run]
    have hslot : m.slot init s (some i) = (m (s.getD init) i).map fun p => (some p.1, p.2) := rfl
    rw [hslot]
    cases m (s.getD init) i with
    | none => rfl
    | some p =>
      show Option.map _ ((m.slot init).run (some p.1) (is.map some)) =
        Option.map _ (Option.map _ (m.run p.1 is))
      rw [ih, Option.getD_some]
      cases is with
      | nil => rfl
      | cons j js =>
        rw [Option.map_map, Option.map_map]
        rfl

/-- A machine taken away, or not. -/
theorem run_slot_ite (m : Machine σ ι ο) (init : σ) (s : Option σ) (c : Prop) [Decidable c] :
    (m.slot init).run s (if c then [none] else []) = some (if c then none else s, []) := by
  split_ifs <;> rfl

end Machine

/-! ### Families -/

/-- The machines of a family, the state that each starts in, and which states have expired at a
    time. -/
structure Family (σ ι ο τ : Type) where
  machine : Machine σ ι ο
  init : σ
  expired : τ → σ → Bool

namespace Family

variable (F : Family σ ι ο τ)

/-- Takes away the machines that have expired. -/
def sweep (t : τ) (f : κ → Option σ) : κ → Option σ :=
  fun k => (f k).filter fun s => !F.expired t s

/-- The slots hold the machines whose last inputs are `last`, and these inputs decide which of them
    have expired. -/
def Tracks (F : Family σ ι ο τ) (stale : τ → ι → Bool) (f : κ → Option σ) (last : κ → Option ι) : Prop :=
  ∀ k, match f k, last k with
    | none, none => True
    | some s, some i => ∀ t, F.expired t s = stale t i
    | _, _ => False

section

variable {F : Family σ ι ο τ} {stale : τ → ι → Bool} {f : κ → Option σ} {last : κ → Option ι}

/-- Empty slots. -/
theorem tracks_empty : F.Tracks stale (fun _ : κ => none) fun _ => none := fun _ => trivial

theorem Tracks.isSome_eq (h : F.Tracks stale f last) (k : κ) : (f k).isSome = (last k).isSome := by
  have hk := h k
  cases hf : f k <;> cases hl : last k <;> simp_all

theorem Tracks.sweep (h : F.Tracks stale f last) (t : τ) :
    F.Tracks stale (F.sweep t f) fun k => (last k).filter fun i => !stale t i := by
  intro k
  have hk := h k
  show match (f k).filter _, (last k).filter _ with
    | none, none => True
    | some s, some i => ∀ t, F.expired t s = stale t i
    | _, _ => False
  cases hf : f k with
  | none =>
    cases hl : last k with
    | none => trivial
    | some i => simp [hf, hl] at hk
  | some s =>
    cases hl : last k with
    | none => simp [hf, hl] at hk
    | some i =>
      simp only [hf, hl] at hk
      rw [Option.filter_some, Option.filter_some, hk t]
      cases stale t i with
      | true => trivial
      | false => exact hk

end

variable [DecidableEq κ]

/-- An input for a key, with the time of the sweep if there is one. -/
def step : Machine (κ → Option σ) (κ × ι × τ) (κ × ο) := fun f x =>
  (F.machine ((f x.1).getD F.init) x.2.1).map fun p =>
    let f' := Function.update f x.1 (some p.1)
    (if (f x.1).isSome then f' else F.sweep x.2.2 f', p.2.map fun o => (x.1, o))

/-- The outputs of a key's machine. -/
def outputs (k : κ) (out : List (κ × ο)) : List ο :=
  (out.filter fun o => o.1 = k).map Prod.snd

@[simp] theorem outputs_nil (k : κ) : outputs k ([] : List (κ × ο)) = [] := rfl

theorem outputs_append (k : κ) (out out' : List (κ × ο)) :
    outputs k (out ++ out') = outputs k out ++ outputs k out' := by
  simp [outputs]

theorem outputs_tag_self (k : κ) (out : List ο) : outputs k (out.map fun o => (k, o)) = out := by
  simp [outputs, List.filter_map, Function.comp_def]

theorem outputs_tag_of_ne {k k' : κ} (h : k' ≠ k) (out : List ο) :
    outputs k (out.map fun o => (k', o)) = [] := by
  simp [outputs, List.filter_map, Function.comp_def, h]

/-! ### When a machine is replaced -/

section

variable (stale : τ → ι → Bool)

/-- The last input of each machine there is, after an input. -/
def track (last : κ → Option ι) (x : κ × ι × τ) : κ → Option ι :=
  let last' := Function.update last x.1 (some x.2.1)
  if (last x.1).isSome then last' else fun k => (last' k).filter fun i => !stale x.2.2 i

/-- What an input does to the slot of a key: it goes to its machine, or it takes the machine away, or
    both, or neither. -/
def eventsOf (k : κ) (last : κ → Option ι) (x : κ × ι × τ) : List (Option ι) :=
  (if x.1 = k then [some x.2.1] else []) ++
    if (x.1 = k ∨ (last k).isSome) ∧ track stale last x k = none then [none] else []

/-- What some inputs do to the slot of a key. -/
def events (k : κ) : (κ → Option ι) → List (κ × ι × τ) → List (Option ι)
  | _, [] => []
  | last, x :: xs => eventsOf stale k last x ++ events k (track stale last x) xs

end

variable {F} {stale : τ → ι → Bool} {f f' : κ → Option σ} {last : κ → Option ι}

theorem Tracks.update (h : F.Tracks stale f last) {k : κ} {s : σ} {i : ι}
    (hs : ∀ t, F.expired t s = stale t i) :
    F.Tracks stale (Function.update f k (some s)) (Function.update last k (some i)) := by
  intro k'
  by_cases hk : k' = k
  · subst hk
    simpa using hs
  · simpa [hk] using h k'

/-- A machine's last input decides whether it has expired. -/
def DecidedBy (F : Family σ ι ο τ) (stale : τ → ι → Bool) : Prop :=
  ∀ s i s' out, F.machine s i = some (s', out) → ∀ t, F.expired t s' = stale t i

/-- The slots after a step, by whether there was a machine for the key. -/
theorem step_eq_some {x : κ × ι × τ} {out : List (κ × ο)} (h : F.step f x = some (f', out)) :
    ∃ s out', F.machine ((f x.1).getD F.init) x.2.1 = some (s, out') ∧
      out = out'.map (fun o => (x.1, o)) ∧
      f' = if (f x.1).isSome then Function.update f x.1 (some s)
        else F.sweep x.2.2 (Function.update f x.1 (some s)) := by
  obtain ⟨p, hp, heq⟩ := Option.map_eq_some_iff.mp h
  obtain ⟨rfl, rfl⟩ := Prod.mk.inj heq
  exact ⟨p.1, p.2, hp, rfl, rfl⟩

/-- A step keeps track. -/
theorem Tracks.step (hF : F.DecidedBy stale) (h : F.Tracks stale f last) {x : κ × ι × τ}
    {out : List (κ × ο)} (hstep : F.step f x = some (f', out)) :
    F.Tracks stale f' (track stale last x) := by
  obtain ⟨s, out', hs, -, rfl⟩ := step_eq_some hstep
  have hupdate := h.update (k := x.1) (hF _ _ _ _ hs)
  unfold track
  rw [h.isSome_eq x.1]
  cases (last x.1).isSome with
  | true => exact hupdate
  | false => exact hupdate.sweep x.2.2

/-- What is in the slot of a key after a step, if anything is. -/
theorem step_slot {x : κ × ι × τ} {s : σ} {out' : List ο} {out : List (κ × ο)}
    (hs : F.machine ((f x.1).getD F.init) x.2.1 = some (s, out'))
    (hstep : F.step f x = some (f', out)) (k : κ) :
    f' k = if (f' k).isSome then (if x.1 = k then some s else f k) else none := by
  obtain ⟨s₁, out₁, hs₁, -, hf'⟩ := step_eq_some hstep
  obtain ⟨rfl, -⟩ := Prod.mk.inj (Option.some.inj (hs.symm.trans hs₁))
  have hupdate : Function.update f x.1 (some s) k = if x.1 = k then some s else f k := by
    rw [Function.update_apply]
    simp only [eq_comm]
  rw [← hupdate]
  have hslot : f' k = Function.update f x.1 (some s) k ∨ f' k = none := by
    rw [hf']
    split_ifs
    · exact Or.inl rfl
    · unfold sweep
      cases Function.update f x.1 (some s) k with
      | none => exact Or.inl rfl
      | some s' =>
        rw [Option.filter_some]
        split_ifs
        · exact Or.inl rfl
        · exact Or.inr rfl
  rcases hslot with hsame | hnone
  · rw [← hsame]
    cases f' k <;> rfl
  · rw [hnone]
    rfl

/-- The slot of a key after a step. -/
theorem project_step (hF : F.DecidedBy stale) (h : F.Tracks stale f last) {x : κ × ι × τ}
    {out : List (κ × ο)} (hstep : F.step f x = some (f', out)) (k : κ) :
    (F.machine.slot F.init).run (f k) (eventsOf stale k last x) = some (f' k, outputs k out) := by
  obtain ⟨s, out', hs, rfl, -⟩ := step_eq_some hstep
  have hslot := step_slot hs hstep k
  have hgone : track stale last x k = none ↔ f' k = none := by
    rw [← Option.not_isSome_iff_eq_none, ← Option.not_isSome_iff_eq_none,
      (h.step hF hstep).isSome_eq k]
  unfold eventsOf
  simp only [hgone, ← h.isSome_eq k]
  by_cases hk : x.1 = k
  · subst hk
    have hinput : F.machine.slot F.init (f x.1) (some x.2.1) = some (some s, out') := by
      show (F.machine ((f x.1).getD F.init) x.2.1).map _ = _
      rw [hs]
      rfl
    rw [if_pos rfl] at hslot
    rw [if_pos rfl, List.singleton_append, Machine.run_cons_of_some _ hinput,
      Machine.run_slot_ite, outputs_tag_self]
    cases hf' : f' x.1 with
    | none => simp
    | some s' =>
      rw [hf', Option.isSome_some, if_pos rfl] at hslot
      simp [hslot]
  · rw [if_neg hk] at hslot
    rw [if_neg hk, List.nil_append, Machine.run_slot_ite, outputs_tag_of_ne hk]
    cases hf' : f' k with
    | none =>
      cases hf : f k with
      | none => simp
      | some s' => simp
    | some s' =>
      rw [hf', Option.isSome_some, if_pos rfl] at hslot
      simp [← hslot]

/-- **The projection rule.**  For a single key, a run of a family is a run of one machine, replaced by
    a new one at the events that say so. -/
theorem project_run (hF : F.DecidedBy stale) (xs : List (κ × ι × τ)) (h : F.Tracks stale f last)
    {out : List (κ × ο)} (hrun : F.step.run f xs = some (f', out)) (k : κ) :
    (F.machine.slot F.init).run (f k) (events stale k last xs) = some (f' k, outputs k out) := by
  induction xs generalizing f last out with
  | nil =>
    obtain ⟨rfl, rfl⟩ := Prod.mk.inj (Option.some.inj hrun)
    rfl
  | cons x xs ih =>
    obtain ⟨f₁, out₁, out₂, hx, hrun₁, rfl⟩ := Machine.run_cons_eq_some _ hrun
    have hfirst := project_step hF h hx k
    have hrest := ih (h.step hF hx) hrun₁
    rw [events, Machine.run_append, hfirst, Option.bind_some, hrest, outputs_append]
    rfl

/-! ### Machines that are never replaced -/

/-- The inputs for a key. -/
def inputs (k : κ) (xs : List (κ × ι × τ)) : List ι :=
  (xs.filter fun x => x.1 = k).map fun x => x.2.1

theorem inputs_cons (k : κ) (x : κ × ι × τ) (xs : List (κ × ι × τ)) :
    inputs k (x :: xs) = (if x.1 = k then [x.2.1] else []) ++ inputs k xs := by
  unfold inputs
  rw [List.filter_cons]
  split_ifs <;> simp_all

/-- The inputs among the events of a key are its own. -/
theorem reduceOption_events (k : κ) (xs : List (κ × ι × τ)) (last : κ → Option ι) :
    (events stale k last xs).reduceOption = inputs k xs := by
  induction xs generalizing last with
  | nil => rfl
  | cons x xs ih =>
    rw [events, List.reduceOption_append, ih, eventsOf, inputs_cons, List.reduceOption_append]
    split_ifs <;> rfl

/-- The last input for a key is never stale, whenever another one comes for any key. -/
def StaysFresh (stale : τ → ι → Bool) (k : κ) : Option ι → List (κ × ι × τ) → Prop
  | _, [] => True
  | i, x :: xs =>
    let i' := if x.1 = k then some x.2.1 else i
    (∀ j ∈ i', stale x.2.2 j = false) ∧ StaysFresh stale k i' xs

instance decidableStaysFresh (stale : τ → ι → Bool) (k : κ) :
    ∀ i xs, Decidable (StaysFresh stale k i xs)
  | _, [] => .isTrue trivial
  | i, x :: xs =>
    have := decidableStaysFresh stale k (if x.1 = k then some x.2.1 else i) xs
    inferInstanceAs (Decidable ((∀ j ∈ if x.1 = k then some x.2.1 else i, stale x.2.2 j = false) ∧ _))

/-- A machine whose last input is not stale stays. -/
theorem track_of_fresh {k : κ} {x : κ × ι × τ}
    (hfresh : ∀ j ∈ if x.1 = k then some x.2.1 else last k, stale x.2.2 j = false) :
    track stale last x k = if x.1 = k then some x.2.1 else last k := by
  have hupdate : Function.update last x.1 (some x.2.1) k =
      if x.1 = k then some x.2.1 else last k := by
    rw [Function.update_apply]
    simp only [eq_comm]
  rw [← hupdate] at hfresh ⊢
  unfold track
  split_ifs
  · rfl
  · show Option.filter _ (Function.update last x.1 (some x.2.1) k) = _
    cases hslot : Function.update last x.1 (some x.2.1) k with
    | none => rfl
    | some j =>
      rw [Option.filter_some, hfresh j hslot]
      rfl

/-- A machine whose last input is never stale is not taken away. -/
theorem events_of_staysFresh (k : κ) (xs : List (κ × ι × τ)) (last : κ → Option ι)
    (h : StaysFresh stale k (last k) xs) : events stale k last xs = (inputs k xs).map some := by
  induction xs generalizing last with
  | nil => rfl
  | cons x xs ih =>
    obtain ⟨hfresh, hrest⟩ := h
    have hlast : track stale last x k = if x.1 = k then some x.2.1 else last k :=
      track_of_fresh hfresh
    rw [events, ih _ (hlast ▸ hrest), eventsOf, hlast, inputs_cons]
    by_cases hk : x.1 = k
    · simp [hk]
    · cases hl : last k <;> simp [hk]

/-- A run of a family aborts when a run of one of its machines does. -/
theorem run_eq_none_iff (hF : F.DecidedBy stale) (xs : List (κ × ι × τ))
    (h : F.Tracks stale f last) :
    F.step.run f xs = none ↔
      ∃ k, (F.machine.slot F.init).run (f k) (events stale k last xs) = none := by
  constructor
  · intro hnone
    induction xs generalizing f last with
    | nil => cases hnone
    | cons x xs ih =>
      cases hx : F.step f x with
      | none =>
        refine ⟨x.1, ?_⟩
        have hinput : F.machine.slot F.init (f x.1) (some x.2.1) = none := by
          show (F.machine ((f x.1).getD F.init) x.2.1).map _ = none
          exact Option.map_eq_none_iff.mpr (Option.map_eq_none_iff.mp hx)
        rw [events, eventsOf, if_pos rfl, List.append_assoc, List.singleton_append, Machine.run,
          hinput]
      | some p =>
        obtain ⟨f₁, out₁⟩ := p
        have hrest : F.step.run f₁ xs = none := by
          rw [Machine.run_cons_of_some _ hx] at hnone
          exact Option.map_eq_none_iff.mp hnone
        obtain ⟨k, hk⟩ := ih (h.step hF hx) hrest
        refine ⟨k, ?_⟩
        rw [events, Machine.run_append, project_step hF h hx k, Option.bind_some, hk]
        rfl
  · rintro ⟨k, hk⟩
    cases hrun : F.step.run f xs with
    | none => rfl
    | some p => exact absurd (hk.symm.trans (project_run hF xs h hrun k)) (by simp)

end Family

end General
