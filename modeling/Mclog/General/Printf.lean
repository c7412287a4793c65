import Mathlib.Tactic

/-!
# Format strings without arguments

What a printf-style function writes for a format when it is given no arguments: every character but
the percent sign stands for itself, and a directive for a text, if it is one that takes no argument.
Where directives write fewer percent signs than they are written with, a format stands for itself
exactly when it has none (`expand_eq_self_iff`).
-/

namespace General

namespace Printf

variable {α : Type} [DecidableEq α] (percent : α) (directive : α → Option (List α))

/-- What is written for a format; `none` where a directive is not complete, or not one of those that
    `directive` gives a text. -/
def expand : List α → Option (List α)
  | [] => some []
  | [c] => if c = percent then none else some [c]
  | c :: d :: s =>
    if c = percent then (directive d).bind fun t => (expand s).map (t ++ ·)
    else (expand (d :: s)).map (c :: ·)

theorem expand_cons_of_ne {c : α} (hc : c ≠ percent) (s : List α) :
    expand percent directive (c :: s) = (expand percent directive s).map (c :: ·) := by
  cases s with
  | nil => exact if_neg hc
  | cons d s => exact if_neg hc

/-- A format without directives stands for itself. -/
theorem expand_of_notMem {s : List α} (h : percent ∉ s) : expand percent directive s = some s := by
  induction s with
  | nil => rfl
  | cons c s ih =>
    obtain ⟨hc, hs⟩ := not_or.mp (mt List.mem_cons.mpr h)
    rw [expand_cons_of_ne percent directive (Ne.symm hc), ih hs]
    rfl

/-- **Percent signs are lost**, where no directive writes as many as it is written with. -/
theorem count_expand
    (hdirective : ∀ d t, directive d = some t → t.count percent < [percent, d].count percent)
    (s t : List α) (h : expand percent directive s = some t) :
    t.count percent ≤ s.count percent ∧ (percent ∈ s → t.count percent < s.count percent) := by
  induction s using expand.induct percent generalizing t with
  | case1 =>
    obtain rfl := Option.some.inj h
    simp
  | case2 => simp [expand] at h
  | case3 c hc =>
    rw [expand, if_neg hc] at h
    obtain rfl := Option.some.inj h
    simp [Ne.symm hc]
  | case4 d s ih =>
    -- A directive, and the rest behind it.
    rw [expand, if_pos rfl] at h
    obtain ⟨u, hu, h⟩ := Option.bind_eq_some_iff.mp h
    obtain ⟨v, hv, rfl⟩ := Option.map_eq_some_iff.mp h
    have hlost := hdirective d u hu
    have hrest := (ih v hv).1
    have hsplit : (percent :: d :: s).count percent =
        [percent, d].count percent + s.count percent := by
      rw [← List.count_append]
      rfl
    rw [List.count_append, hsplit]
    exact ⟨by omega, fun _ => by omega⟩
  | case5 c d s hc ih =>
    rw [expand, if_neg hc] at h
    obtain ⟨v, hv, rfl⟩ := Option.map_eq_some_iff.mp h
    obtain ⟨hle, hlt⟩ := ih v hv
    rw [List.count_cons_of_ne hc, List.count_cons_of_ne hc]
    refine ⟨hle, fun hmem => hlt ?_⟩
    exact (List.mem_cons.mp hmem).resolve_left (Ne.symm hc)

/-- **A format stands for itself exactly when it has no percent sign.** -/
theorem expand_eq_self_iff
    (hdirective : ∀ d t, directive d = some t → t.count percent < [percent, d].count percent)
    (s : List α) : expand percent directive s = some s ↔ percent ∉ s := by
  constructor
  · intro h hmem
    exact lt_irrefl _ ((count_expand percent directive hdirective s s h).2 hmem)
  · exact expand_of_notMem percent directive

end Printf

end General
