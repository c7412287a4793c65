import Mathlib.Tactic

/-!
# Shift-reduce parsers

A parser with a stack of symbols, of which the first is on top.  With the next token as lookahead
it reduces the top of its stack as long as it can, and then shifts the token.  Every reduction
shortens the stack.  At the end of the input it reduces once more without a lookahead.

`run_append` splits a run, and `run_cons_of_none`, `settle_of_reduce` and `settle_of_none` take it
step by step.  `parse_of_relation` is the other way round: what a stack that was reached says about
the tokens read.  `Alike.parse_eq` replaces a part of the input by another that no lookahead can tell
from it.
-/

namespace General

/-- A shift-reduce parser for tokens `τ` with stack symbols `σ`. -/
structure ShiftReduce (τ σ : Type) where
  /-- One reduction of the top of the stack, before the given lookahead; `none` when the parser
      shifts. -/
  reduce : Option τ → List σ → Option (List σ)
  /-- The stack after a token is shifted; `none` is an error. -/
  shift : τ → List σ → Option (List σ)
  /-- A reduction shortens the stack. -/
  reduce_lt : ∀ la s s', reduce la s = some s' → s'.length < s.length

namespace ShiftReduce

variable {τ σ : Type} (p : ShiftReduce τ σ)

/-- At most `fuel` reductions. -/
def settleUpTo (la : Option τ) : Nat → List σ → List σ
  | 0, s => s
  | fuel + 1, s =>
    match p.reduce la s with
    | none => s
    | some s' => settleUpTo la fuel s'

/-- All the reductions before a lookahead. -/
def settle (la : Option τ) (s : List σ) : List σ := p.settleUpTo la s.length s

/-- The stack after some tokens have been shifted, the first of them with reductions before it. -/
def run : List τ → List σ → Option (List σ)
  | [], s => some s
  | t :: ts, s => (p.shift t (p.settle (some t) s)).bind (run ts)

/-- The stack at the end of the input. -/
def parse (ts : List τ) : Option (List σ) := (p.run ts []).map (p.settle none)

theorem settleUpTo_of_le (la : Option τ) (fuel : Nat) (s : List σ) (h : s.length ≤ fuel) :
    p.settleUpTo la fuel s = p.settle la s := by
  have key : ∀ (f g : Nat) (s : List σ), s.length ≤ f → s.length ≤ g →
      p.settleUpTo la f s = p.settleUpTo la g s := by
    intro f
    induction f with
    | zero =>
      intro g s hf _
      obtain rfl : s = [] := List.length_eq_zero_iff.mp (by omega)
      cases g with
      | zero => rfl
      | succ g =>
        have hnone : p.reduce la [] = none := by
          cases h : p.reduce la [] with
          | none => rfl
          | some s' => exact absurd (p.reduce_lt _ _ _ h) (Nat.not_lt_zero _)
        simp [settleUpTo, hnone]
    | succ f ih =>
      intro g s hf hg
      cases hr : p.reduce la s with
      | none => cases g <;> simp [settleUpTo, hr]
      | some s' =>
        have hlt := p.reduce_lt _ _ _ hr
        obtain ⟨g, rfl⟩ : ∃ k, g = k + 1 := ⟨g - 1, by omega⟩
        simp only [settleUpTo, hr]
        exact ih g s' (by omega) (by omega)
  exact key fuel s.length s h le_rfl

/-- One reduction of the settling. -/
theorem settle_of_reduce {la : Option τ} {s s' : List σ} (h : p.reduce la s = some s') :
    p.settle la s = p.settle la s' := by
  have hlt := p.reduce_lt _ _ _ h
  obtain ⟨n, hn⟩ : ∃ n, s.length = n + 1 := ⟨s.length - 1, by omega⟩
  rw [settle, hn, settleUpTo, h]
  exact p.settleUpTo_of_le la n s' (by omega)

/-- The end of the settling. -/
theorem settle_of_none {la : Option τ} {s : List σ} (h : p.reduce la s = none) :
    p.settle la s = s := by
  rw [settle]
  cases s.length with
  | zero => rfl
  | succ n => simp [settleUpTo, h]

/-- Tokens one after another. -/
theorem run_append (ts us : List τ) (s : List σ) :
    p.run (ts ++ us) s = (p.run ts s).bind (p.run us) := by
  induction ts generalizing s with
  | nil => rfl
  | cons t ts ih =>
    simp only [List.cons_append, run]
    cases p.shift t (p.settle (some t) s) with
    | none => rfl
    | some s' => exact ih s'

/-- A token before which nothing is reduced. -/
theorem run_cons_of_none {t : τ} {ts : List τ} {s : List σ} (h : p.reduce (some t) s = none) :
    p.run (t :: ts) s = (p.shift t s).bind (p.run ts) := by
  rw [run, p.settle_of_none h]

/-- What every reduction keeps is kept by all of them. -/
theorem settle_of_invariant {P : List σ → Prop} {la : Option τ}
    (hreduce : ∀ s s', p.reduce la s = some s' → P s → P s') {s : List σ} (h : P s) :
    P (p.settle la s) := by
  have key : ∀ (fuel : Nat) (s : List σ), P s → P (p.settleUpTo la fuel s) := by
    intro fuel
    induction fuel with
    | zero => exact fun s h => h
    | succ fuel ih =>
      intro s h
      rw [settleUpTo]
      cases hr : p.reduce la s with
      | none => exact h
      | some s' => exact ih s' (hreduce s s' hr h)
  exact key s.length s h

/-- **What a parser has read**: if `R` relates the empty stack to no tokens, is kept by reductions
    and extended by shifts, then it relates the stack at the end to all of the input. -/
theorem parse_of_relation {R : List σ → List τ → Prop} (hnil : R [] [])
    (hreduce : ∀ la s s' ts, p.reduce la s = some s' → R s ts → R s' ts)
    (hshift : ∀ t s s' ts, p.shift t s = some s' → R s ts → R s' (ts ++ [t]))
    {input : List τ} {s : List σ} (h : p.parse input = some s) : R s input := by
  have hrun : ∀ (ts : List τ) (s s' : List σ) (read : List τ), p.run ts s = some s' → R s read →
      R s' (read ++ ts) := by
    intro ts
    induction ts with
    | nil =>
      intro s s' read h hR
      obtain rfl : s = s' := Option.some.inj h
      rwa [List.append_nil]
    | cons t ts ih =>
      intro s s' read h hR
      obtain ⟨s₁, hs₁, hrest⟩ := Option.bind_eq_some_iff.mp h
      have hsettled : R (p.settle (some t) s) read :=
        p.settle_of_invariant (fun s s' hr => hreduce _ s s' read hr) hR
      have := ih s₁ s' (read ++ [t]) hrest (hshift t _ s₁ read hs₁ hsettled)
      rwa [List.append_assoc, List.singleton_append] at this
  obtain ⟨s₁, hs₁, rfl⟩ := Option.map_eq_some_iff.mp h
  have hread : R s₁ input := hrun input [] s₁ [] hs₁ hnil
  exact p.settle_of_invariant (fun s s' hr => hreduce _ s s' input hr) hread

/-- Two inputs that leave every stack alike, as far as any lookahead can tell. -/
def Alike (ts us : List τ) : Prop :=
  ∀ s la, (p.run ts s).map (p.settle la) = (p.run us s).map (p.settle la)

/-- **Inputs that are alike are alike in every surrounding.** -/
theorem Alike.parse_eq {p : ShiftReduce τ σ} {ts us : List τ} (h : p.Alike ts us)
    (before behind : List τ) :
    p.parse (before ++ ts ++ behind) = p.parse (before ++ us ++ behind) := by
  have hrun : ∀ s, ((p.run ts s).bind (p.run behind)).map (p.settle none) =
      ((p.run us s).bind (p.run behind)).map (p.settle none) := by
    intro s
    cases behind with
    | nil =>
      have hnil : ∀ r : Option (List σ), r.bind (p.run []) = r := by
        intro r
        cases r <;> rfl
      rw [hnil, hnil]
      exact h s none
    | cons t behind =>
      -- The first token behind settles both stacks.
      have hcons : ∀ r : Option (List σ), r.bind (p.run (t :: behind)) =
          (r.map (p.settle (some t))).bind fun s => (p.shift t s).bind (p.run behind) := by
        intro r
        cases r <;> rfl
      rw [hcons, hcons, h s (some t)]
  rw [parse, parse, List.append_assoc, List.append_assoc, run_append, run_append]
  cases p.run before [] with
  | none => rfl
  | some s =>
    rw [Option.bind_some, Option.bind_some, run_append, run_append]
    exact hrun s

end ShiftReduce

end General
