import Mathlib.Tactic

/-!
# Programs that make calls

A `Program` makes calls whose results it does not control, and returns a value or throws.  It is run
against a handler, which answers each call and has a state of its own (`exec`), or against anything
at all: `Runs` is a run in which every call may get any result that is admitted.

`Safely` is the weakest precondition for a program to meet a condition at every call and not to
throw, with one rule for each way programs are built.  `ThrowsOn` says that a program throws if a
call has a result of a given kind, at once or later, and returns otherwise: `runs_iff` is what
follows for its runs.
-/

namespace General

/-- A program that makes calls; `Call ρ` are the calls with results in `ρ`. -/
inductive Program (Call : Type → Type) (α : Type) : Type 1 where
  | ret (a : α)
  | raise
  | call {ρ : Type} (op : Call ρ) (k : ρ → Program Call α)

/-- A call and its result. -/
structure CallResult (Call : Type → Type) : Type 1 where
  {ρ : Type}
  op : Call ρ
  result : ρ

namespace Program

variable {Call : Type → Type} {α β σ ρ : Type}

/-- One program after another. -/
def bind (p : Program Call α) (f : α → Program Call β) : Program Call β :=
  match p with
  | .ret a => f a
  | .raise => .raise
  | .call op k => .call op fun r => (k r).bind f

instance : Monad (Program Call) where
  pure := .ret
  bind := bind

/-- A call alone. -/
def perform (op : Call ρ) : Program Call ρ := .call op .ret

@[simp] theorem ret_bind (a : α) (f : α → Program Call β) : (pure a >>= f) = f a := rfl

@[simp] theorem raise_bind (f : α → Program Call β) :
    ((.raise : Program Call α) >>= f) = .raise := rfl

@[simp] theorem call_bind (op : Call ρ) (k : ρ → Program Call α) (f : α → Program Call β) :
    (.call op k >>= f) = .call op fun r => k r >>= f := rfl

@[simp] theorem perform_bind (op : Call ρ) (f : ρ → Program Call β) :
    (perform op >>= f) = .call op f := rfl

/-! ### Running against a handler -/

section

variable (handle : ⦃ρ : Type⦄ → Call ρ → σ → ρ × σ)

/-- The result, `none` for an exception, and the state of the handler after it. -/
def exec : Program Call α → σ → Option α × σ
  | .ret a, s => (some a, s)
  | .raise, s => (none, s)
  | .call op k, s => exec (k (handle op s).1) (handle op s).2

/-- The program does not throw, and every call is made in a state of the handler that meets `P`. -/
def Safely (P : ⦃ρ : Type⦄ → Call ρ → σ → Prop) : Program Call α → σ → Prop
  | .ret _, _ => True
  | .raise, _ => False
  | .call op k, s => P op s ∧ Safely P (k (handle op s).1) (handle op s).2

@[simp] theorem exec_pure (a : α) (s : σ) :
    exec handle (pure a : Program Call α) s = (some a, s) := rfl

@[simp] theorem exec_raise (s : σ) :
    exec handle (.raise : Program Call α) s = (none, s) := rfl

@[simp] theorem exec_call (op : Call ρ) (k : ρ → Program Call α) (s : σ) :
    exec handle (.call op k) s = exec handle (k (handle op s).1) (handle op s).2 := rfl

@[simp] theorem exec_perform (op : Call ρ) (s : σ) :
    exec handle (perform op) s = (some (handle op s).1, (handle op s).2) := rfl

/-- **The rule for one program after another.** -/
theorem exec_bind (p : Program Call α) (f : α → Program Call β) (s : σ) :
    exec handle (p >>= f) s =
      match exec handle p s with
      | (some a, s') => exec handle (f a) s'
      | (none, s') => (none, s') := by
  induction p generalizing s with
  | ret a => rfl
  | raise => rfl
  | call op k ih => exact ih _ _

theorem exec_bind_of_some {p : Program Call α} {f : α → Program Call β} {s s' : σ} {a : α}
    (h : exec handle p s = (some a, s')) :
    exec handle (p >>= f) s = exec handle (f a) s' := by
  rw [exec_bind, h]

theorem exec_bind_of_none {p : Program Call α} {f : α → Program Call β} {s s' : σ}
    (h : exec handle p s = (none, s')) : exec handle (p >>= f) s = (none, s') := by
  rw [exec_bind, h]

variable {P : ⦃ρ : Type⦄ → Call ρ → σ → Prop}

@[simp] theorem safely_pure (a : α) (s : σ) :
    Safely handle P (pure a : Program Call α) s ↔ True := Iff.rfl

@[simp] theorem safely_raise (s : σ) :
    Safely handle P (.raise : Program Call α) s ↔ False := Iff.rfl

@[simp] theorem safely_call (op : Call ρ) (k : ρ → Program Call α) (s : σ) :
    Safely handle P (.call op k) s ↔
      P op s ∧ Safely handle P (k (handle op s).1) (handle op s).2 := Iff.rfl

/-- A program that is safe does not throw. -/
theorem exec_of_safely {p : Program Call α} {s : σ} (h : Safely handle P p s) :
    ∃ a s', exec handle p s = (some a, s') := by
  induction p generalizing s with
  | ret a => exact ⟨a, s, rfl⟩
  | raise => exact h.elim
  | call op k ih => exact ih _ h.2

/-- **The rule for one program after another.** -/
theorem safely_bind (p : Program Call α) (f : α → Program Call β) (s : σ) :
    Safely handle P (p >>= f) s ↔
      Safely handle P p s ∧
        ∀ a s', exec handle p s = (some a, s') → Safely handle P (f a) s' := by
  induction p generalizing s with
  | ret a =>
    constructor
    · intro h
      refine ⟨trivial, ?_⟩
      rintro b s' heq
      obtain ⟨hb, rfl⟩ := Prod.mk.inj heq
      obtain rfl := Option.some.inj hb
      exact h
    · rintro ⟨-, h⟩
      exact h a s rfl
  | raise =>
    constructor
    · exact fun h => h.elim
    · exact fun h => h.1.elim
  | call op k ih =>
    rw [call_bind, safely_call, safely_call, ih, and_assoc]
    rfl

theorem safely_bind_of_some {p : Program Call α} {f : α → Program Call β} {s s' : σ} {a : α}
    (h : exec handle p s = (some a, s')) :
    Safely handle P (p >>= f) s ↔ Safely handle P p s ∧ Safely handle P (f a) s' := by
  rw [safely_bind]
  refine and_congr_right fun _ => ?_
  constructor
  · exact fun hrest => hrest a s' h
  · intro hrest b t hexec
    rw [h] at hexec
    obtain ⟨hb, rfl⟩ := Prod.mk.inj hexec
    obtain rfl := Option.some.inj hb
    exact hrest

/-- Every call that the program may make meets `Q`. -/
def MakesOnly (Q : ⦃ρ : Type⦄ → Call ρ → Prop) : Program Call α → Prop
  | .ret _ => True
  | .raise => True
  | .call op k => Q op ∧ ∀ r, MakesOnly Q (k r)

theorem MakesOnly.bind {Q : ⦃ρ : Type⦄ → Call ρ → Prop} {p : Program Call α}
    {f : α → Program Call β} (hp : p.MakesOnly Q) (hf : ∀ a, (f a).MakesOnly Q) :
    (p >>= f).MakesOnly Q := by
  induction p with
  | ret a => exact hf a
  | raise => trivial
  | call op k ih => exact ⟨hp.1, fun r => ih r (hp.2 r)⟩

/-- Of a program whose calls all meet the condition anyway, what is left is that it returns. -/
theorem safely_iff_of_makesOnly {Q : ⦃ρ : Type⦄ → Call ρ → Prop}
    (hQ : ∀ ⦃ρ : Type⦄ (op : Call ρ) (s : σ), Q op → P op s) {p : Program Call α}
    (hp : p.MakesOnly Q) (s : σ) : Safely handle P p s ↔ (exec handle p s).1.isSome := by
  induction p generalizing s with
  | ret a => exact iff_of_true trivial rfl
  | raise => exact iff_of_false id (by simp)
  | call op k ih => exact (and_iff_right (hQ op s hp.1)).trans (ih _ (hp.2 _) _)

end

/-! ### Running against anything -/

/-- A run: the calls with their results, each admitted, and how it ends. -/
inductive Runs (admits : ⦃ρ : Type⦄ → Call ρ → ρ → Prop) :
    Program Call α → List (CallResult Call) → Option α → Prop where
  | ret (a : α) : Runs admits (.ret a) [] (some a)
  | raise : Runs admits .raise [] none
  | call {ρ : Type} {op : Call ρ} {k : ρ → Program Call α} {r : ρ}
      {trace : List (CallResult Call)} {result : Option α} (hr : admits op r)
      (h : Runs admits (k r) trace result) : Runs admits (.call op k) (⟨op, r⟩ :: trace) result

/-- Running against a handler is a run, if the handler gives admitted results. -/
theorem runs_exec (handle : ⦃ρ : Type⦄ → Call ρ → σ → ρ × σ)
    {admits : ⦃ρ : Type⦄ → Call ρ → ρ → Prop}
    (hadmits : ∀ {ρ : Type} (op : Call ρ) (s : σ), admits op (handle op s).1)
    (p : Program Call α) (s : σ) : ∃ trace, Runs admits p trace (exec handle p s).1 := by
  induction p generalizing s with
  | ret a => exact ⟨[], .ret a⟩
  | raise => exact ⟨[], .raise⟩
  | call op k ih =>
    obtain ⟨trace, h⟩ := ih (handle op s).1 (handle op s).2
    exact ⟨_, .call (hadmits op s) h⟩

/-- The program throws if a call has a result of `T`, or if `b` holds, and returns otherwise. -/
def ThrowsOn (T : ⦃ρ : Type⦄ → Call ρ → ρ → Prop) (b : Prop) : Program Call α → Prop
  | .ret _ => ¬ b
  | .raise => b
  | .call op k => ∀ r, ThrowsOn T (b ∨ T op r) (k r)

variable {T : ⦃ρ : Type⦄ → Call ρ → ρ → Prop} {b b' : Prop}

/-- **The exceptions of a program**: it returns, unless one of its calls has a result of `T`. -/
theorem runs_iff {admits : ⦃ρ : Type⦄ → Call ρ → ρ → Prop} {p : Program Call α}
    {trace : List (CallResult Call)} {result : Option α} (hp : ThrowsOn T b p)
    (h : Runs admits p trace result) :
    result.isSome ↔ ¬ b ∧ ∀ c ∈ trace, ¬ T c.op c.result := by
  induction h generalizing b with
  | ret a => simpa [ThrowsOn] using hp
  | raise => simpa [ThrowsOn] using hp
  | call hr h ih =>
    rw [ih (hp _), List.forall_mem_cons, not_or, and_assoc]

theorem ThrowsOn.congr {p : Program Call α} (hp : ThrowsOn T b p) (h : b ↔ b') :
    ThrowsOn T b' p :=
  propext h ▸ hp

/-- **The rule for one program after another.** -/
theorem ThrowsOn.bind {p : Program Call α} {f : α → Program Call β} (hp : ThrowsOn T b p)
    (hf : ∀ a, ThrowsOn T b' (f a)) : ThrowsOn T (b ∨ b') (p >>= f) := by
  induction p generalizing b with
  | ret a =>
    have hb : ¬ b := hp
    exact (hf a).congr (by tauto)
  | raise => exact Or.inl hp
  | call op k ih =>
    intro r
    exact (ih r (hp r)).congr (by tauto)

theorem throwsOn_pure (a : α) : ThrowsOn T False (pure a : Program Call α) := id

/-- The rule for a program that has met no exception. -/
theorem ThrowsOn.then {p : Program Call α} {f : α → Program Call β} (hp : ThrowsOn T False p)
    (hf : ∀ a, ThrowsOn T b (f a)) : ThrowsOn T b (p >>= f) :=
  (hp.bind hf).congr (by tauto)

/-- A call that does not throw. -/
theorem throwsOn_perform {op : Call ρ} (hop : ∀ r, ¬ T op r) :
    ThrowsOn T False (perform op) := by
  intro r
  rintro (h | h)
  · exact h
  · exact hop r h

end Program

end General
