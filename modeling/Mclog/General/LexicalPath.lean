import Mathlib.Tactic
import Mathlib.Data.List.Infix

/-!
# Lexical paths

A path over an alphabet with a separator and a dot is a walk: its components, read from left to
right, stay (empty and `.`), go up (`..`) or go down (a name).  `locate` is where the walk ends, the
path's lexical normal form: how many uncancelled `..` it starts with and the names that follow.

`walk_eq_enter` is the composition law: walking a relative path from a location `d` is the same as
walking it from nowhere first and entering the result at `d`.  From it `strictlyInside_enter_iff`
gives the exact condition under which a relative path stays strictly inside the directory it is
appended to.
-/

namespace General

variable {α : Type}

/-- What one component of a path does. -/
inductive PathStep (α : Type) where
  | stay
  | up
  | down (name : List α)

/-- The step of a component: empty and `.` stay, `..` goes up, any other name goes down. -/
def pathStep [DecidableEq α] (dot : α) (c : List α) : PathStep α :=
  if c = [] ∨ c = [dot] then .stay
  else if c = [dot, dot] then .up
  else .down c

/-- A normalised path: the `..` left at its front and the names after them.  Above the root there is
    nothing, so an absolute location has no `..` left. -/
@[ext] structure Location (α : Type) where
  absolute : Bool
  ups : Nat
  names : List (List α)
  /-- The root has no parent. -/
  root_top : absolute = true → ups = 0
deriving DecidableEq

namespace Location

/-- The root directory. -/
def root : Location α := ⟨true, 0, [], fun _ => rfl⟩

/-- The current directory. -/
def here : Location α := ⟨false, 0, [], fun _ => rfl⟩

/-- One step from a location. -/
def step (l : Location α) : PathStep α → Location α
  | .stay => l
  | .down name => { l with names := l.names ++ [name] }
  | .up =>
    if l.names = [] then
      if h : l.absolute = true then l
      else { l with ups := l.ups + 1, root_top := fun h' => absurd h' h }
    else { l with names := l.names.dropLast }

/-- The location reached from `l` through the components `cs`. -/
def walk [DecidableEq α] (dot : α) (l : Location α) (cs : List (List α)) : Location α :=
  cs.foldl (fun l c => l.step (pathStep dot c)) l

/-- The location reached by going from `d` up `r.ups` times and then down `r.names`. -/
def enter (d r : Location α) : Location α where
  absolute := d.absolute
  ups := if d.absolute then 0 else d.ups + (r.ups - d.names.length)
  names := d.names.take (d.names.length - r.ups) ++ r.names
  root_top h := by simp [h]

/-- `p` is below `d` and not `d` itself. -/
structure StrictlyInside (p d : Location α) : Prop where
  absolute : p.absolute = d.absolute
  ups : p.ups = d.ups
  isPrefix : d.names <+: p.names
  ne : d.names ≠ p.names

instance [DecidableEq α] (p d : Location α) : Decidable (StrictlyInside p d) :=
  decidable_of_iff (p.absolute = d.absolute ∧ p.ups = d.ups ∧ d.names <+: p.names ∧
      d.names ≠ p.names)
    ⟨fun ⟨h₁, h₂, h₃, h₄⟩ => ⟨h₁, h₂, h₃, h₄⟩, fun h => ⟨h.1, h.2, h.3, h.4⟩⟩

@[simp] theorem walk_nil [DecidableEq α] (dot : α) (l : Location α) : l.walk dot [] = l := rfl

@[simp] theorem walk_cons [DecidableEq α] (dot : α) (l : Location α) (c : List α) (cs : List (List α)) :
    l.walk dot (c :: cs) = (l.step (pathStep dot c)).walk dot cs := rfl

theorem walk_append [DecidableEq α] (dot : α) (l : Location α) (cs ds : List (List α)) :
    l.walk dot (cs ++ ds) = (l.walk dot cs).walk dot ds := by
  simp [walk]

@[simp] theorem absolute_step (l : Location α) (s : PathStep α) :
    (l.step s).absolute = l.absolute := by
  cases s with
  | stay => rfl
  | down name => rfl
  | up => simp only [step]; split_ifs <;> rfl

@[simp] theorem absolute_walk [DecidableEq α] (dot : α) (l : Location α) (cs : List (List α)) :
    (l.walk dot cs).absolute = l.absolute := by
  induction cs generalizing l with
  | nil => rfl
  | cons c cs ih => rw [walk_cons, ih, absolute_step]

/-! ### Entering a relative path -/

/-- Entering the current directory changes nothing. -/
@[simp] theorem enter_here (d : Location α) : d.enter here = d := by
  ext1
  · rfl
  · by_cases h : d.absolute = true <;> simp [enter, here, h, d.root_top]
  · simp [enter, here]

/-- A step after entering is a step of the relative path entered. -/
theorem enter_step (d r : Location α) (hr : r.absolute = false) (s : PathStep α) :
    (d.enter r).step s = d.enter (r.step s) := by
  cases s with
  | stay => rfl
  | down name => ext1 <;> simp [enter, step]
  | up =>
    by_cases hn : r.names = []
    · -- The step climbs: it takes a name off `d`, or goes above `d`'s last one.
      have hstep : r.step .up = { r with ups := r.ups + 1, root_top := by simp [hr] } := by
        simp [step, hn, hr]
      rw [hstep]
      by_cases hu : r.ups < d.names.length
      · have hne : (d.enter r).names ≠ [] := by
          have : 0 < (d.enter r).names.length := by simp [enter, hn]; omega
          exact List.ne_nil_of_length_pos this
        simp only [step, if_neg hne]
        ext1
        · rfl
        · simp only [enter]; split_ifs <;> omega
        · simp only [enter, hn, List.append_nil]
          rw [List.dropLast_eq_take, List.take_take, List.length_take]
          congr 1
          omega
      · have hnil : (d.enter r).names = [] := by
          have h0 : d.names.length - r.ups = 0 := by omega
          simp [enter, hn, h0]
        have h0 : d.names.length - (r.ups + 1) = 0 := by omega
        have h0' : d.names.length - r.ups = 0 := by omega
        by_cases ha : d.absolute = true
        · simp only [step, if_pos hnil]
          rw [dif_pos (by simpa [enter] using ha)]
          ext1
          · rfl
          · simp [enter, ha]
          · simp [enter, h0, h0']
        · simp only [step, if_pos hnil]
          rw [dif_neg (by simpa [enter] using ha)]
          ext1
          · rfl
          · simp only [enter, if_neg ha]; omega
          · simp [enter, h0, h0']
    · have hne : (d.enter r).names ≠ [] := by simp [enter, hn]
      simp only [step, if_neg hne, if_neg hn]
      ext1
      · rfl
      · rfl
      · simp only [enter, List.dropLast_append_of_ne_nil hn]

/-- **Composition of walks**: walking a relative path from `d` is walking it from the current
    directory and entering the result at `d`. -/
theorem walk_eq_enter [DecidableEq α] (dot : α) (d : Location α) (cs : List (List α)) :
    d.walk dot cs = d.enter ((here : Location α).walk dot cs) := by
  induction cs using List.reverseRecOn with
  | nil => simp
  | append_singleton cs c ih =>
    rw [walk_append, walk_append, ih, walk_cons, walk_cons, walk_nil, walk_nil,
      enter_step d _ (by simp [here])]

/-- The names that the relative path `r` takes off `d` it enters again, and then goes on. -/
structure StaysInside (d r : Location α) : Prop where
  climb : r.ups ≤ d.names.length ∨ d.absolute = true
  isPrefix : d.names.drop (d.names.length - r.ups) <+: r.names
  ne : d.names.drop (d.names.length - r.ups) ≠ r.names

instance [DecidableEq α] (d r : Location α) : Decidable (StaysInside d r) :=
  decidable_of_iff ((r.ups ≤ d.names.length ∨ d.absolute = true) ∧
      d.names.drop (d.names.length - r.ups) <+: r.names ∧
      d.names.drop (d.names.length - r.ups) ≠ r.names)
    ⟨fun ⟨h₁, h₂, h₃⟩ => ⟨h₁, h₂, h₃⟩, fun h => ⟨h.1, h.2, h.3⟩⟩

/-- A walk without `..` goes down through the names among its components. -/
theorem walk_of_not_up [DecidableEq α] (dot : α) (l : Location α) (cs : List (List α))
    (hup : ∀ c ∈ cs, c ≠ [dot, dot]) :
    (l.walk dot cs).ups = l.ups ∧
      (l.walk dot cs).names = l.names ++ cs.filter fun c => ¬(c = [] ∨ c = [dot]) := by
  induction cs generalizing l with
  | nil => simp
  | cons c cs ih =>
    obtain ⟨hups, hnames⟩ := ih (l.step (pathStep dot c)) fun c' hc' => hup c' (by simp [hc'])
    rw [walk_cons, hups, hnames]
    unfold pathStep
    by_cases hstay : c = [] ∨ c = [dot]
    · rw [if_pos hstay, List.filter_cons_of_neg (by simp [hstay])]
      exact ⟨rfl, rfl⟩
    · rw [if_neg hstay, if_neg (hup c (by simp)), List.filter_cons_of_pos (by simpa using hstay)]
      exact ⟨rfl, by simp [step]⟩

/-- A relative path without `..`, with a name among its components, stays inside. -/
theorem staysInside_of_not_up [DecidableEq α] (dot : α) (d : Location α) {cs : List (List α)}
    (hup : ∀ c ∈ cs, c ≠ [dot, dot]) (hname : ∃ c ∈ cs, ¬(c = [] ∨ c = [dot])) :
    StaysInside d ((here : Location α).walk dot cs) := by
  obtain ⟨hups, hnames⟩ := walk_of_not_up dot here cs hup
  have hdrop : d.names.drop (d.names.length - ((here : Location α).walk dot cs).ups) = [] := by
    rw [hups, show (here : Location α).ups = 0 from rfl, Nat.sub_zero, List.drop_length]
  refine ⟨Or.inl ?_, ?_, ?_⟩
  · rw [hups]
    exact Nat.zero_le _
  · rw [hdrop]
    exact List.nil_prefix
  · obtain ⟨c, hc, hdown⟩ := hname
    rw [hdrop, hnames]
    refine (List.ne_nil_of_mem (List.mem_append_right _ (List.mem_filter.mpr ⟨hc, ?_⟩))).symm
    simpa using hdown

/-- **When a relative path stays inside**: `r` entered at `d` is strictly inside `d` exactly when it
    does not climb above what is known of `d`, and goes down again through the names it left. -/
theorem strictlyInside_enter_iff (d r : Location α) :
    StrictlyInside (d.enter r) d ↔ StaysInside d r := by
  have hsplit := List.take_append_drop (d.names.length - r.ups) d.names
  have hpre : d.names <+: (d.enter r).names ↔
      d.names.drop (d.names.length - r.ups) <+: r.names := by
    conv_lhs => rw [← hsplit]
    exact List.prefix_append_right_inj _
  have heq : d.names = (d.enter r).names ↔ d.names.drop (d.names.length - r.ups) = r.names := by
    conv_lhs => lhs; rw [← hsplit]
    exact List.append_cancel_left_eq _ _ _ |>.to_iff
  have hups : (d.enter r).ups = d.ups ↔ r.ups ≤ d.names.length ∨ d.absolute = true := by
    by_cases ha : d.absolute = true
    · simp [enter, ha, d.root_top ha]
    · have hu : (d.enter r).ups = d.ups + (r.ups - d.names.length) := if_neg ha
      rw [hu]
      constructor
      · intro h
        left
        omega
      · rintro (h | h)
        · omega
        · exact absurd h ha
  constructor
  · rintro ⟨-, hu, hp, hne⟩
    exact ⟨hups.mp hu, hpre.mp hp, fun h => hne (heq.mpr h)⟩
  · rintro ⟨hc, hp, hne⟩
    exact ⟨rfl, hups.mpr hc, hpre.mpr hp, fun h => hne (heq.mp h)⟩

end Location

/-! ### Paths as character strings -/

open Location

variable [DecidableEq α] (sep dot : α)

/-- Where a path leads, lexically. -/
def locate (p : List α) : Location α :=
  (if p.head? = some sep then root else here).walk dot (p.splitOn sep)

/-- Where a relative path leads from the current directory. -/
def locateFrom (p : List α) : Location α := (here : Location α).walk dot (p.splitOn sep)

/-- A relative path after a directory and a separator is entered at the directory. -/
theorem locate_append_sep (d p : List α) (hd : d ≠ []) :
    locate sep dot (d ++ sep :: p) = (locate sep dot d).enter (locateFrom sep dot p) := by
  obtain ⟨c, d, rfl⟩ := List.exists_cons_of_ne_nil hd
  rw [locate, List.splitOn_append_cons_self, walk_append, walk_eq_enter dot _ (p.splitOn sep)]
  rfl

/-- Whether a path is absolute is decided by its first character. -/
theorem absolute_locate (p : List α) :
    (locate sep dot p).absolute = decide (p.head? = some sep) := by
  rw [locate, absolute_walk]
  split_ifs with h
  · simp [root, h]
  · simp [here, h]

/-- Nothing under the root is inside the empty path. -/
theorem not_strictlyInside_of_nil (p : List α) :
    ¬ StrictlyInside (locate sep dot ([] ++ sep :: p)) (locate sep dot []) := by
  intro h
  have := h.absolute
  simp [absolute_locate] at this

end General
