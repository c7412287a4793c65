import Mathlib.Data.List.TakeWhile
import Mathlib.Tactic

/-!
# Formatted extraction from a character stream

An `Extractor` takes a value off the front of a stream, or fails: the stream gets its fail bit, or an
exception is thrown.  The stream is the list of the characters left; that it has met its end needs no
flag, since every extraction from what is left there fails.  `word`, `ws`, `line` and `exactly` are
the extractions that programs are made of, with `char` classes as parameters.

For each of them there is one lemma about a stream that starts with what it takes, and one that it
fails without an exception (`NeverThrows`, which `bind` keeps).  `extractAll` is the loop that
extracts until it fails.
-/

namespace General

/-- How an extraction fails. -/
inductive ExtractionError where
  | failbit
  | exception
deriving DecidableEq

/-- Takes a value off a stream. -/
abbrev Extractor (α β : Type) := List α → Except ExtractionError (β × List α)

namespace Extractor

variable {α β γ : Type}

instance : Monad (Extractor α) where
  pure b s := .ok (b, s)
  bind r f s := match r s with
    | .ok (b, rest) => f b rest
    | .error e => .error e

/-- Sets the fail bit. -/
def fail : Extractor α β := fun _ => .error .failbit

/-- Throws. -/
def throw : Extractor α β := fun _ => .error .exception

/-- White space skipped. -/
def ws (isspace : α → Bool) : Extractor α Unit := fun s => .ok ((), s.dropWhile isspace)

/-- A word: white space is skipped, then all up to the next is taken. -/
def word (isspace : α → Bool) : Extractor α (List α) := fun s =>
  let s := s.dropWhile isspace
  let w := s.takeWhile fun c => !isspace c
  if w = [] then .error .failbit else .ok (w, s.drop w.length)

/-- A line, without the character that ends it; the last may lack that. -/
def line [DecidableEq α] (newline : α) : Extractor α (List α) := fun s =>
  let l := s.takeWhile fun c => c ≠ newline
  if s = [] then .error .failbit else .ok (l, s.drop (l.length + 1))

/-- A number of characters. -/
def exactly (n : ℕ) : Extractor α (List α) := fun s =>
  if n ≤ s.length then .ok (s.take n, s.drop n) else .error .failbit

@[simp] theorem pure_apply (b : β) (s : List α) :
    (pure b : Extractor α β) s = .ok (b, s) := rfl

@[simp] theorem fail_apply (s : List α) : (fail : Extractor α β) s = .error .failbit := rfl

@[simp] theorem throw_apply (s : List α) : (throw : Extractor α β) s = .error .exception := rfl

theorem bind_of_ok {r : Extractor α β} {f : β → Extractor α γ} {s rest : List α} {b : β}
    (h : r s = .ok (b, rest)) : (r >>= f) s = f b rest := by
  show (match r s with
    | .ok (b, rest) => f b rest
    | .error e => .error e) = _
  rw [h]

theorem bind_of_error {r : Extractor α β} {f : β → Extractor α γ} {s : List α}
    {e : ExtractionError} (h : r s = .error e) : (r >>= f) s = .error e := by
  show (match r s with
    | .ok (b, rest) => f b rest
    | .error e => .error e) = _
  rw [h]

/-- **The rule for one extraction after another.** -/
theorem bind_eq_ok_iff {r : Extractor α β} {f : β → Extractor α γ} {s rest : List α} {c : γ} :
    (r >>= f) s = .ok (c, rest) ↔ ∃ b mid, r s = .ok (b, mid) ∧ f b mid = .ok (c, rest) := by
  cases h : r s with
  | error e =>
    rw [bind_of_error h]
    simp
  | ok p =>
    obtain ⟨b, mid⟩ := p
    rw [bind_of_ok h]
    constructor
    · exact fun hf => ⟨b, mid, rfl, hf⟩
    · rintro ⟨b', mid', heq, hf⟩
      obtain ⟨rfl, rfl⟩ := Prod.mk.inj (Except.ok.inj heq)
      exact hf

theorem bind_eq_error_iff {r : Extractor α β} {f : β → Extractor α γ} {s : List α}
    {e : ExtractionError} :
    (r >>= f) s = .error e ↔
      r s = .error e ∨ ∃ b mid, r s = .ok (b, mid) ∧ f b mid = .error e := by
  cases h : r s with
  | error e' =>
    rw [bind_of_error h]
    simp
  | ok p =>
    obtain ⟨b, mid⟩ := p
    rw [bind_of_ok h]
    constructor
    · exact fun hf => Or.inr ⟨b, mid, rfl, hf⟩
    · rintro (heq | ⟨b', mid', heq, hf⟩)
      · cases heq
      · obtain ⟨rfl, rfl⟩ := Prod.mk.inj (Except.ok.inj heq)
        exact hf

/-- An extraction has one result. -/
theorem ok_unique {r : Extractor α β} {s rest rest' : List α} {b b' : β} (h : r s = .ok (b, rest))
    (h' : r s = .ok (b', rest')) : b = b' ∧ rest = rest' :=
  Prod.mk.inj (Except.ok.inj (h.symm.trans h'))

/-! ### Failing without an exception -/

/-- Whenever the extraction fails, it sets the fail bit. -/
def NeverThrows (r : Extractor α β) : Prop := ∀ s e, r s = .error e → e = .failbit

theorem neverThrows_pure (b : β) : (pure b : Extractor α β).NeverThrows := by
  intro s e h
  cases h

theorem neverThrows_fail : (fail : Extractor α β).NeverThrows := by
  intro s e h
  exact (Except.error.inj h).symm

theorem neverThrows_word (isspace : α → Bool) : (word isspace).NeverThrows := by
  intro s e h
  unfold word at h
  dsimp only at h
  split_ifs at h
  exact (Except.error.inj h).symm

theorem neverThrows_line [DecidableEq α] (newline : α) : (line newline).NeverThrows := by
  intro s e h
  unfold line at h
  dsimp only at h
  split_ifs at h
  exact (Except.error.inj h).symm

theorem neverThrows_exactly (n : ℕ) : (exactly n : Extractor α (List α)).NeverThrows := by
  intro s e h
  unfold exactly at h
  split_ifs at h
  exact (Except.error.inj h).symm

/-- **One extraction after another** does not throw if neither does. -/
theorem NeverThrows.bind {r : Extractor α β} {f : β → Extractor α γ} (hr : r.NeverThrows)
    (hf : ∀ b, (f b).NeverThrows) : (r >>= f).NeverThrows := by
  intro s e h
  rcases bind_eq_error_iff.mp h with h | ⟨b, mid, -, h⟩
  · exact hr s e h
  · exact hf b mid e h

/-! ### Streams that start with what is taken -/

variable {isspace : α → Bool}

theorem dropWhile_of_head {s : List α} (h : ∀ c ∈ s.head?, isspace c = false) :
    s.dropWhile isspace = s := by
  cases s with
  | nil => rfl
  | cons c s =>
    rw [List.dropWhile_cons_of_neg]
    rw [h c rfl]
    exact Bool.false_ne_true

/-- A word that is followed by white space. -/
theorem word_append {blank w rest : List α} (hblank : ∀ c ∈ blank, isspace c = true)
    (hw : ∀ c ∈ w, isspace c = false) (hne : w ≠ []) (hrest : ∀ c ∈ rest.head?, isspace c = true) :
    word isspace (blank ++ w ++ rest) = .ok (w, rest) := by
  have hdrop : (blank ++ w ++ rest).dropWhile isspace = w ++ rest := by
    rw [List.append_assoc, List.dropWhile_append_of_pos hblank]
    apply dropWhile_of_head
    intro c hc
    cases w with
    | nil => exact absurd rfl hne
    | cons a w =>
      obtain rfl : a = c := Option.some.inj hc
      exact hw a List.mem_cons_self
  have htake : (w ++ rest).takeWhile (fun c => !isspace c) = w := by
    rw [List.takeWhile_append_of_pos fun c hc => by rw [hw c hc]; rfl]
    cases rest with
    | nil => simp
    | cons c rest => simp [hrest c rfl]
  unfold word
  dsimp only
  rw [hdrop, htake, if_neg hne, List.drop_left]

/-- **What a word is**: white space stands before it and after it, and none in it. -/
theorem word_eq_ok_iff {s w rest : List α} :
    word isspace s = .ok (w, rest) ↔
      ∃ blank, s = blank ++ w ++ rest ∧ (∀ c ∈ blank, isspace c = true) ∧ w ≠ [] ∧
        (∀ c ∈ w, isspace c = false) ∧ ∀ c ∈ rest.head?, isspace c = true := by
  constructor
  · intro h
    unfold word at h
    dsimp only at h
    split_ifs at h with hne
    obtain ⟨rfl, rfl⟩ := Prod.mk.inj (Except.ok.inj h)
    have hdrop : (s.dropWhile isspace).drop
        ((s.dropWhile isspace).takeWhile fun c => !isspace c).length =
          (s.dropWhile isspace).dropWhile fun c => !isspace c := by
      conv_lhs => rw [← List.takeWhile_append_dropWhile (p := fun c => !isspace c)
        (l := s.dropWhile isspace)]
      exact List.drop_left' (by rw [List.takeWhile_append_dropWhile])
    rw [hdrop]
    refine ⟨s.takeWhile isspace, ?_, fun c hc => List.mem_takeWhile_imp hc, hne, ?_, ?_⟩
    · rw [List.append_assoc, List.takeWhile_append_dropWhile, List.takeWhile_append_dropWhile]
    · intro c hc
      have hnot := List.mem_takeWhile_imp hc
      simpa using hnot
    · intro c hc
      have hnot := List.head?_dropWhile_not (fun c => !isspace c) (s.dropWhile isspace)
      rw [Option.mem_def] at hc
      rw [hc] at hnot
      simpa using hnot
  · rintro ⟨blank, rfl, hblank, hne, hw, hrest⟩
    exact word_append hblank hw hne hrest

theorem length_lt_of_word {s w rest : List α} (h : word isspace s = .ok (w, rest)) :
    rest.length < s.length := by
  obtain ⟨blank, rfl, -, hne, -, -⟩ := word_eq_ok_iff.mp h
  have hpos := List.length_pos_of_ne_nil hne
  rw [List.length_append, List.length_append]
  omega

theorem line_append [DecidableEq α] {newline : α} {l : List α} (hl : newline ∉ l)
    (rest : List α) : line newline (l ++ newline :: rest) = .ok (l, rest) := by
  have htake : (l ++ newline :: rest).takeWhile (fun c => c ≠ newline) = l := by
    rw [List.takeWhile_append_of_pos]
    · simp
    · intro c hc
      rw [decide_eq_true_eq]
      rintro rfl
      exact hl hc
  unfold line
  dsimp only
  rw [htake, if_neg (by simp), ← List.drop_drop, List.drop_left]
  rfl

theorem exactly_append {n : ℕ} {l : List α} (hl : l.length = n) (rest : List α) :
    exactly n (l ++ rest) = .ok (l, rest) := by
  unfold exactly
  rw [if_pos (by rw [List.length_append]; omega), List.take_left' hl, List.drop_left' hl]

/-! ### The loop -/

/-- Extracts at most `fuel` values, until it fails; `none` is an exception that ends the loop. -/
def extractUpTo (r : Extractor α β) : ℕ → List α → Option (List β)
  | 0, _ => some []
  | fuel + 1, s =>
    match r s with
    | .ok (b, rest) => (extractUpTo r fuel rest).map (b :: ·)
    | .error .failbit => some []
    | .error .exception => none

/-- Extracts until it fails.  Every extraction of a reader that consumes shortens the stream, so that
    the length of that is fuel enough. -/
def extractAll (r : Extractor α β) (s : List α) : Option (List β) :=
  extractUpTo r (s.length + 1) s

/-- Each extraction takes something. -/
def Consumes (r : Extractor α β) : Prop :=
  ∀ s b rest, r s = .ok (b, rest) → rest.length < s.length

theorem extractUpTo_of_lt {r : Extractor α β} (hr : r.Consumes) {f g : ℕ} {s : List α}
    (hf : s.length < f) (hg : s.length < g) : extractUpTo r f s = extractUpTo r g s := by
  induction f generalizing g s with
  | zero => omega
  | succ f ih =>
    obtain ⟨g, rfl⟩ : ∃ k, g = k + 1 := ⟨g - 1, by omega⟩
    unfold extractUpTo
    cases h : r s with
    | error e => cases e <;> rfl
    | ok p =>
      obtain ⟨b, rest⟩ := p
      have hlt := hr s b rest h
      have hrest : extractUpTo r f rest = extractUpTo r g rest := ih (by omega) (by omega)
      show (extractUpTo r f rest).map _ = (extractUpTo r g rest).map _
      rw [hrest]

theorem extractAll_of_ok {r : Extractor α β} (hr : r.Consumes) {s rest : List α} {b : β}
    (h : r s = .ok (b, rest)) : extractAll r s = (extractAll r rest).map (b :: ·) := by
  have hlt := hr s b rest h
  have hrest : extractUpTo r s.length rest = extractUpTo r (rest.length + 1) rest :=
    extractUpTo_of_lt hr hlt (by omega)
  unfold extractAll
  rw [← hrest, extractUpTo, h]

theorem extractAll_of_failbit {r : Extractor α β} {s : List α} (h : r s = .error .failbit) :
    extractAll r s = some [] := by
  unfold extractAll
  rw [extractUpTo, h]

theorem extractAll_of_exception {r : Extractor α β} {s : List α} (h : r s = .error .exception) :
    extractAll r s = none := by
  unfold extractAll
  rw [extractUpTo, h]

end Extractor

end General
