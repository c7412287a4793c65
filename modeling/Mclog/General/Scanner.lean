import Mathlib.Tactic

/-!
# Longest-match scanners

A scanner generated from rules tries every pattern that is active in its start condition at the
front of the input and takes the rule with the longest match, the first one among equals.  The
action of the rule gets the text matched and gives the next start condition and perhaps a token.

`mem_of_select` and the lemmas `literal_take`, `oneOf_take`, `many_take` and `upTo_take` say what
the text was that a rule has matched.

`Scanner.next` is one call of a scanner: it goes on until a rule gives a token or the input ends,
and leaves the start condition and the unread input for the next call.  `Scanner.scanAll` calls it
until the input ends.  `next_of_token`, `next_of_skip` and `scanAll_of_token`, `scanAll_of_skip`
say what one rule contributes.

A consumer that is fed with the tokens makes of them what a fold makes (`feed_fst`);
`Related.foldlM` is the induction for two of them.
-/

namespace General

/-- A pattern, as the length of its longest match at the front of an input; 0 when there is
    none. -/
structure Pattern (α : Type) where
  longest : List α → Nat
  /-- A match ends where the input ends, if not before. -/
  longest_le : ∀ input, longest input ≤ input.length

namespace Pattern

variable {α : Type}

/-- The given text. -/
def literal [BEq α] [LawfulBEq α] (s : List α) : Pattern α where
  longest input := if s.isPrefixOf input then s.length else 0
  longest_le := by
    intro input
    split_ifs with h
    · exact (List.isPrefixOf_iff_prefix.mp h).length_le
    · exact Nat.zero_le _

/-- Either of two patterns. -/
def either (p q : Pattern α) : Pattern α where
  longest input := max (p.longest input) (q.longest input)
  longest_le input := max_le (p.longest_le input) (q.longest_le input)

/-- As many characters of a class as there are, but not more than `n`. -/
def upTo (n : Nat) (ok : α → Bool) : Pattern α where
  longest input := min n (input.takeWhile ok).length
  longest_le _ := (Nat.min_le_right _ _).trans (List.takeWhile_prefix ok).length_le

/-- One character of a class. -/
def one (ok : α → Bool) : Pattern α := upTo 1 ok

/-- As many characters of a class as there are. -/
def many (ok : α → Bool) : Pattern α where
  longest input := (input.takeWhile ok).length
  longest_le _ := (List.takeWhile_prefix ok).length_le

/-- No text at all. -/
def nothing : Pattern α where
  longest _ := 0
  longest_le _ := Nat.zero_le _

/-- One of the given texts. -/
def oneOf [BEq α] [LawfulBEq α] (texts : List (List α)) : Pattern α :=
  (texts.map literal).foldr either nothing

/-- What a literal makes of a text does not depend on what follows, if that does not go on with the
    literal. -/
theorem literal_append [BEq α] [LawfulBEq α] {s w rest : List α}
    (h : ∀ c t, s = w ++ c :: t → c ∉ rest.head?) :
    (literal s).longest (w ++ rest) = (literal s).longest w := by
  have hiff : s <+: w ++ rest ↔ s <+: w := by
    constructor
    · intro hs
      by_cases hle : s.length ≤ w.length
      · exact List.prefix_of_prefix_length_le hs (List.prefix_append w rest) hle
      · -- The literal would go on into `rest`.
        exfalso
        obtain ⟨t, rfl⟩ : w <+: s :=
          List.prefix_of_prefix_length_le (List.prefix_append w rest) hs (by omega)
        rw [List.prefix_append_right_inj] at hs
        cases t with
        | nil => simp at hle
        | cons c t =>
          obtain ⟨u, rfl⟩ := hs
          exact h c t rfl (by simp)
    · intro hs
      exact hs.trans (List.prefix_append w rest)
  have heq : s.isPrefixOf (w ++ rest) = s.isPrefixOf w := by
    rw [Bool.eq_iff_iff, List.isPrefixOf_iff_prefix, List.isPrefixOf_iff_prefix, hiff]
  simp only [literal, heq]

/-- The same for a choice of literals. -/
theorem oneOf_append [BEq α] [LawfulBEq α] {texts : List (List α)} {w rest : List α}
    (h : ∀ s ∈ texts, ∀ c t, s = w ++ c :: t → c ∉ rest.head?) :
    (oneOf texts).longest (w ++ rest) = (oneOf texts).longest w := by
  induction texts with
  | nil => rfl
  | cons s texts ih =>
    have hrec := ih fun t ht => h t (by simp [ht])
    simp only [oneOf] at hrec
    simp only [oneOf, List.map_cons, List.foldr_cons, either, hrec,
      literal_append (h s (by simp))]

/-- What a class makes of a text that leaves the class does not depend on what follows. -/
theorem many_append_of_leaves {ok : α → Bool} {w : List α} (hw : ∃ c ∈ w, ok c = false)
    (rest : List α) : (many ok).longest (w ++ rest) = (many ok).longest w := by
  induction w with
  | nil => simp at hw
  | cons c w ih =>
    by_cases hc : ok c = true
    · have hw' : ∃ d ∈ w, ok d = false := by
        obtain ⟨d, hd, hok⟩ := hw
        obtain rfl | hd := List.mem_cons.mp hd
        · rw [hc] at hok
          cases hok
        · exact ⟨d, hd, hok⟩
      simpa [many, hc] using ih hw'
    · simp [many, hc]

theorem upTo_append_of_leaves {n : Nat} {ok : α → Bool} {w : List α} (hw : ∃ c ∈ w, ok c = false)
    (rest : List α) : (upTo n ok).longest (w ++ rest) = (upTo n ok).longest w :=
  congrArg (min n) (many_append_of_leaves hw rest)

/-- One character is all that the pattern for one looks at. -/
theorem one_append {ok : α → Bool} {w : List α} (hw : w ≠ []) (rest : List α) :
    (one ok).longest (w ++ rest) = (one ok).longest w := by
  cases w with
  | nil => exact absurd rfl hw
  | cons c w =>
    by_cases hc : ok c = true
    · simp only [one, upTo, List.cons_append, List.takeWhile_cons, hc, if_true, List.length_cons]
      omega
    · simp [one, upTo, hc]

/-- A literal does not match an input that starts with another character. -/
theorem literal_of_head_ne [BEq α] [LawfulBEq α] {d : α} {s : List α} (hne : s ≠ [])
    (h : d ∉ s.head?) (input : List α) : (literal s).longest (d :: input) = 0 := by
  cases s with
  | nil => exact absurd rfl hne
  | cons c s =>
    have hcd : c ≠ d := by simpa using h
    simp [literal, hcd]

theorem oneOf_of_head_ne [BEq α] [LawfulBEq α] {d : α} {texts : List (List α)}
    (h : ∀ s ∈ texts, s ≠ [] ∧ d ∉ s.head?) (input : List α) :
    (oneOf texts).longest (d :: input) = 0 := by
  induction texts with
  | nil => rfl
  | cons s texts ih =>
    have hrec := ih fun t ht => h t (by simp [ht])
    obtain ⟨hne, hd⟩ := h s (by simp)
    simp only [oneOf] at hrec
    simp only [oneOf, List.map_cons, List.foldr_cons, either, hrec, literal_of_head_ne hne hd,
      Nat.max_self]

/-- A class does not match an input that starts with a character outside it. -/
theorem many_of_head (ok : α → Bool) {c : α} (h : ok c = false) (input : List α) :
    (many ok).longest (c :: input) = 0 := by
  simp [many, h]

theorem upTo_of_head (n : Nat) (ok : α → Bool) {c : α} (h : ok c = false) (input : List α) :
    (upTo n ok).longest (c :: input) = 0 := by
  simp [upTo, h]

/-- A run of a class is matched up to where it ends. -/
theorem many_append {ok : α → Bool} {w rest : List α} (hw : ∀ c ∈ w, ok c = true)
    (hrest : ∀ c ∈ rest.head?, ok c = false) : (many ok).longest (w ++ rest) = w.length := by
  have htake : rest.takeWhile ok = [] := by
    cases rest with
    | nil => rfl
    | cons c rest => simp [hrest c (by simp)]
  show ((w ++ rest).takeWhile ok).length = w.length
  rw [List.takeWhile_append_of_pos hw, htake, List.append_nil]

theorem upTo_append {n : Nat} {ok : α → Bool} {w rest : List α} (hw : ∀ c ∈ w, ok c = true)
    (hrest : ∀ c ∈ rest.head?, ok c = false) :
    (upTo n ok).longest (w ++ rest) = min n w.length :=
  congrArg (min n) (many_append hw hrest)

/-- A match of a literal is the literal. -/
theorem literal_take [BEq α] [LawfulBEq α] {s input : List α} (h : 0 < (literal s).longest input) :
    input.take ((literal s).longest input) = s := by
  have hstarts : s.isPrefixOf input = true := by
    by_contra hno
    simp [literal, hno] at h
  have hlong : (literal s).longest input = s.length := by
    show (if s.isPrefixOf input then s.length else 0) = s.length
    rw [if_pos hstarts]
  rw [hlong]
  exact (List.prefix_iff_eq_take.mp (List.isPrefixOf_iff_prefix.mp hstarts)).symm

/-- A match of a choice of literals is one of them. -/
theorem oneOf_take [BEq α] [LawfulBEq α] {texts : List (List α)} {input : List α}
    (h : 0 < (oneOf texts).longest input) :
    input.take ((oneOf texts).longest input) ∈ texts := by
  induction texts with
  | nil => exact absurd h (lt_irrefl 0)
  | cons s texts ih =>
    have hmax : (oneOf (s :: texts)).longest input =
        max ((literal s).longest input) ((oneOf texts).longest input) := rfl
    rw [hmax] at h ⊢
    rcases le_total ((literal s).longest input) ((oneOf texts).longest input) with hle | hle
    · rw [max_eq_right hle] at h ⊢
      exact List.mem_cons_of_mem s (ih h)
    · rw [max_eq_left hle] at h ⊢
      rw [literal_take h]
      exact List.mem_cons_self

/-- A match of a class has characters of the class only. -/
theorem many_take (ok : α → Bool) (input : List α) :
    ∀ c ∈ input.take ((many ok).longest input), ok c = true := by
  have htake : input.take ((many ok).longest input) = input.takeWhile ok :=
    (List.prefix_iff_eq_take.mp (List.takeWhile_prefix ok)).symm
  intro c hc
  rw [htake] at hc
  exact List.all_eq_true.mp List.all_takeWhile c hc

theorem upTo_take (n : Nat) (ok : α → Bool) (input : List α) :
    ∀ c ∈ input.take ((upTo n ok).longest input), ok c = true := by
  intro c hc
  have hle : (upTo n ok).longest input ≤ (many ok).longest input := Nat.min_le_right _ _
  exact many_take ok input c (List.take_subset_take_left input hle hc)

end Pattern

/-! ### Selection -/

section

variable {α β : Type}

/-- The rule that matches: of those with the longest match the first. -/
def select : List (Pattern α × β) → List α → Option (Nat × β)
  | [], _ => none
  | (p, b) :: rules, input =>
    match select rules input with
    | none => if p.longest input = 0 then none else some (p.longest input, b)
    | some (n, c) => if n ≤ p.longest input then some (p.longest input, b) else some (n, c)

/-- The selection depends on the lengths of the matches only. -/
theorem select_congr {rules : List (Pattern α × β)} {input input' : List α}
    (h : ∀ r ∈ rules, r.1.longest input = r.1.longest input') :
    select rules input = select rules input' := by
  induction rules with
  | nil => rfl
  | cons r rules ih =>
    obtain ⟨p, b⟩ := r
    have hp : p.longest input = p.longest input' := h (p, b) (by simp)
    simp only [select, ih fun r hr => h r (by simp [hr]), hp]

/-- The rule selected is the one between shorter matches before it and no longer ones after it. -/
theorem select_of_split {rules : List (Pattern α × β)} (before after : List (Pattern α × β))
    {p : Pattern α} {b : β} {input : List α} (hrules : rules = before ++ (p, b) :: after)
    (hbefore : ∀ r ∈ before, r.1.longest input < p.longest input)
    (hafter : ∀ r ∈ after, r.1.longest input ≤ p.longest input) (hpos : 0 < p.longest input) :
    select rules input = some (p.longest input, b) := by
  have hle : ∀ (rs : List (Pattern α × β)) (n : Nat) (c : β),
      (∀ r ∈ rs, r.1.longest input ≤ p.longest input) → select rs input = some (n, c) →
      n ≤ p.longest input := by
    intro rs
    induction rs with
    | nil => intro n c _ h; cases h
    | cons r rs ih =>
      intro n c hrs h
      obtain ⟨q, d⟩ := r
      have hq : q.longest input ≤ p.longest input := hrs (q, d) (by simp)
      have hrec := ih
      simp only [select] at h
      cases hsel : select rs input with
      | none =>
        simp only [hsel] at h
        split_ifs at h
        obtain ⟨rfl, -⟩ := Prod.mk.inj (Option.some.inj h)
        exact hq
      | some x =>
        obtain ⟨m, e⟩ := x
        simp only [hsel] at h
        split_ifs at h
        · obtain ⟨rfl, -⟩ := Prod.mk.inj (Option.some.inj h)
          exact hq
        · obtain ⟨rfl, rfl⟩ := Prod.mk.inj (Option.some.inj h)
          exact hrec m e (fun r hr => hrs r (by simp [hr])) hsel
  subst hrules
  induction before with
  | nil =>
    simp only [List.nil_append, select]
    cases hsel : select after input with
    | none => simp only [if_neg hpos.ne']
    | some x =>
      obtain ⟨n, c⟩ := x
      simp only [if_pos (hle after n c hafter hsel)]
  | cons r before ih =>
    obtain ⟨q, d⟩ := r
    have hq : q.longest input < p.longest input := hbefore (q, d) (by simp)
    simp only [List.cons_append, select, ih fun r hr => hbefore r (by simp [hr])]
    rw [if_neg (by omega)]

/-- A match takes at least one character, and no more than there are. -/
theorem select_bounds {rules : List (Pattern α × β)} {input : List α} {n : Nat} {b : β}
    (h : select rules input = some (n, b)) : 0 < n ∧ n ≤ input.length := by
  induction rules generalizing n b with
  | nil => cases h
  | cons r rules ih =>
    obtain ⟨p, b'⟩ := r
    have hle := p.longest_le input
    simp only [select] at h
    cases hrec : select rules input with
    | none =>
      simp only [hrec] at h
      split_ifs at h with hp
      obtain ⟨rfl, -⟩ := Prod.mk.inj (Option.some.inj h)
      exact ⟨Nat.pos_of_ne_zero hp, hle⟩
    | some q =>
      obtain ⟨m, c⟩ := q
      have hm := ih hrec
      simp only [hrec] at h
      split_ifs at h with hmp
      · obtain ⟨rfl, -⟩ := Prod.mk.inj (Option.some.inj h)
        omega
      · obtain ⟨rfl, -⟩ := Prod.mk.inj (Option.some.inj h)
        exact hm

/-- The rule selected is one of the rules, with its longest match. -/
theorem mem_of_select {rules : List (Pattern α × β)} {input : List α} {n : Nat} {b : β}
    (h : select rules input = some (n, b)) : ∃ p, (p, b) ∈ rules ∧ p.longest input = n := by
  induction rules generalizing n b with
  | nil => cases h
  | cons r rules ih =>
    obtain ⟨p, c⟩ := r
    have hfirst : p.longest input = n → c = b →
        ∃ q, (q, b) ∈ (p, c) :: rules ∧ q.longest input = n := by
      rintro hn rfl
      exact ⟨p, by simp, hn⟩
    simp only [select] at h
    cases hrec : select rules input with
    | none =>
      simp only [hrec] at h
      split_ifs at h
      obtain ⟨hn, hb⟩ := Prod.mk.inj (Option.some.inj h)
      exact hfirst hn hb
    | some q =>
      obtain ⟨m, d⟩ := q
      simp only [hrec] at h
      split_ifs at h
      · obtain ⟨hn, hb⟩ := Prod.mk.inj (Option.some.inj h)
        exact hfirst hn hb
      · obtain ⟨rfl, rfl⟩ := Prod.mk.inj (Option.some.inj h)
        obtain ⟨p', hp', hlong⟩ := ih hrec
        exact ⟨p', List.mem_cons_of_mem _ hp', hlong⟩

/-- Where a rule matches, one is selected. -/
theorem select_ne_none {rules : List (Pattern α × β)} {input : List α} {r : Pattern α × β}
    (hr : r ∈ rules) (hpos : 0 < r.1.longest input) : select rules input ≠ none := by
  induction rules with
  | nil => cases hr
  | cons q rules ih =>
    obtain ⟨p, c⟩ := q
    cases hrec : select rules input with
    | none =>
      obtain rfl | hr := List.mem_cons.mp hr
      · have hpos' : p.longest input ≠ 0 := hpos.ne'
        simp [select, hrec, hpos']
      · exact absurd hrec (ih hr)
    | some x =>
      obtain ⟨m, d⟩ := x
      simp only [select, hrec]
      split_ifs <;> simp

/-- The rule that matches: the length of the text it takes, and what its action makes of that. -/
def selectResult {γ : Type} (rules : List (Pattern α × (List α → γ))) (input : List α) :
    Option (Nat × γ) :=
  (select rules input).map fun q => (q.1, q.2 (input.take q.1))

end

/-! ### Scanners -/

/-- A scanner: for each start condition its rules, with their actions. -/
structure Scanner (σ α τ : Type) where
  rules : σ → List (Pattern α × (List α → σ × Option τ))

namespace Scanner

variable {σ α τ : Type} (sc : Scanner σ α τ)

/-- At most `fuel` rules of one call: the token, the start condition and the unread input. -/
def nextUpTo : Nat → σ → List α → Option τ × σ × List α
  | 0, s, input => (none, s, input)
  | fuel + 1, s, input =>
    match select (sc.rules s) input with
    | none => (none, s, input)
    | some (n, action) =>
      match action (input.take n) with
      | (s', some t) => (some t, s', input.drop n)
      | (s', none) => nextUpTo fuel s' (input.drop n)

/-- One call.  Each rule takes at least one character, so the length of the input is fuel
    enough. -/
def next (s : σ) (input : List α) : Option τ × σ × List α := sc.nextUpTo input.length s input

/-- At most `fuel` calls. -/
def scanUpTo : Nat → σ → List α → List τ
  | 0, _, _ => []
  | fuel + 1, s, input =>
    match sc.next s input with
    | (none, _, _) => []
    | (some t, s', rest) => t :: scanUpTo fuel s' rest

/-- The tokens of an input, from one call after another until the input ends. -/
def scanAll (s : σ) (input : List α) : List τ := sc.scanUpTo input.length s input

/-- At most `fuel` calls, whose tokens are fed to a consumer until it stops with an error: its state
    or its error, the start condition and the unread input. -/
def feedUpTo {π ε : Type} (consume : π → τ → Except ε π) :
    Nat → σ → List α → π → Except ε π × σ × List α
  | 0, s, input, p => (.ok p, s, input)
  | fuel + 1, s, input, p =>
    match sc.next s input with
    | (none, s', rest) => (.ok p, s', rest)
    | (some t, s', rest) =>
      match consume p t with
      | .error e => (.error e, s', rest)
      | .ok p' => feedUpTo consume fuel s' rest p'

/-- A consumer fed with the tokens of an input. -/
def feed {π ε : Type} (consume : π → τ → Except ε π) (s : σ) (input : List α) (p : π) :
    Except ε π × σ × List α :=
  sc.feedUpTo consume input.length s input p

/-- Nothing matches at the end of the input. -/
theorem select_nil (s : σ) : select (sc.rules s) [] = none := by
  cases h : select (sc.rules s) [] with
  | none => rfl
  | some q =>
    have hb := select_bounds h
    simp only [List.length_nil] at hb
    omega

/-- Fuel beyond the length of the input changes nothing. -/
theorem nextUpTo_of_le (fuel : Nat) (s : σ) (input : List α) (h : input.length ≤ fuel) :
    sc.nextUpTo fuel s input = sc.next s input := by
  have key : ∀ (f g : Nat) (s : σ) (input : List α), input.length ≤ f → input.length ≤ g →
      sc.nextUpTo f s input = sc.nextUpTo g s input := by
    intro f
    induction f with
    | zero =>
      intro g s input hf _
      obtain rfl : input = [] := List.length_eq_zero_iff.mp (by omega)
      cases g with
      | zero => rfl
      | succ g => simp [nextUpTo, select_nil]
    | succ f ih =>
      intro g s input hf hg
      cases g with
      | zero =>
        obtain rfl : input = [] := List.length_eq_zero_iff.mp (by omega)
        simp [nextUpTo, select_nil]
      | succ g =>
        simp only [nextUpTo]
        cases hsel : select (sc.rules s) input with
        | none => rfl
        | some q =>
          obtain ⟨n, action⟩ := q
          have hb := select_bounds hsel
          have hdrop : (input.drop n).length = input.length - n := List.length_drop
          simp only
          split
          · rfl
          · exact ih g _ _ (by omega) (by omega)
  exact key fuel input.length s input h le_rfl

/-- A rule that gives a token ends the call. -/
theorem next_of_token {s s' : σ} {input : List α} {n : Nat} {action : List α → σ × Option τ}
    {t : τ} (hsel : select (sc.rules s) input = some (n, action))
    (ht : action (input.take n) = (s', some t)) :
    sc.next s input = (some t, s', input.drop n) := by
  have hb := select_bounds hsel
  obtain ⟨m, hm⟩ : ∃ m, input.length = m + 1 := ⟨input.length - 1, by omega⟩
  rw [next, hm, nextUpTo]
  simp only [hsel, ht]

/-- After a rule that gives no token the call goes on. -/
theorem next_of_skip {s s' : σ} {input : List α} {n : Nat} {action : List α → σ × Option τ}
    (hsel : select (sc.rules s) input = some (n, action))
    (ht : action (input.take n) = (s', none)) :
    sc.next s input = sc.next s' (input.drop n) := by
  have hb := select_bounds hsel
  have hdrop : (input.drop n).length = input.length - n := List.length_drop
  obtain ⟨m, hm⟩ : ∃ m, input.length = m + 1 := ⟨input.length - 1, by omega⟩
  rw [next, hm, nextUpTo]
  simp only [hsel, ht]
  exact sc.nextUpTo_of_le _ _ _ (by omega)

/-- A call reads at least one character before it gives a token. -/
theorem length_lt_of_next {s s' : σ} {input rest : List α} {t : τ}
    (h : sc.next s input = (some t, s', rest)) : rest.length < input.length := by
  have key : ∀ (fuel : Nat) (s : σ) (input : List α),
      sc.nextUpTo fuel s input = (some t, s', rest) → rest.length < input.length := by
    intro fuel
    induction fuel with
    | zero =>
      intro s input h
      simp [nextUpTo] at h
    | succ fuel ih =>
      intro s input h
      simp only [nextUpTo] at h
      cases hsel : select (sc.rules s) input with
      | none => simp [hsel] at h
      | some q =>
        obtain ⟨n, action⟩ := q
        have hb := select_bounds hsel
        have hdrop : (input.drop n).length = input.length - n := List.length_drop
        simp only [hsel] at h
        split at h
        · simp only [Prod.mk.injEq] at h
          rw [← h.2.2]
          omega
        · have := ih _ _ h
          omega
  exact key _ _ _ h

/-- Fuel beyond the length of the input changes nothing. -/
theorem scanUpTo_of_le (fuel : Nat) (s : σ) (input : List α) (h : input.length ≤ fuel) :
    sc.scanUpTo fuel s input = sc.scanAll s input := by
  have key : ∀ (f g : Nat) (s : σ) (input : List α), input.length ≤ f → input.length ≤ g →
      sc.scanUpTo f s input = sc.scanUpTo g s input := by
    intro f
    induction f with
    | zero =>
      intro g s input hf _
      obtain rfl : input = [] := List.length_eq_zero_iff.mp (by omega)
      cases g <;> rfl
    | succ f ih =>
      intro g s input hf hg
      cases g with
      | zero =>
        obtain rfl : input = [] := List.length_eq_zero_iff.mp (by omega)
        rfl
      | succ g =>
        simp only [scanUpTo]
        split
        · rfl
        · next t s' rest hnext =>
          have := sc.length_lt_of_next hnext
          rw [ih g _ _ (by omega) (by omega)]
  exact key fuel input.length s input h le_rfl

/-- A call that gives no token is one at the end of the input. -/
theorem scanAll_of_none {s : σ} {input : List α} (h : (sc.next s input).1 = none) :
    sc.scanAll s input = [] := by
  rw [scanAll]
  cases input.length with
  | zero => rfl
  | succ m =>
    rw [scanUpTo]
    split
    · rfl
    · next t s' rest hnext =>
      rw [hnext] at h
      cases h

theorem scanAll_of_next {s s' : σ} {input rest : List α} {t : τ}
    (h : sc.next s input = (some t, s', rest)) :
    sc.scanAll s input = t :: sc.scanAll s' rest := by
  have hlt := sc.length_lt_of_next h
  obtain ⟨m, hm⟩ : ∃ m, input.length = m + 1 := ⟨input.length - 1, by omega⟩
  rw [scanAll, hm, scanUpTo, h]
  simp only [List.cons.injEq, true_and]
  exact sc.scanUpTo_of_le _ _ _ (by omega)

/-- **A rule that gives a token**: the token, then those of what it leaves. -/
theorem scanAll_of_token {s s' : σ} {input : List α} {n : Nat} {action : List α → σ × Option τ}
    {t : τ} (hsel : select (sc.rules s) input = some (n, action))
    (ht : action (input.take n) = (s', some t)) :
    sc.scanAll s input = t :: sc.scanAll s' (input.drop n) :=
  sc.scanAll_of_next (sc.next_of_token hsel ht)

/-- **A rule that gives no token** only advances the scanner. -/
theorem scanAll_of_skip {s s' : σ} {input : List α} {n : Nat} {action : List α → σ × Option τ}
    (hsel : select (sc.rules s) input = some (n, action))
    (ht : action (input.take n) = (s', none)) :
    sc.scanAll s input = sc.scanAll s' (input.drop n) := by
  have hb := select_bounds hsel
  have hdrop : (input.drop n).length = input.length - n := List.length_drop
  have hnext := sc.next_of_skip hsel ht
  rcases h : sc.next s' (input.drop n) with ⟨t | t, s'', rest⟩
  · -- The call reaches the end of the input on both sides.
    rw [sc.scanAll_of_none (by rw [hnext, h]), sc.scanAll_of_none (by rw [h])]
  · rw [sc.scanAll_of_next (hnext.trans h), sc.scanAll_of_next h]

/-- The tokens of an input depend on the next call only. -/
theorem scanAll_of_next_eq {s s' : σ} {input input' : List α}
    (h : sc.next s input = sc.next s' input') : sc.scanAll s input = sc.scanAll s' input' := by
  rcases hnext : sc.next s' input' with ⟨t | t, s'', rest⟩
  · rw [sc.scanAll_of_none (by rw [h, hnext]), sc.scanAll_of_none (by rw [hnext])]
  · rw [sc.scanAll_of_next (h.trans hnext), sc.scanAll_of_next hnext]

/-- **A text that is scanned by itself**: its token, then those of what follows, if the patterns
    make of it the same with and without what follows. -/
theorem scanAll_append {s s' : σ} {w rest : List α} {t : τ}
    (happend : ∀ r ∈ sc.rules s, r.1.longest (w ++ rest) = r.1.longest w)
    (h : selectResult (sc.rules s) w = some (w.length, s', some t)) :
    sc.scanAll s (w ++ rest) = t :: sc.scanAll s' rest := by
  obtain ⟨⟨n, action⟩, hsel, hresult⟩ := Option.map_eq_some_iff.mp h
  obtain ⟨rfl, haction⟩ := Prod.mk.inj hresult
  have hsel' : select (sc.rules s) (w ++ rest) = some (w.length, action) := by
    rw [select_congr happend, hsel]
  have haction' : action ((w ++ rest).take w.length) = (s', some t) := by
    rw [List.take_left]
    simpa using haction
  rw [sc.scanAll_of_token hsel' haction', List.drop_left]

/-- Fuel beyond the length of the input changes nothing. -/
theorem feedUpTo_of_le {π ε : Type} (consume : π → τ → Except ε π) (fuel : Nat) (s : σ)
    (input : List α) (p : π) (h : input.length ≤ fuel) :
    sc.feedUpTo consume fuel s input p = sc.feed consume s input p := by
  have key : ∀ (f g : Nat) (s : σ) (input : List α) (p : π), input.length ≤ f →
      input.length ≤ g → sc.feedUpTo consume f s input p = sc.feedUpTo consume g s input p := by
    intro f
    induction f with
    | zero =>
      intro g s input p hf _
      obtain rfl : input = [] := List.length_eq_zero_iff.mp (by omega)
      cases g <;> rfl
    | succ f ih =>
      intro g s input p hf hg
      cases g with
      | zero =>
        obtain rfl : input = [] := List.length_eq_zero_iff.mp (by omega)
        rfl
      | succ g =>
        simp only [feedUpTo]
        rcases hnext : sc.next s input with ⟨t | t, s', rest⟩
        · rfl
        · have hlt := sc.length_lt_of_next hnext
          show (match consume p t with
              | .error e => _
              | .ok q => _) =
            match consume p t with
              | .error e => _
              | .ok q => _
          cases consume p t with
          | error e => rfl
          | ok q => exact ih g s' rest q (by omega) (by omega)
  exact key fuel input.length s input p h le_rfl

/-- What a consumer makes of an input depends on the next call only. -/
theorem feed_of_next_eq {π ε : Type} (consume : π → τ → Except ε π) {s s' : σ}
    {input input' : List α} (h : sc.next s input = sc.next s' input') (p : π) :
    sc.feed consume s input p = sc.feed consume s' input' p := by
  have hfuel : input.length ≤ input.length + input'.length + 1 := by omega
  have hfuel' : input'.length ≤ input.length + input'.length + 1 := by omega
  rw [← sc.feedUpTo_of_le consume _ s input p hfuel,
    ← sc.feedUpTo_of_le consume _ s' input' p hfuel', feedUpTo, feedUpTo, h]

/-- **What a consumer makes of an input** is what it makes of the tokens. -/
theorem feed_fst {π ε : Type} (consume : π → τ → Except ε π) (s : σ) (input : List α) (p : π) :
    (sc.feed consume s input p).1 = (sc.scanAll s input).foldlM consume p := by
  have key : ∀ (fuel : Nat) (s : σ) (input : List α) (p : π), input.length ≤ fuel →
      (sc.feedUpTo consume fuel s input p).1 = (sc.scanAll s input).foldlM consume p := by
    intro fuel
    induction fuel with
    | zero =>
      intro s input p hlen
      obtain rfl : input = [] := List.length_eq_zero_iff.mp (by omega)
      rfl
    | succ fuel ih =>
      intro s input p hlen
      rw [feedUpTo]
      rcases hnext : sc.next s input with ⟨t | t, s', rest⟩
      · rw [sc.scanAll_of_none (by rw [hnext])]
        rfl
      · have hlt := sc.length_lt_of_next hnext
        rw [sc.scanAll_of_next hnext, List.foldlM_cons]
        cases hstep : consume p t with
        | error e => simp only [hstep]; rfl
        | ok q =>
          simp only [hstep]
          exact ih s' rest q (by omega)
  exact key input.length s input p le_rfl

/-- **Two consumers in step**: they stop alike if their states are related, where `R` also knows the
    tokens still to come: a token takes related states to the same state, to the same error or to
    related states, and at the end of the input related states are equal. -/
theorem feed_eq {π ε : Type} (consume : π → τ → Except ε π) (R : π → π → List τ → Prop)
    (hnil : ∀ p p', R p p' [] → p = p')
    (hcons : ∀ p p' t ts, R p p' (t :: ts) → consume p t = consume p' t ∨
      ∃ q q', consume p t = .ok q ∧ consume p' t = .ok q' ∧ R q q' ts)
    (s : σ) (input : List α) {p p' : π} (h : R p p' (sc.scanAll s input)) :
    sc.feed consume s input p = sc.feed consume s input p' := by
  have key : ∀ (fuel : Nat) (s : σ) (input : List α) (p p' : π), input.length ≤ fuel →
      R p p' (sc.scanAll s input) →
      sc.feedUpTo consume fuel s input p = sc.feedUpTo consume fuel s input p' := by
    intro fuel
    induction fuel with
    | zero =>
      intro s input p p' hlen h
      obtain rfl : input = [] := List.length_eq_zero_iff.mp (by omega)
      rw [hnil p p' h]
    | succ fuel ih =>
      intro s input p p' hlen h
      simp only [feedUpTo]
      rcases hnext : sc.next s input with ⟨t | t, s', rest⟩
      · rw [sc.scanAll_of_none (by rw [hnext])] at h
        rw [hnil p p' h]
      · have hlt := sc.length_lt_of_next hnext
        rw [sc.scanAll_of_next hnext] at h
        show (match consume p t with
            | .error e => _
            | .ok q => _) =
          match consume p' t with
            | .error e => _
            | .ok q => _
        obtain heq | ⟨q, q', hq, hq', hR⟩ := hcons p p' t _ h
        · rw [heq]
        · rw [hq, hq']
          exact ih s' rest q q' (by omega) hR
  exact key input.length s input p p' le_rfl h

end Scanner

/-! ### Related consumers -/

/-- Two fallible results: both values, related by `R`, or both errors, related by `E`. -/
inductive Related {ε α : Type} (E : ε → ε → Prop) (R : α → α → Prop) :
    Except ε α → Except ε α → Prop where
  | ok {a a' : α} (h : R a a') : Related E R (.ok a) (.ok a')
  | error {e e' : ε} (h : E e e') : Related E R (.error e) (.error e')

namespace Related

variable {ε α β : Type} {E : ε → ε → Prop} {R : α → α → Prop} {S : β → β → Prop}

theorem refl (hE : ∀ e, E e e) (hR : ∀ a, R a a) (x : Except ε α) : Related E R x x := by
  cases x with
  | ok a => exact .ok (hR a)
  | error e => exact .error (hE e)

/-- Related results go on with related continuations. -/
theorem bind {x x' : Except ε α} {f f' : α → Except ε β} (h : Related E R x x')
    (hf : ∀ a a', R a a' → Related E S (f a) (f' a')) : Related E S (x >>= f) (x' >>= f') := by
  cases h with
  | ok h => exact hf _ _ h
  | error h => exact .error h

/-- **Related consumers of one input**: if each token takes related states to related results, so
    does a whole input. -/
theorem foldlM {τ : Type} {consume : α → τ → Except ε α}
    (hstep : ∀ p p' t, R p p' → Related E R (consume p t) (consume p' t)) {p p' : α}
    (h : R p p') (ts : List τ) : Related E R (ts.foldlM consume p) (ts.foldlM consume p') := by
  induction ts generalizing p p' with
  | nil => exact .ok h
  | cons t ts ih =>
    rw [List.foldlM_cons, List.foldlM_cons]
    exact (hstep p p' t h).bind fun _ _ hnext => ih hnext

end Related

end General
