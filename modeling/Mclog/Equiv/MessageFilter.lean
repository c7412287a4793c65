import Mclog.Equiv.FilterScanner

/-!
# Filters mean what they say

The parser on the tokens of a written filter.  `Parses` says what running the parser on some tokens
comes to, at any place that takes operators of a level: an `Expression` with the right value, as soon
as the next token has made the parser reduce.  It holds for comparisons and is kept by parentheses,
`!`, `&&` and `||` (`Parses.parenthesized`, `.not`, `.and`, `.or`), so for every rendered tree
(`parses_render`).  With the scanner, a driver made of a written filter gives for every message the
truth value of the tree (`parseAll_of_spells`).
-/

namespace Mclog

open General

namespace MessageFilter

section

variable (engine : RegexEngine) (msg : Message)

/-! ### Places -/

/-- A stack on which an operand can be put whose operators are at least of the given level: what is
    on top is no handle, and takes no operand of a lower level. -/
def Opens (level : Nat) : List Symbol → Prop
  | [] => True
  | .tok .LPAREN :: _ => True
  | .tok .OR :: _ => 2 ≤ level
  | .tok .AND :: _ => 3 ≤ level
  | .tok .NOT :: _ => 3 ≤ level
  | _ => False

/-- A place for operators of a level takes those of higher levels. -/
theorem Opens.mono {level level' : Nat} (h : level ≤ level') {s : List Symbol}
    (hs : Opens level s) : Opens level' s := by
  unfold Opens at hs ⊢
  split at hs
  · trivial
  · trivial
  · exact hs.trans h
  · exact hs.trans h
  · exact hs.trans h
  · exact hs.elim

/-- The tops a place can have. -/
theorem Opens.cases {level : Nat} {s : List Symbol} (h : Opens level s) :
    s = [] ∨ (∃ t, s = .tok .LPAREN :: t) ∨ (∃ t, s = .tok .OR :: t ∧ 2 ≤ level) ∨
      (∃ t, s = .tok .AND :: t ∧ 3 ≤ level) ∨ ∃ t, s = .tok .NOT :: t ∧ 3 ≤ level := by
  unfold Opens at h
  split at h
  · exact Or.inl rfl
  · exact Or.inr (Or.inl ⟨_, rfl⟩)
  · exact Or.inr (Or.inr (Or.inl ⟨_, rfl, h⟩))
  · exact Or.inr (Or.inr (Or.inr (Or.inl ⟨_, rfl, h⟩)))
  · exact Or.inr (Or.inr (Or.inr (Or.inr ⟨_, rfl, h⟩)))
  · exact h.elim

/-- Nothing is reduced before the operand. -/
theorem reduce_of_opens {level : Nat} {s : List Symbol} (h : Opens level s) (la : Option Token) :
    reduce engine msg la s = none := by
  obtain rfl | ⟨t, rfl⟩ | ⟨t, rfl, -⟩ | ⟨t, rfl, -⟩ | ⟨t, rfl, -⟩ := h.cases
  all_goals rfl

/-- Before `||` an operand at the lowest level is left as it is. -/
theorem reduce_before_or {s : List Symbol} (h : Opens 1 s) (v : Bool) :
    reduce engine msg (some .OR) (.Expression v :: s) = none := by
  obtain rfl | ⟨t, rfl⟩ | ⟨t, rfl, hlevel⟩ | ⟨t, rfl, hlevel⟩ | ⟨t, rfl, hlevel⟩ := h.cases
  · rfl
  · rfl
  all_goals omega

/-- Before `&&` so is one under `||`, which `&&` precedes. -/
theorem reduce_before_and {s : List Symbol} (h : Opens 2 s) (v : Bool) :
    reduce engine msg (some .AND) (.Expression v :: s) = none := by
  obtain rfl | ⟨t, rfl⟩ | ⟨t, rfl, hlevel⟩ | ⟨t, rfl, hlevel⟩ | ⟨t, rfl, hlevel⟩ := h.cases
  · rfl
  · rfl
  · cases t with
    | nil => rfl
    | cons x t => cases x <;> rfl
  all_goals omega

/-! ### Operands -/

/-- Running the parser on the tokens, at any place of the level, comes to an `Expression` of the
    given value before every lookahead; before `&&` only if no `||` is open. -/
def Parses (ts : List Token) (v : Bool) (level : Nat) : Prop :=
  ∀ s, Opens level s → ∃ s', (parser engine msg).run ts s = some s' ∧
    ∀ la, (level = 1 → la ≠ some .AND) →
      (parser engine msg).settle la s' = (parser engine msg).settle la (.Expression v :: s)

variable {engine msg}

/-- What parses at places of a level does so at those of the levels below. -/
theorem Parses.mono {ts : List Token} {v : Bool} {level level' : Nat} (hle : level ≤ level')
    (hpos : 1 ≤ level) (h : Parses engine msg ts v level') : Parses engine msg ts v level := by
  intro s hs
  obtain ⟨s', hrun, hsettle⟩ := h s (hs.mono hle)
  exact ⟨s', hrun, fun la hla => hsettle la fun hone => hla (by omega)⟩

/-- The parser's reductions are those of the grammar. -/
theorem settle_reduce {la : Option Token} {s s' : List Symbol}
    (h : reduce engine msg la s = some s') :
    (parser engine msg).settle la s = (parser engine msg).settle la s' :=
  ShiftReduce.settle_of_reduce _ h

theorem settle_stop {la : Option Token} {s : List Symbol} (h : reduce engine msg la s = none) :
    (parser engine msg).settle la s = s :=
  ShiftReduce.settle_of_none _ h

/-- The run over one more token, when nothing is reduced before it. -/
theorem run_shift {t : Token} {s : List Symbol} (ts : List Token) (ht : t ≠ .YYerror)
    (h : reduce engine msg (some t) s = none) :
    (parser engine msg).run (t :: ts) s = (parser engine msg).run ts (.tok t :: s) := by
  rw [(parser engine msg).run_cons_of_none h]
  show (shift t s).bind _ = _
  rw [shift, if_neg ht, Option.bind_some]

/-- A token at a place for an operand. -/
theorem run_shift_of_opens {t : Token} {s : List Symbol} {level : Nat} (ts : List Token)
    (ht : t ≠ .YYerror) (hs : Opens level s) :
    (parser engine msg).run (t :: ts) s = (parser engine msg).run ts (.tok t :: s) :=
  run_shift ts ht (reduce_of_opens engine msg hs _)

/-- A run ends in a stack that the next token reduces to an `Expression`. -/
theorem Parses.of_run {ts : List Token} {v : Bool} (level : Nat)
    (h : ∀ s, Opens level s → ∃ s', (parser engine msg).run ts s = some s' ∧
      ∀ la, reduce engine msg la s' = some (.Expression v :: s)) :
    Parses engine msg ts v level := by
  intro s hs
  obtain ⟨s', hrun, hreduce⟩ := h s hs
  exact ⟨s', hrun, fun la _ => settle_reduce (hreduce la)⟩

/-- **Parentheses** make an operand for every place. -/
theorem Parses.parenthesized {ts : List Token} {v : Bool} (h : Parses engine msg ts v 1)
    (level : Nat) : Parses engine msg (.LPAREN :: ts ++ [.RPAREN]) v level := by
  refine Parses.of_run level fun s hs => ?_
  obtain ⟨s', hrun, hsettle⟩ := h (.tok .LPAREN :: s) trivial
  refine ⟨.tok .RPAREN :: .Expression v :: .tok .LPAREN :: s, ?_, fun la => rfl⟩
  have hstop : reduce engine msg (some .RPAREN) (.Expression v :: .tok .LPAREN :: s) = none := rfl
  rw [List.cons_append, run_shift_of_opens _ (by decide) hs, (parser engine msg).run_append, hrun,
    Option.bind_some]
  show ((parser engine msg).shift .RPAREN ((parser engine msg).settle (some .RPAREN) s')).bind _ = _
  rw [hsettle _ fun _ => by decide, settle_stop hstop]
  rfl

/-- **Negation** binds what follows it, up to the end of an operand of the highest level. -/
theorem Parses.not {ts : List Token} {v : Bool} (h : Parses engine msg ts v 3) :
    Parses engine msg (.NOT :: ts) (!v) 3 := by
  intro s hs
  obtain ⟨s', hrun, hsettle⟩ := h (.tok .NOT :: s) (le_refl 3)
  refine ⟨s', by rw [run_shift_of_opens _ (by decide) hs, hrun], fun la _ => ?_⟩
  have hreduce : reduce engine msg la (.Expression v :: .tok .NOT :: s) =
      some (.Expression (!v) :: s) := by
    have hshifts : shifts .NOT la = false := by
      unfold shifts
      split <;> rfl
    simp [reduce, hshifts]
  rw [hsettle la (fun h => absurd h (by decide)), settle_reduce hreduce]

/-- **Disjunction** is left associative. -/
theorem Parses.or {ts us : List Token} {v w : Bool} (h : Parses engine msg ts v 1)
    (h' : Parses engine msg us w 2) : Parses engine msg (ts ++ .OR :: us) (v || w) 1 := by
  intro s hs
  obtain ⟨s₁, hrun₁, hsettle₁⟩ := h s hs
  obtain ⟨s₂, hrun₂, hsettle₂⟩ := h' (.tok .OR :: .Expression v :: s) (le_refl 2)
  refine ⟨s₂, ?_, fun la hla => ?_⟩
  · rw [(parser engine msg).run_append, hrun₁, Option.bind_some]
    show ((parser engine msg).shift .OR ((parser engine msg).settle (some .OR) s₁)).bind _ = _
    rw [hsettle₁ _ fun _ => by decide,
      settle_stop (reduce_before_or engine msg hs v)]
    exact hrun₂
  · have hreduce : reduce engine msg la (.Expression w :: .tok .OR :: .Expression v :: s) =
        some (.Expression (v || w) :: s) := by
      have hshifts : shifts .OR la = false := by
        unfold shifts
        split
        · rfl
        · exact absurd rfl (hla rfl)
        · rfl
      simp [reduce, hshifts]
    rw [hsettle₂ la (fun h => absurd h (by decide)), settle_reduce hreduce]

/-- **Conjunction** is left associative and precedes disjunction. -/
theorem Parses.and {ts us : List Token} {v w : Bool} (h : Parses engine msg ts v 2)
    (h' : Parses engine msg us w 3) : Parses engine msg (ts ++ .AND :: us) (v && w) 2 := by
  intro s hs
  obtain ⟨s₁, hrun₁, hsettle₁⟩ := h s hs
  obtain ⟨s₂, hrun₂, hsettle₂⟩ := h' (.tok .AND :: .Expression v :: s) (le_refl 3)
  refine ⟨s₂, ?_, fun la _ => ?_⟩
  · rw [(parser engine msg).run_append, hrun₁, Option.bind_some]
    show ((parser engine msg).shift .AND ((parser engine msg).settle (some .AND) s₁)).bind _ = _
    rw [hsettle₁ _ (fun h => absurd h (by decide)),
      settle_stop (reduce_before_and engine msg hs v)]
    exact hrun₂
  · have hreduce : reduce engine msg la (.Expression w :: .tok .AND :: .Expression v :: s) =
        some (.Expression (v && w) :: s) := by
      have hshifts : shifts .AND la = false := by
        unfold shifts
        split <;> rfl
      simp [reduce, hshifts]
    rw [hsettle₂ la (fun h => absurd h (by decide)), settle_reduce hreduce]

/-! ### Comparisons -/

/-- The actions of the severity comparisons: the order of the numbers, the other way round. -/
theorem severityComparison_token (a b : Severity) (op : Comparison) :
    severityComparison a b op.token = some (op.holds (severeness a) (severeness b)) := by
  have heq : a = b ↔ severeness a = severeness b := by
    obtain ⟨a⟩ := a
    obtain ⟨b⟩ := b
    simp [severeness, UInt8.toNat_inj]
  have hlt : ∀ x y : Severity, severeness x < severeness y ↔ y.code < x.code := by
    intro x y
    rw [UInt8.lt_iff_toNat_lt]
    exact OrderDual.toDual_lt_toDual
  have hle : ∀ x y : Severity, severeness x ≤ severeness y ↔ y.code ≤ x.code := by
    intro x y
    rw [UInt8.le_iff_toNat_le]
    exact OrderDual.toDual_le_toDual
  cases op <;> simp [severityComparison, Comparison.token, Comparison.holds, heq, hlt, hle]

theorem facilityComparison_token (a b : Facility) (op : Comparison) :
    facilityComparison a b op.token = some (op.holds a.code.toNat b.code.toNat) := by
  have heq : a = b ↔ a.code.toNat = b.code.toNat := by
    obtain ⟨a⟩ := a
    obtain ⟨b⟩ := b
    simp [UInt8.toNat_inj]
  cases op <;> simp [facilityComparison, Comparison.token, Comparison.holds, heq,
    UInt8.lt_iff_toNat_lt, UInt8.le_iff_toNat_le]

theorem pidComparison_token (a b : UInt32) (op : Comparison) :
    pidComparison a b op.token = some (op.holds a.toNat b.toNat) := by
  cases op <;> simp [pidComparison, Comparison.token, Comparison.holds, UInt32.toNat_inj,
    UInt32.lt_iff_toNat_lt, UInt32.le_iff_toNat_le]

/-- A comparison of the form `subject op value`, from the action of its rule. -/
theorem parses_comparison {t x : Token} {v : Bool} (op : Comparison) (level : Nat)
    (ht : t ≠ .YYerror) (hx : x ≠ .YYerror)
    (hsubject : ∀ la s, reduce engine msg la (.tok t :: s) = none)
    (hrule : ∀ la s, reduce engine msg la (.tok x :: .tok op.token :: .tok t :: s) =
      some (.Expression v :: s)) :
    Parses engine msg [t, op.token, x] v level := by
  have hop : op.token ≠ .YYerror := by cases op <;> decide
  have hstop : ∀ la s, reduce engine msg la (.tok op.token :: s) = none := by
    intro la s
    cases op <;> rfl
  refine Parses.of_run level fun s hs => ⟨.tok x :: .tok op.token :: .tok t :: s, ?_, ?_⟩
  · rw [run_shift_of_opens _ ht hs, run_shift _ hop (hsubject _ _), run_shift _ hx (hstop _ _)]
    rfl
  · exact fun la => hrule la s

theorem parses_severity (op : Comparison) (value : Severity) (level : Nat) :
    Parses engine msg [.SEVERITY, op.token, .SEVVALUE value]
      (op.holds (severeness msg.header.severity) (severeness value)) level := by
  refine parses_comparison op level (by decide) (by simp) (fun _ _ => rfl) fun la s => ?_
  simp [reduce, severityComparison_token]

theorem parses_facility (op : Comparison) (value : Facility) (level : Nat) :
    Parses engine msg [.FACILITY, op.token, .FACVALUE value]
      (op.holds msg.header.facility.code.toNat value.code.toNat) level := by
  refine parses_comparison op level (by decide) (by simp) (fun _ _ => rfl) fun la s => ?_
  simp [reduce, facilityComparison_token]

theorem parses_pid (op : Comparison) (value : UInt32) (level : Nat) :
    Parses engine msg [.PID, op.token, .UINT32 value]
      (op.holds msg.header.origin.procid.toNat value.toNat) level := by
  refine parses_comparison op level (by decide) (by simp) (fun _ _ => rfl) fun la s => ?_
  simp [reduce, pidComparison_token]

/-- A comparison of a text with something in marks: the last three of its tokens are reduced by
    themselves, and then the comparison. -/
theorem parses_marked {t op mark x : Token} (value : Symbol) {v : Bool} (level : Nat)
    (hne : t ≠ .YYerror ∧ op ≠ .YYerror ∧ mark ≠ .YYerror ∧ x ≠ .YYerror)
    (ht : ∀ la s, reduce engine msg la (.tok t :: s) = none)
    (hop : ∀ la s, reduce engine msg la (.tok op :: s) = none)
    (hmark : ∀ la s, reduce engine msg la (.tok mark :: .tok op :: s) = none)
    (hx : ∀ la s, reduce engine msg la (.tok x :: .tok mark :: s) = none)
    (hvalue : ∀ la s, reduce engine msg la (.tok mark :: .tok x :: .tok mark :: s) =
      some (value :: s))
    (hrule : ∀ la s, reduce engine msg la (value :: .tok op :: .tok t :: s) =
      some (.Expression v :: s)) :
    Parses engine msg [t, op, mark, x, mark] v level := by
  obtain ⟨hne₁, hne₂, hne₃, hne₄⟩ := hne
  intro s hs
  refine ⟨.tok mark :: .tok x :: .tok mark :: .tok op :: .tok t :: s, ?_, fun la _ => ?_⟩
  · rw [run_shift_of_opens _ hne₁ hs, run_shift _ hne₂ (ht _ _), run_shift _ hne₃ (hop _ _),
      run_shift _ hne₄ (hmark _ _), run_shift _ hne₃ (hx _ _)]
    rfl
  · rw [settle_reduce (hvalue la _), settle_reduce (hrule la _)]

/-- A comparison of a text with something in marks, by an equality operator. -/
theorem parses_equality {mark x : Token} (subject : Subject) (equal : Bool) (value : Symbol)
    {v : Bool} (level : Nat) (hne : mark ≠ .YYerror ∧ x ≠ .YYerror)
    (hmark : ∀ la (op : Token) s, op = .EQUAL ∨ op = .NOTEQ →
      reduce engine msg la (.tok mark :: .tok op :: s) = none)
    (hx : ∀ la s, reduce engine msg la (.tok x :: .tok mark :: s) = none)
    (hvalue : ∀ la s, reduce engine msg la (.tok mark :: .tok x :: .tok mark :: s) =
      some (value :: s))
    (hrule : ∀ la s, reduce engine msg la
        (value :: .tok (if equal then .EQUAL else .NOTEQ) :: .tok subject.token :: s) =
      some (.Expression v :: s)) :
    Parses engine msg [subject.token, if equal then .EQUAL else .NOTEQ, mark, x, mark] v level := by
  have hsubject : ∀ la s, reduce engine msg la (.tok subject.token :: s) = none := by
    intro la s
    cases subject <;> rfl
  have hop : ∀ la s,
      reduce engine msg la (.tok (if equal then .EQUAL else .NOTEQ) :: s) = none := by
    intro la s
    cases equal <;> rfl
  refine parses_marked value level ⟨?_, ?_, hne.1, hne.2⟩ hsubject hop (fun la s => ?_) hx hvalue
    hrule
  · cases subject <;> decide
  · cases equal <;> decide
  · exact hmark la _ s (by cases equal <;> simp)

theorem textOf_token (subject : Subject) : textOf msg subject.token = some (subject.of msg) := by
  cases subject <;> rfl

theorem parses_string (subject : Subject) (equal : Bool) (text : Str) (level : Nat) :
    Parses engine msg
      [subject.token, if equal then .EQUAL else .NOTEQ, .QUOTE, .STRING text, .QUOTE]
      (decide (subject.of msg = text) == equal) level := by
  refine parses_equality subject equal (.QuotedString text) level ⟨by decide, by simp⟩ ?_
    (fun _ _ => rfl) (fun _ _ => rfl) fun la s => ?_
  · rintro la op s (rfl | rfl) <;> rfl
  · cases equal <;> simp [reduce, textOf_token, stringComparison]

theorem parses_regex (subject : Subject) (equal : Bool) (expr : Str) (level : Nat) :
    Parses engine msg
      [subject.token, if equal then .EQUAL else .NOTEQ, .SLASH, .REGEX expr, .SLASH]
      (engine.regex_match (subject.of msg) expr == equal) level := by
  refine parses_equality subject equal (.Regex expr) level ⟨by decide, by simp⟩ ?_
    (fun _ _ => rfl) (fun _ _ => rfl) fun la s => ?_
  · rintro la op s (rfl | rfl) <;> rfl
  · cases equal <;> simp [reduce, textOf_token, regexComparison]

theorem parses_text (subject : Subject) (equal : Bool) (operand : Operand engine) (level : Nat) :
    Parses engine msg
      (subject.token :: (if equal then Token.EQUAL else .NOTEQ) :: operand.piece.tokens)
      (operand.accepts (subject.of msg) == equal) level := by
  cases operand with
  | string text _ _ => exact parses_string subject equal text level
  | regex expr _ _ _ => exact parses_regex subject equal expr level

/-! ### Rendered trees -/

/-- The tokens of parenthesized pieces. -/
theorem Parses.of_parenthesized {ps : List Piece} {v : Bool} {level own : Nat}
    (hlevel : 1 ≤ level) (hown : 1 ≤ own) (h : Parses engine msg (ps.flatMap Piece.tokens) v own) :
    Parses engine msg ((MessageFilter.parenthesized (own < level) ps).flatMap Piece.tokens) v
      level := by
  by_cases hneeded : own < level
  · rw [MessageFilter.parenthesized, decide_eq_true hneeded, if_pos rfl, List.flatMap_append]
    exact (h.mono hown le_rfl).parenthesized level
  · rw [MessageFilter.parenthesized, decide_eq_false hneeded, if_neg (by decide)]
    exact h.mono (by omega) hlevel

/-- **A rendered tree parses to its truth value**, at any place its level allows. -/
theorem parses_render (e : Filter engine) (level : Nat) (h : 1 ≤ level ∧ level ≤ 3) :
    Parses engine msg ((e.render level).flatMap Piece.tokens) (e.holds msg) level := by
  induction e generalizing level with
  | severity op value _ => exact parses_severity op value level
  | facility op value _ => exact parses_facility op value level
  | pid op value => exact parses_pid op value level
  | text subject equal operand =>
    have htokens : (Filter.render (.text subject equal operand) level).flatMap Piece.tokens =
        subject.token :: (if equal then Token.EQUAL else .NOTEQ) :: operand.piece.tokens := by
      simp [Filter.render, Piece.tokens]
    rw [htokens]
    exact parses_text subject equal operand level
  | not e ih =>
    refine Parses.of_parenthesized h.1 (by decide) ?_
    exact (ih 3 (by decide)).not
  | and e f ihe ihf =>
    refine Parses.of_parenthesized h.1 (by decide) ?_
    rw [List.flatMap_append, List.flatMap_cons]
    exact (ihe 2 (by decide)).and (ihf 3 (by decide))
  | or e f ihe ihf =>
    refine Parses.of_parenthesized h.1 (by decide) ?_
    rw [List.flatMap_append, List.flatMap_cons]
    exact (ihe 1 (by decide)).or (ihf 2 (by decide))

/-- Tokens that parse at the lowest level are a sentence. -/
theorem parseTokens_of_parses {ts : List Token} {v : Bool} (h : Parses engine msg ts v 1) :
    parseTokens engine msg ts = some v := by
  obtain ⟨s', hrun, hsettle⟩ := h [] trivial
  have hstop : reduce engine msg none [.Expression v] = none := rfl
  rw [parseTokens, ShiftReduce.parse, hrun, Option.map_some, hsettle none (fun _ => by decide),
    settle_stop hstop]

/-- The tokens of a rendered tree are a sentence with its truth value. -/
theorem parseTokens_render (e : Filter engine) :
    parseTokens engine msg ((e.render 1).flatMap Piece.tokens) = some (e.holds msg) :=
  parseTokens_of_parses (parses_render e 1 (by decide))

/-! ### The pieces of a rendered tree -/

/-- The pieces an expression starts with. -/
def Piece.isFirst : Piece → Bool
  | .token .SEVERITY | .token .FACILITY | .token .PID | .token .HOST | .token .IDENT
  | .token .MSG | .token .NOT | .token .LPAREN => true
  | _ => false

/-- The pieces an expression ends with. -/
def Piece.isLast : Piece → Bool
  | .token (.SEVVALUE _) | .token (.FACVALUE _) | .token (.UINT32 _) | .token .RPAREN
  | .quoted _ | .regex _ => true
  | _ => false

variable (engine) in
/-- Pieces that make an expression: the scanner can take each, each can follow the one before, and
    they start and end as expressions do. -/
structure Written (ps : List Piece) : Prop where
  scannable : ∀ p ∈ ps, p.Scannable engine
  chain : ps.IsChain follows
  first : ∃ p ∈ ps.head?, p.isFirst = true
  last : ∃ p ∈ ps.getLast?, p.isLast = true

/-- What can stand before an expression. -/
theorem follows_isFirst {t : Token} (ht : t ∈ [Token.NOT, .LPAREN, .AND, .OR]) {p : Piece}
    (hp : p.isFirst = true) : follows (.token t) p := by
  unfold Piece.isFirst at hp
  split at hp
  all_goals first
    | fin_cases ht <;> exact ⟨by decide, by decide⟩
    | cases hp

/-- What can stand after an expression. -/
theorem isLast_follows {t : Token} (ht : t ∈ [Token.RPAREN, .AND, .OR]) {p : Piece}
    (hp : p.isLast = true) : follows p (.token t) := by
  have hword : t.isWord = false ∧ t ≠ .EQUAL := by
    fin_cases ht <;> exact ⟨rfl, by decide⟩
  cases p with
  | token u =>
    refine ⟨fun h => ?_, fun h => hword.2 h.2⟩
    rw [hword.1] at h
    cases h.2
  | quoted => trivial
  | regex => trivial

/-- One more piece in front. -/
theorem Written.cons {ps : List Piece} (h : Written engine ps) {t : Token}
    (ht : t ∈ [Token.NOT, .LPAREN]) : Written engine (.token t :: ps) := by
  obtain ⟨p, hp, hfirst⟩ := h.first
  have hne : ps ≠ [] := by
    rintro rfl
    simp at hp
  refine ⟨?_, ?_, ⟨.token t, by simp, ?_⟩, ?_⟩
  · intro q hq
    obtain rfl | hq := List.mem_cons.mp hq
    · fin_cases ht <;> exact .fixed (by decide)
    · exact h.scannable q hq
  · refine List.isChain_cons.mpr ⟨fun q hq => ?_, h.chain⟩
    obtain rfl : p = q := Option.mem_unique hp hq
    exact follows_isFirst (by fin_cases ht <;> simp) hfirst
  · fin_cases ht <;> rfl
  · obtain ⟨q, hq, hlast⟩ := h.last
    exact ⟨q, by rwa [List.getLast?_cons_of_ne_nil hne], hlast⟩

/-- Two expressions with an operator between them. -/
theorem Written.append {ps qs : List Piece} (h : Written engine ps) (h' : Written engine qs)
    {t : Token} (ht : t ∈ [Token.AND, .OR]) : Written engine (ps ++ .token t :: qs) := by
  obtain ⟨p, hp, hlast⟩ := h.last
  obtain ⟨q, hq, hfirst⟩ := h'.first
  refine ⟨?_, ?_, ?_, ?_⟩
  · intro r hr
    obtain hr | hr := List.mem_append.mp hr
    · exact h.scannable r hr
    · obtain rfl | hr := List.mem_cons.mp hr
      · fin_cases ht <;> exact .fixed (by decide)
      · exact h'.scannable r hr
  · refine List.isChain_append.mpr ⟨h.chain, List.isChain_cons.mpr ⟨fun r hr => ?_, h'.chain⟩, ?_⟩
    · obtain rfl : q = r := Option.mem_unique hq hr
      exact follows_isFirst (by fin_cases ht <;> simp) hfirst
    · intro r hr u hu
      obtain rfl : p = r := Option.mem_unique hp hr
      obtain rfl : Piece.token t = u := by simpa using hu
      exact isLast_follows (by fin_cases ht <;> simp) hlast
  · obtain ⟨r, hr, hr'⟩ := h.first
    exact ⟨r, by simp [List.head?_append, Option.mem_def.mp hr], hr'⟩
  · obtain ⟨r, hr, hr'⟩ := h'.last
    have hne : qs ≠ [] := by
      rintro rfl
      simp at hq
    refine ⟨r, ?_, hr'⟩
    rw [List.getLast?_append_of_ne_nil _ (by simp), List.getLast?_cons_of_ne_nil hne]
    exact hr

/-- A comparison. -/
theorem written_comparison {t u : Token} {p : Piece}
    (ht : t ∈ [Token.SEVERITY, .FACILITY, .PID, .HOST, .IDENT, .MSG])
    (hu : u ∈ [Token.EQUAL, .NOTEQ, .LESS, .LESSOREQ, .GREATER, .GREATEROREQ])
    (hp : p.Scannable engine) (hlast : p.isLast = true) (hequal : p ≠ .token .EQUAL) :
    Written engine [.token t, .token u, p] := by
  have hpair : t.isWord = true ∧ t.isHalf = false ∧ u.isWord = false := by
    fin_cases ht <;> fin_cases hu <;> exact ⟨rfl, rfl, rfl⟩
  refine ⟨?_, ?_, ⟨.token t, by simp, by fin_cases ht <;> rfl⟩, ⟨p, by simp, hlast⟩⟩
  · intro q hq
    simp only [List.mem_cons, List.not_mem_nil, or_false] at hq
    obtain rfl | rfl | rfl := hq
    · fin_cases ht <;> exact .fixed (by decide)
    · fin_cases hu <;> exact .fixed (by decide)
    · exact hp
  · refine List.isChain_cons_cons.mpr ⟨?_, List.isChain_cons_cons.mpr ⟨?_, .singleton _⟩⟩
    · exact ⟨by simp [hpair.2.2], by simp [hpair.2.1]⟩
    · cases p with
      | token x => exact ⟨by simp [hpair.2.2], fun h => hequal (by rw [h.2])⟩
      | quoted => trivial
      | regex => trivial

theorem Written.parenthesized {ps : List Piece} (h : Written engine ps) (needed : Bool) :
    Written engine (MessageFilter.parenthesized needed ps) := by
  cases needed with
  | false => exact h
  | true =>
    have hcons := h.cons (t := .LPAREN) (by simp)
    obtain ⟨p, hp, hlast⟩ := hcons.last
    refine ⟨?_, ?_, hcons.first, ⟨.token .RPAREN, List.getLast?_concat, rfl⟩⟩
    · intro q hq
      simp only [MessageFilter.parenthesized, if_true, List.mem_append, List.mem_singleton] at hq
      obtain hq | rfl := hq
      · exact hcons.scannable q hq
      · exact .fixed (by decide)
    · refine List.isChain_append.mpr ⟨hcons.chain, .singleton _, fun r hr u hu => ?_⟩
      obtain rfl : p = r := Option.mem_unique hp hr
      obtain rfl : Piece.token .RPAREN = u := by simpa using hu
      exact isLast_follows (by simp) hlast

/-- **The pieces of a rendered tree** without NULs make an expression. -/
theorem written_render (e : Filter engine) (hnul : e.NulFree) (level : Nat) :
    Written engine (e.render level) := by
  induction e generalizing level with
  | severity op value h =>
    refine written_comparison (by decide) (by cases op <;> decide) (.fixed ?_) rfl (by simp)
    simp only [fixedTokens, List.mem_append, List.mem_map]
    obtain ⟨p, hp, rfl⟩ := List.mem_map.mp h
    exact Or.inl (Or.inr ⟨p, hp, rfl⟩)
  | facility op value h =>
    refine written_comparison (by decide) (by cases op <;> decide) (.fixed ?_) rfl (by simp)
    simp only [fixedTokens, List.mem_append, List.mem_map]
    obtain ⟨p, hp, rfl⟩ := List.mem_map.mp h
    exact Or.inr ⟨p, hp, rfl⟩
  | pid op value =>
    exact written_comparison (by decide) (by cases op <;> decide) (.number value) rfl (by simp)
  | text subject equal operand =>
    have hsubject : subject.token ∈
        [Token.SEVERITY, .FACILITY, .PID, .HOST, .IDENT, .MSG] := by cases subject <;> decide
    have hop : (if equal then Token.EQUAL else .NOTEQ) ∈
        [Token.EQUAL, .NOTEQ, .LESS, .LESSOREQ, .GREATER, .GREATEROREQ] := by
      cases equal <;> decide
    cases operand with
    | string s hne hquote =>
      exact written_comparison hsubject hop (.quoted hne hquote hnul) rfl (by simp [Operand.piece])
    | regex expr hne hslash hvalid =>
      exact written_comparison hsubject hop (.regex hne hslash hnul hvalid) rfl
        (by simp [Operand.piece])
  | not e ih => exact ((ih hnul 3).cons (by decide)).parenthesized _
  | and e f ihe ihf => exact ((ihe hnul.1 2).append (ihf hnul.2 3) (by decide)).parenthesized _
  | or e f ihe ihf => exact ((ihe hnul.1 1).append (ihf hnul.2 2) (by decide)).parenthesized _

/-- A written filter is scanned into the tokens of its rendering. -/
theorem scanAll_render {e : Filter engine} (hnul : e.NulFree) {text : Str}
    (h : Spells (e.render 1) text) :
    (scanner engine).scanAll .INITIAL text = (e.render 1).flatMap Piece.tokens :=
  scanAll_of_spells engine h (written_render e hnul 1).scannable (written_render e hnul 1).chain

end

/-! ### The driver -/

namespace Driver

variable {engine : RegexEngine}

/-- A call on a driver whose tokens are a sentence, scanned before or not. -/
theorem parse_of_sentence {drv : Driver} {msg : Message} {v : Bool} {tokens : List Token}
    (htokens : drv.tokenized = true ∧ drv.tokens = tokens ∨
      drv.tokenized = false ∧ (scanner engine).scanAll .INITIAL drv.expr = tokens)
    (hparse : parseTokens engine msg tokens = some v) :
    drv.parse engine msg = (true, v, ⟨drv.expr, tokens, true⟩) := by
  obtain ⟨expr, toks, tokenized⟩ := drv
  obtain ⟨rfl, rfl⟩ | ⟨rfl, hscan⟩ := htokens
  · simp [parse, hparse]
  · have hscan' : (scanner engine).scanAll .INITIAL expr = tokens := hscan
    simp [parse, hscan', hparse]

/-- Calls one after another on such a driver. -/
theorem parseAll_of_sentence {tokens : List Token} {value : Message → Bool}
    (hparse : ∀ msg, parseTokens engine msg tokens = some (value msg)) (msgs : List Message)
    {drv : Driver} (htokens : drv.tokenized = true ∧ drv.tokens = tokens ∨
      drv.tokenized = false ∧ (scanner engine).scanAll .INITIAL drv.expr = tokens) :
    drv.parseAll engine msgs = msgs.map fun msg => (true, value msg) := by
  induction msgs generalizing drv with
  | nil => rfl
  | cons msg msgs ih =>
    rw [parseAll, parse_of_sentence htokens (hparse msg), List.map_cons]
    exact congrArg _ (ih (Or.inl ⟨rfl, rfl⟩))

/-- **Filters mean what they say.**  Of any written form of a filter without NULs a driver can be
    made.  For every sequence of messages each call of `parse` then returns true, with the truth
    value of the filter on the message; and so it does on a driver that has not scanned its
    expression. -/
theorem parseAll_of_spells (engine : RegexEngine) (now : Timestamp) (e : Filter engine)
    (hnul : e.NulFree) (text : Str) (htext : Spells (e.render 1) text) :
    ∃ drv, construct engine now text = some drv ∧ ∀ msgs : List Message,
      drv.parseAll engine msgs = msgs.map (fun msg => (true, e.holds msg)) ∧
      parseAll engine ⟨text, [], false⟩ msgs = msgs.map fun msg => (true, e.holds msg) := by
  have hscan := scanAll_render hnul htext
  have hvalid : is_valid engine now ⟨text, [], false⟩ =
      (true, ⟨text, (e.render 1).flatMap Piece.tokens, true⟩) := by
    rw [is_valid, parse_of_sentence (Or.inr ⟨rfl, hscan⟩) (parseTokens_render e)]
  refine ⟨⟨text, (e.render 1).flatMap Piece.tokens, true⟩, ?_, fun msgs => ⟨?_, ?_⟩⟩
  · rw [construct, hvalid]
  · exact parseAll_of_sentence (fun msg => parseTokens_render e) msgs (Or.inl ⟨rfl, rfl⟩)
  · exact parseAll_of_sentence (fun msg => parseTokens_render e) msgs (Or.inr ⟨rfl, hscan⟩)

/-- Every filter has a written form. -/
theorem spells_written (e : Filter engine) : Spells (e.render 1) e.written := by
  rw [Filter.written]
  induction e.render 1 with
  | nil => exact .nil (by simp)
  | cons p ps ih =>
    have hblank : ∀ c ∈ [(32 : UInt8)], isSpace c = true := List.forall_mem_singleton.mpr rfl
    exact .cons hblank ih

/-- An engine for expressions without operators. -/
def literalEngine : RegexEngine := ⟨fun _ => true, fun text expr => text == expr⟩

/-- Warnings and worse, but not those of the host `h` and none of process 7. -/
def warningsFilter : Filter literalEngine :=
  .and (.severity .greaterOrEqual .warning (by decide))
    (.not (.or (.text .host true (.string (str "h") (by decide) (by decide))) (.pid .equal 7)))

theorem parseAll_of_spells_warnings :
    ∃ drv, construct literalEngine ⟨0⟩ (str "severity>=warning && !(host = 'h' || pid=7)") = some drv ∧
      ∀ msgs : List Message,
        drv.parseAll literalEngine msgs = msgs.map (fun msg => (true, warningsFilter.holds msg)) ∧
        parseAll literalEngine ⟨str "severity>=warning && !(host = 'h' || pid=7)", [], false⟩ msgs =
          msgs.map fun msg => (true, warningsFilter.holds msg) := by
  have hblank : ∀ c ∈ [(32 : UInt8)], isSpace c = true := List.forall_mem_singleton.mpr rfl
  have hnone : ∀ c ∈ ([] : Str), isSpace c = true := List.forall_mem_nil _
  have hnul : warningsFilter.NulFree := ⟨trivial, show 0 ∉ str "h" by decide, trivial⟩
  refine parseAll_of_spells literalEngine ⟨0⟩ warningsFilter hnul _ ?_
  exact .cons hnone (.cons hnone (.cons hnone (.cons hblank (.cons hblank (.cons hnone
    (.cons hnone (.cons hblank (.cons hblank (.cons hblank (.cons hblank (.cons hnone (.cons hnone
    (.cons hnone (.nil hnone))))))))))))))

/-- **A NUL cuts a string.**  The scanner makes the string of a token from a C string, so that a
    string with a NUL is compared as its part before the NUL. -/
theorem parse_cut_at_nul :
    let e : Filter literalEngine :=
      .text .host true (.string (str "a" ++ 0 :: str "b") (by decide) (by decide))
    let msg : Message := ⟨⟨⟨0⟩, .user, .info, ⟨⟨str "a", by decide⟩, ⟨str "app", by decide⟩, 1⟩⟩,
      ⟨str "text", by decide⟩⟩
    Spells (e.render 1) e.written ∧ e.holds msg = false ∧
      (parse literalEngine ⟨e.written, [], false⟩ msg).2.1 = true := by
  intro e msg
  exact ⟨spells_written e, by decide, by decide⟩

end Driver

end MessageFilter

end Mclog
