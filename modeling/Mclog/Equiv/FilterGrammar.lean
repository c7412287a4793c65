import Mclog.Equiv.FilterLexemes
import Mclog.Equiv.MessageFilter

/-!
# What the filter parser accepts

`Expression` is the grammar of mclogd.cfg(5), over the lexemes, and `Sentence` is the one of the
parser, over the tokens.  The parser accepts exactly the sentences (`parseTokens_isSome_iff`): what
is on its stack was read as sentences (`Yields`), and a sentence is a row of operands between
operators (`Operands`), which parses whatever way it was derived.

A derivation of the documented grammar is scanned into the tokens of its lexemes (`Scans`), which are
a sentence if and only if nothing in it is empty between its marks and its regular expressions are
valid (`sentence_tokens_iff`).  Hence the documented grammar is what a driver can be made of, but for
the strings and regular expressions that are empty (`construct_isSome_iff_derivable`).
-/

namespace Mclog

open General

namespace MessageFilter

/-! ### The documented grammar -/

/-- `numerical_op`. -/
def Comparison.lexeme (op : Comparison) : Lexeme := .fixed op.token (by cases op <;> decide)

/-- `equality_op`. -/
def equalityOp (equal : Bool) : Lexeme :=
  .fixed (if equal then .EQUAL else .NOTEQ) (by cases equal <;> decide)

/-- "host", "ident" or "msg". -/
def Subject.lexeme (subject : Subject) : Lexeme :=
  .fixed subject.token (by cases subject <;> decide)

/-- `expression` in mclogd.cfg(5). -/
inductive Expression : List Lexeme → Prop where
  | parenthesized {ls : List Lexeme} (h : Expression ls) :
      Expression (.fixed .LPAREN (by decide) :: ls ++ [.fixed .RPAREN (by decide)])
  | not {ls : List Lexeme} (h : Expression ls) : Expression (.fixed .NOT (by decide) :: ls)
  | or {ls ls' : List Lexeme} (h : Expression ls) (h' : Expression ls') :
      Expression (ls ++ .fixed .OR (by decide) :: ls')
  | and {ls ls' : List Lexeme} (h : Expression ls) (h' : Expression ls') :
      Expression (ls ++ .fixed .AND (by decide) :: ls')
  | facility (op : Comparison) (value : Facility) (h : .FACVALUE value ∈ fixedTokens) :
      Expression [.fixed .FACILITY (by decide), op.lexeme, .fixed (.FACVALUE value) h]
  | severity (op : Comparison) (value : Severity) (h : .SEVVALUE value ∈ fixedTokens) :
      Expression [.fixed .SEVERITY (by decide), op.lexeme, .fixed (.SEVVALUE value) h]
  | pid (op : Comparison) (digits : Str) (hdigits : ∀ c ∈ digits, isdigit c = true)
      (hne : digits ≠ []) (hlength : digits.length ≤ 10) :
      Expression [.fixed .PID (by decide), op.lexeme, .unsigned_int digits hdigits hne hlength]
  | string (subject : Subject) (equal : Bool) (text : Str) (hquote : quote ∉ text) :
      Expression [subject.lexeme, equalityOp equal, .quoted_string text hquote]
  | regex (subject : Subject) (equal : Bool) (expr : Str) (hslash : slash ∉ expr) :
      Expression [subject.lexeme, equalityOp equal, .regular_expression expr hslash]

/-- A text that the documented grammar derives. -/
def Derivable (text : Str) : Prop := ∃ ls, Expression ls ∧ Spelled ls text

/-- The lexemes for which there are the tokens that the parser wants: nothing is empty between its
    marks, and the part of a regular expression before the first NUL is valid. -/
def Lexeme.Usable (engine : RegexEngine) : Lexeme → Prop
  | .fixed _ _ => True
  | .unsigned_int _ _ _ _ => True
  | .quoted_string text _ => text ≠ []
  | .regular_expression expr _ => expr ≠ [] ∧ engine.valid (cString expr) = true

/-! ### The parser's grammar -/

/-- `Expression` in `DwmMclogMessageFilterParse.y`. -/
inductive Sentence : List Token → Prop where
  | severity (op : Comparison) (value : Severity) :
      Sentence [.SEVERITY, op.token, .SEVVALUE value]
  | facility (op : Comparison) (value : Facility) :
      Sentence [.FACILITY, op.token, .FACVALUE value]
  | pid (op : Comparison) (value : UInt32) : Sentence [.PID, op.token, .UINT32 value]
  | string (subject : Subject) (equal : Bool) (text : Str) :
      Sentence [subject.token, if equal then .EQUAL else .NOTEQ, .QUOTE, .STRING text, .QUOTE]
  | regex (subject : Subject) (equal : Bool) (expr : Str) :
      Sentence [subject.token, if equal then .EQUAL else .NOTEQ, .SLASH, .REGEX expr, .SLASH]
  | not {ts : List Token} (h : Sentence ts) : Sentence (.NOT :: ts)
  | or {ts us : List Token} (h : Sentence ts) (h' : Sentence us) : Sentence (ts ++ .OR :: us)
  | and {ts us : List Token} (h : Sentence ts) (h' : Sentence us) : Sentence (ts ++ .AND :: us)
  | parenthesized {ts : List Token} (h : Sentence ts) : Sentence (.LPAREN :: ts ++ [.RPAREN])

/-- The tokens that a symbol on the stack was read as. -/
def Symbol.Reads : Symbol → List Token → Prop
  | .tok t, ts => ts = [t]
  | .Expression _, ts => Sentence ts
  | .QuotedString text, ts => ts = [.QUOTE, .STRING text, .QUOTE]
  | .Regex expr, ts => ts = [.SLASH, .REGEX expr, .SLASH]

/-- The tokens that a stack was read as.  Its first symbol is the last one read. -/
inductive Yields : List Symbol → List Token → Prop where
  | nil : Yields [] []
  | cons {x : Symbol} {s : List Symbol} {ts us : List Token} (hx : x.Reads us)
      (hs : Yields s ts) : Yields (x :: s) (ts ++ us)

@[simp]
theorem yields_nil_iff {ts : List Token} : Yields [] ts ↔ ts = [] := by
  constructor
  · rintro ⟨⟩
    rfl
  · rintro rfl
    exact .nil

@[simp]
theorem yields_cons_iff {x : Symbol} {s : List Symbol} {ts : List Token} :
    Yields (x :: s) ts ↔ ∃ us vs, Yields s us ∧ x.Reads vs ∧ ts = us ++ vs := by
  constructor
  · rintro ⟨⟩
    next hx hs => exact ⟨_, _, hs, hx, rfl⟩
  · rintro ⟨us, vs, hs, hx, rfl⟩
    exact .cons hx hs

/-- A reduction of some symbols on top to one that was read as what they were. -/
theorem Yields.replace {s : List Symbol} {x : Symbol} {ts : List Token} (top : List Symbol)
    (h : Yields (top ++ s) ts) (htop : ∀ us, Yields top us → x.Reads us) : Yields (x :: s) ts := by
  have hsplit : ∀ (top : List Symbol) (ts : List Token), Yields (top ++ s) ts →
      ∃ us vs, Yields s us ∧ Yields top vs ∧ ts = us ++ vs := by
    intro top
    induction top with
    | nil => exact fun ts h => ⟨ts, [], h, .nil, (List.append_nil ts).symm⟩
    | cons y top ih =>
      intro ts h
      obtain ⟨us, vs, hrest, hy, rfl⟩ := yields_cons_iff.mp h
      obtain ⟨us', ws, hs, htop, rfl⟩ := ih us hrest
      exact ⟨us', ws ++ vs, hs, .cons hy htop, List.append_assoc ..⟩
  obtain ⟨us, vs, hs, hvs, rfl⟩ := hsplit top ts h
  exact .cons (htop vs hvs) hs

/-! ### The parser accepts sentences only -/

/-- A token with an action for every pair of values is a comparison operator. -/
theorem exists_comparison {op : Token} (h : op ∈ [Token.EQUAL, .NOTEQ, .LESS, .LESSOREQ, .GREATER,
    .GREATEROREQ]) : ∃ c : Comparison, op = c.token := by
  fin_cases h
  · exact ⟨.equal, rfl⟩
  · exact ⟨.notEqual, rfl⟩
  · exact ⟨.less, rfl⟩
  · exact ⟨.lessOrEqual, rfl⟩
  · exact ⟨.greater, rfl⟩
  · exact ⟨.greaterOrEqual, rfl⟩

theorem comparison_of_severity {a b : Severity} {op : Token} {v : Bool}
    (h : severityComparison a b op = some v) : ∃ c : Comparison, op = c.token := by
  apply exists_comparison
  unfold severityComparison at h
  split at h <;> simp_all

theorem comparison_of_facility {a b : Facility} {op : Token} {v : Bool}
    (h : facilityComparison a b op = some v) : ∃ c : Comparison, op = c.token := by
  apply exists_comparison
  unfold facilityComparison at h
  split at h <;> simp_all

theorem comparison_of_pid {a b : UInt32} {op : Token} {v : Bool}
    (h : pidComparison a b op = some v) : ∃ c : Comparison, op = c.token := by
  apply exists_comparison
  unfold pidComparison at h
  split at h <;> simp_all

/-- A token with a text is a subject. -/
theorem subject_of_textOf {msg : Message} {t : Token} {text : Str} (h : textOf msg t = some text) :
    ∃ subject : Subject, t = subject.token := by
  unfold textOf at h
  split at h
  · exact ⟨.host, rfl⟩
  · exact ⟨.ident, rfl⟩
  · exact ⟨.msg, rfl⟩
  · cases h

theorem equality_of_string {text value : Str} {op : Token} {v : Bool}
    (h : stringComparison text value op = some v) :
    ∃ equal : Bool, op = if equal then .EQUAL else .NOTEQ := by
  unfold stringComparison at h
  split at h
  · exact ⟨true, rfl⟩
  · exact ⟨false, rfl⟩
  · cases h

theorem equality_of_regex {engine : RegexEngine} {text expr : Str} {op : Token} {v : Bool}
    (h : regexComparison engine text expr op = some v) :
    ∃ equal : Bool, op = if equal then .EQUAL else .NOTEQ := by
  unfold regexComparison at h
  split at h
  · exact ⟨true, rfl⟩
  · exact ⟨false, rfl⟩
  · cases h

section

variable {engine : RegexEngine} {msg : Message}

/-- **A reduction keeps what was read**: each rule's right-hand side reads as its left-hand side. -/
theorem Yields.reduce {la : Option Token} {s s' : List Symbol} {ts : List Token}
    (h : reduce engine msg la s = some s') (hs : Yields s ts) : Yields s' ts := by
  unfold MessageFilter.reduce at h
  split at h
  · -- SEVERITY op SEVVALUE
    obtain ⟨v, hv, rfl⟩ := Option.map_eq_some_iff.mp h
    obtain ⟨c, rfl⟩ := comparison_of_severity hv
    refine hs.replace [_, _, _] fun us hus => ?_
    obtain rfl : us = [.SEVERITY, c.token, .SEVVALUE _] := by simpa [Symbol.Reads] using hus
    exact .severity c _
  · -- FACILITY op FACVALUE
    obtain ⟨v, hv, rfl⟩ := Option.map_eq_some_iff.mp h
    obtain ⟨c, rfl⟩ := comparison_of_facility hv
    refine hs.replace [_, _, _] fun us hus => ?_
    obtain rfl : us = [.FACILITY, c.token, .FACVALUE _] := by simpa [Symbol.Reads] using hus
    exact .facility c _
  · -- PID op UINT32
    obtain ⟨v, hv, rfl⟩ := Option.map_eq_some_iff.mp h
    obtain ⟨c, rfl⟩ := comparison_of_pid hv
    refine hs.replace [_, _, _] fun us hus => ?_
    obtain rfl : us = [.PID, c.token, .UINT32 _] := by simpa [Symbol.Reads] using hus
    exact .pid c _
  · -- subject op QuotedString
    next value op subject s =>
    obtain ⟨text, htext, h⟩ := Option.bind_eq_some_iff.mp h
    obtain ⟨v, hv, rfl⟩ := Option.map_eq_some_iff.mp h
    obtain ⟨subject, rfl⟩ := subject_of_textOf htext
    obtain ⟨equal, rfl⟩ := equality_of_string hv
    refine hs.replace [_, _, _] fun us hus => ?_
    have hread : us = [subject.token, if equal then .EQUAL else .NOTEQ, .QUOTE, .STRING value,
        .QUOTE] := by simpa [Symbol.Reads] using hus
    rw [hread]
    exact .string subject equal value
  · -- subject op Regex
    next expr op subject s =>
    obtain ⟨text, htext, h⟩ := Option.bind_eq_some_iff.mp h
    obtain ⟨v, hv, rfl⟩ := Option.map_eq_some_iff.mp h
    obtain ⟨subject, rfl⟩ := subject_of_textOf htext
    obtain ⟨equal, rfl⟩ := equality_of_regex hv
    refine hs.replace [_, _, _] fun us hus => ?_
    have hread : us = [subject.token, if equal then .EQUAL else .NOTEQ, .SLASH, .REGEX expr,
        .SLASH] := by simpa [Symbol.Reads] using hus
    rw [hread]
    exact .regex subject equal expr
  · -- NOT Expression
    obtain rfl := Option.some.inj (Option.ite_none_left_eq_some.mp h).2
    refine hs.replace [_, _] fun us hus => ?_
    obtain ⟨ts, hts, rfl⟩ : ∃ ts, Sentence ts ∧ us = .NOT :: ts := by
      simpa [Symbol.Reads] using hus
    exact hts.not
  · -- Expression OR Expression
    obtain rfl := Option.some.inj (Option.ite_none_left_eq_some.mp h).2
    refine hs.replace [_, _, _] fun us hus => ?_
    obtain ⟨ts, ts', hts, hts', rfl⟩ : ∃ ts ts', Sentence ts ∧ Sentence ts' ∧
        us = ts ++ .OR :: ts' := by simpa [Symbol.Reads] using hus
    exact hts.or hts'
  · -- Expression AND Expression
    obtain rfl := Option.some.inj (Option.ite_none_left_eq_some.mp h).2
    refine hs.replace [_, _, _] fun us hus => ?_
    obtain ⟨ts, ts', hts, hts', rfl⟩ : ∃ ts ts', Sentence ts ∧ Sentence ts' ∧
        us = ts ++ .AND :: ts' := by simpa [Symbol.Reads] using hus
    exact hts.and hts'
  · -- LPAREN Expression RPAREN
    obtain rfl := Option.some.inj h
    refine hs.replace [_, _, _] fun us hus => ?_
    obtain ⟨ts, hts, rfl⟩ : ∃ ts, Sentence ts ∧ us = .LPAREN :: (ts ++ [.RPAREN]) := by
      simpa [Symbol.Reads] using hus
    exact hts.parenthesized
  · -- QUOTE STRING QUOTE
    obtain rfl := Option.some.inj h
    refine hs.replace [_, _, _] fun us hus => ?_
    simpa [Symbol.Reads] using hus
  · -- SLASH REGEX SLASH
    obtain rfl := Option.some.inj h
    refine hs.replace [_, _, _] fun us hus => ?_
    simpa [Symbol.Reads] using hus
  · cases h

/-- What the parser makes a `Result` of is a sentence. -/
theorem sentence_of_parseTokens {ts : List Token} {v : Bool}
    (h : parseTokens engine msg ts = some v) : Sentence ts := by
  have hshift : ∀ t s s' us, shift t s = some s' → Yields s us → Yields s' (us ++ [t]) := by
    intro t s s' us hs hus
    obtain rfl := Option.some.inj (Option.ite_none_left_eq_some.mp hs).2
    exact .cons rfl hus
  unfold parseTokens at h
  split at h
  · next w hparse =>
    have hyields : Yields [.Expression w] ts :=
      (parser engine msg).parse_of_relation .nil (fun _ _ _ _ hr hs => hs.reduce hr) hshift hparse
    obtain ⟨us, vs, hus, hvs, rfl⟩ := yields_cons_iff.mp hyields
    obtain rfl := yields_nil_iff.mp hus
    exact hvs
  · cases h

/-! ### The parser accepts every sentence -/

variable (engine msg) in
/-- A row of operands, each of which parses at the highest level, with operators between them. -/
inductive Operands : List Token → Prop where
  | one {ts : List Token} {v : Bool} (h : Parses engine msg ts v 3) : Operands ts
  | snoc {ts us : List Token} {v : Bool} {op : Token} (hop : op = .OR ∨ op = .AND)
      (h : Operands ts) (h' : Parses engine msg us v 3) : Operands (ts ++ op :: us)

/-- Two rows with an operator between them. -/
theorem Operands.append {ts us : List Token} {op : Token} (hop : op = .OR ∨ op = .AND)
    (h : Operands engine msg ts) (h' : Operands engine msg us) :
    Operands engine msg (ts ++ op :: us) := by
  induction h' with
  | one h' => exact .snoc hop h h'
  | snoc hop' _ h' ih =>
    have hrow := Operands.snoc hop' ih h'
    rwa [List.append_assoc] at hrow

/-- `!` belongs to the first operand. -/
theorem Operands.not {ts : List Token} (h : Operands engine msg ts) :
    Operands engine msg (.NOT :: ts) := by
  induction h with
  | one h => exact .one h.not
  | snoc hop _ h' ih => exact .snoc hop ih h'

/-- **A row of operands parses.**  By induction from the left: a row is a conjunction, or it has a
    last `||`, after which there is one. -/
theorem Operands.exists_parses {ts : List Token} (h : Operands engine msg ts) :
    ∃ v, Parses engine msg ts v 1 := by
  have key : (∃ v, Parses engine msg ts v 2) ∨ ∃ us us' v w, ts = us ++ .OR :: us' ∧
      Parses engine msg us v 1 ∧ Parses engine msg us' w 2 := by
    induction h with
    | one h => exact Or.inl ⟨_, h.mono (by decide) (by decide)⟩
    | @snoc ts us v op hop _ h' ih =>
      obtain rfl | rfl := hop
      · -- A new last `||`.
        refine Or.inr ⟨ts, us, ?_⟩
        obtain ⟨w, hw⟩ | ⟨xs, xs', w, w', rfl, hxs, hxs'⟩ := ih
        · exact ⟨w, v, rfl, hw.mono (by decide) (by decide), h'.mono (by decide) (by decide)⟩
        · exact ⟨_, v, rfl, hxs.or hxs', h'.mono (by decide) (by decide)⟩
      · -- One more operand of the last conjunction.
        obtain ⟨w, hw⟩ | ⟨xs, xs', w, w', rfl, hxs, hxs'⟩ := ih
        · exact Or.inl ⟨_, hw.and h'⟩
        · exact Or.inr ⟨xs, xs' ++ .AND :: us, w, _, by simp, hxs, hxs'.and h'⟩
  obtain ⟨v, hv⟩ | ⟨us, us', v, w, rfl, hus, hus'⟩ := key
  · exact ⟨v, hv.mono (by decide) (by decide)⟩
  · exact ⟨_, hus.or hus'⟩

/-- However it was derived, a sentence is a row of operands. -/
theorem Sentence.operands {ts : List Token} (h : Sentence ts) : Operands engine msg ts := by
  induction h with
  | severity op value => exact .one (parses_severity op value 3)
  | facility op value => exact .one (parses_facility op value 3)
  | pid op value => exact .one (parses_pid op value 3)
  | string subject equal text => exact .one (parses_string subject equal text 3)
  | regex subject equal expr => exact .one (parses_regex subject equal expr 3)
  | not _ ih => exact ih.not
  | or _ _ ih ih' => exact ih.append (Or.inl rfl) ih'
  | and _ _ ih ih' => exact ih.append (Or.inr rfl) ih'
  | parenthesized _ ih =>
    obtain ⟨v, hv⟩ := ih.exists_parses
    exact .one (hv.parenthesized 3)

variable (engine msg) in
/-- **The parser accepts exactly the sentences.** -/
theorem parseTokens_isSome_iff (ts : List Token) :
    (parseTokens engine msg ts).isSome = true ↔ Sentence ts := by
  constructor
  · intro h
    obtain ⟨v, hv⟩ := Option.isSome_iff_exists.mp h
    exact sentence_of_parseTokens hv
  · intro h
    have hrow : Operands engine msg ts := h.operands
    obtain ⟨v, hv⟩ := hrow.exists_parses
    rw [parseTokens_of_parses hv, Option.isSome_some]

/-! ### Sentences are clean -/

theorem Clean.append {ts us : List Token} (h : Clean ts) (h' : Clean us) : Clean (ts ++ us) := by
  refine ⟨fun hmem => ?_, ?_, ?_⟩
  · obtain hmem | hmem := List.mem_append.mp hmem
    · exact h.error hmem
    · exact h'.error hmem
  · rw [List.count_append]
    exact h.quotes.add h'.quotes
  · rw [List.count_append]
    exact h.slashes.add h'.slashes

/-- Tokens other than marks. -/
theorem clean_of_forall {ts : List Token}
    (h : ∀ t ∈ ts, t ≠ .YYerror ∧ t ≠ .QUOTE ∧ t ≠ .SLASH) : Clean ts := by
  refine ⟨fun hmem => (h _ hmem).1 rfl, ?_, ?_⟩
  · rw [List.count_eq_zero.mpr fun hmem => (h _ hmem).2.1 rfl]
    exact Even.zero
  · rw [List.count_eq_zero.mpr fun hmem => (h _ hmem).2.2 rfl]
    exact Even.zero

/-- The tokens of the operators and the subjects are no marks. -/
theorem Comparison.token_ne (op : Comparison) :
    op.token ≠ .YYerror ∧ op.token ≠ .QUOTE ∧ op.token ≠ .SLASH := by
  cases op <;> decide

theorem clean_equality (subject : Subject) (equal : Bool) :
    Clean [subject.token, if equal then .EQUAL else .NOTEQ] := by
  apply clean_of_forall
  cases subject <;> cases equal <;> decide

/-- **A sentence has no error, and its marks come in pairs.** -/
theorem Sentence.clean {ts : List Token} (h : Sentence ts) : Clean ts := by
  have hone : ∀ t ∈ [Token.NOT, .OR, .AND, .LPAREN, .RPAREN], Clean [t] := by
    intro t ht
    apply clean_of_forall
    fin_cases ht <;> decide
  induction h with
  | severity op value => exact clean_of_forall (by simp [op.token_ne])
  | facility op value => exact clean_of_forall (by simp [op.token_ne])
  | pid op value => exact clean_of_forall (by simp [op.token_ne])
  | string subject equal text =>
    have hmarked : Clean [.QUOTE, .STRING text, .QUOTE] :=
      ⟨by simp, by simp, by simp⟩
    exact (clean_equality subject equal).append hmarked
  | regex subject equal expr =>
    have hmarked : Clean [.SLASH, .REGEX expr, .SLASH] :=
      ⟨by simp, by simp, by simp⟩
    exact (clean_equality subject equal).append hmarked
  | not _ ih => exact (hone .NOT (by simp)).append ih
  | or _ _ ih ih' => exact ih.append ((hone .OR (by simp)).append ih')
  | and _ _ ih ih' => exact ih.append ((hone .AND (by simp)).append ih')
  | parenthesized _ ih =>
    exact ((hone .LPAREN (by simp)).append ih).append (hone .RPAREN (by simp))

/-! ### Lexemes whose tokens are a sentence -/

theorem Lexeme.tokens_ne_nil (engine : RegexEngine) (l : Lexeme) : l.tokens engine ≠ [] := by
  cases l <;> simp [Lexeme.tokens]

/-- A token with a fixed text is a lexeme by itself. -/
theorem Lexeme.eq_fixed {l : Lexeme} {t : Token} (ht : t ∈ fixedTokens)
    (hmem : t ∈ l.tokens engine) : l = .fixed t ht := by
  have htable : ∀ t ∈ fixedTokens, t ≠ .QUOTE ∧ t ≠ .SLASH ∧ t ≠ .YYerror ∧
      (∀ val, t ≠ .UINT32 val) ∧ (∀ text, t ≠ .STRING text) ∧ ∀ expr, t ≠ .REGEX expr := by
    simp [fixedTokens, g_severityNames, g_facilities]
  obtain ⟨hquote, hslash, herror, hnumber, hstring, hregex⟩ := htable t ht
  cases l with
  | fixed u hu =>
    obtain rfl : t = u := List.mem_singleton.mp hmem
    rfl
  | unsigned_int digits => exact absurd (List.mem_singleton.mp hmem) (hnumber _)
  | quoted_string text =>
    exfalso
    by_cases hempty : text = [] <;> simp [Lexeme.tokens, hempty, hquote, hstring] at hmem
  | regular_expression expr =>
    exfalso
    by_cases hempty : expr = []
    · simp [Lexeme.tokens, hempty, hslash] at hmem
    · by_cases hvalid : engine.valid (cString expr) = true <;>
        simp [Lexeme.tokens, hempty, hvalid, hslash, hregex, herror] at hmem

/-- The front of some lexemes, from the front of their tokens. -/
theorem tokens_eq_cons {ls : List Lexeme} {t : Token} {ts : List Token} (ht : t ∈ fixedTokens)
    (h : ls.flatMap (Lexeme.tokens engine) = t :: ts) :
    ∃ ls', ls = .fixed t ht :: ls' ∧ ls'.flatMap (Lexeme.tokens engine) = ts := by
  cases ls with
  | nil => cases h
  | cons l ls =>
    rw [List.flatMap_cons] at h
    obtain ⟨u, us, hu⟩ := List.exists_cons_of_ne_nil (l.tokens_ne_nil engine)
    rw [hu] at h
    obtain rfl : u = t := (List.cons.inj h).1
    obtain rfl : l = .fixed u ht := Lexeme.eq_fixed ht (by rw [hu]; exact List.mem_cons_self)
    obtain rfl : us = [] := (List.cons.inj hu).2.symm
    exact ⟨ls, rfl, (List.cons.inj h).2⟩

theorem tokens_eq_nil {ls : List Lexeme} (h : ls.flatMap (Lexeme.tokens engine) = []) :
    ls = [] := by
  cases ls with
  | nil => rfl
  | cons l ls =>
    rw [List.flatMap_cons, List.append_eq_nil_iff] at h
    exact absurd h.1 (l.tokens_ne_nil engine)

/-- Lexemes are split at a token with a fixed text, where their tokens are. -/
theorem tokens_eq_append {ls : List Lexeme} {t : Token} {ts us : List Token}
    (ht : t ∈ fixedTokens) (h : ls.flatMap (Lexeme.tokens engine) = ts ++ t :: us) :
    ∃ before after, ls = before ++ .fixed t ht :: after ∧
      before.flatMap (Lexeme.tokens engine) = ts ∧ after.flatMap (Lexeme.tokens engine) = us := by
  induction ls generalizing ts with
  | nil => simp at h
  | cons l ls ih =>
    rw [List.flatMap_cons] at h
    obtain ⟨xs, rfl, hxs⟩ | ⟨xs, hl, hxs⟩ := List.append_eq_append_iff.mp h
    · -- The lexeme is before the token.
      obtain ⟨before, after, rfl, hbefore, hafter⟩ := ih hxs
      exact ⟨l :: before, after, rfl, by rw [List.flatMap_cons, hbefore], hafter⟩
    · cases xs with
      | nil =>
        rw [List.append_nil] at hl
        have hrest : ls.flatMap (Lexeme.tokens engine) = [] ++ t :: us := hxs.symm
        obtain ⟨before, after, rfl, hbefore, hafter⟩ := ih hrest
        exact ⟨l :: before, after, rfl, by rw [List.flatMap_cons, hbefore, hl, List.append_nil],
          hafter⟩
      | cons x xs =>
        -- The token is the lexeme's.
        obtain ⟨rfl, rfl⟩ := List.cons.inj hxs
        obtain rfl : l = .fixed t ht := Lexeme.eq_fixed ht (by rw [hl]; simp)
        have hlength := congrArg List.length hl
        simp only [Lexeme.tokens, List.length_append, List.length_cons, List.length_nil] at hlength
        obtain rfl : ts = [] := List.length_eq_zero_iff.mp (by omega)
        obtain rfl : xs = [] := List.length_eq_zero_iff.mp (by omega)
        exact ⟨[], ls, rfl, rfl, rfl⟩

/-- A lexeme of one token is a fixed text or a number. -/
theorem tokens_eq_singleton {ls : List Lexeme} {t : Token}
    (h : ls.flatMap (Lexeme.tokens engine) = [t]) :
    (∃ ht, ls = [.fixed t ht]) ∨ ∃ val digits hdigits hne hlength, t = .UINT32 val ∧
      ls = [.unsigned_int digits hdigits hne hlength] := by
  cases ls with
  | nil => cases h
  | cons l ls =>
    rw [List.flatMap_cons] at h
    cases l with
    | fixed u hu =>
      obtain ⟨rfl, hrest⟩ := List.cons.inj h
      obtain rfl := tokens_eq_nil hrest
      exact Or.inl ⟨hu, rfl⟩
    | unsigned_int digits hdigits hne hlength =>
      obtain ⟨rfl, hrest⟩ := List.cons.inj h
      obtain rfl := tokens_eq_nil hrest
      exact Or.inr ⟨_, digits, hdigits, hne, hlength, rfl, rfl⟩
    | quoted_string => simp [Lexeme.tokens] at h
    | regular_expression => simp [Lexeme.tokens] at h

/-- A string, which is not empty. -/
theorem tokens_eq_string {ls : List Lexeme} {text : Str}
    (h : ls.flatMap (Lexeme.tokens engine) = [.QUOTE, .STRING text, .QUOTE]) :
    ∃ text hquote, text ≠ [] ∧ ls = [.quoted_string text hquote] := by
  cases ls with
  | nil => cases h
  | cons l ls =>
    rw [List.flatMap_cons] at h
    cases l with
    | fixed t ht =>
      obtain rfl : t = .QUOTE := (List.cons.inj h).1
      exact absurd ht (by decide)
    | unsigned_int => cases (List.cons.inj h).1
    | quoted_string text' hquote =>
      by_cases hempty : text' = []
      · simp [Lexeme.tokens, hempty] at h
      · obtain ⟨-, hrest⟩ : cString text' = text ∧ ls.flatMap (Lexeme.tokens engine) = [] := by
          simpa [Lexeme.tokens, hempty] using h
        obtain rfl := tokens_eq_nil hrest
        exact ⟨text', hquote, hempty, rfl⟩
    | regular_expression => cases (List.cons.inj h).1

/-- A regular expression, which is not empty and is valid up to the first NUL. -/
theorem tokens_eq_regex {ls : List Lexeme} {expr : Str}
    (h : ls.flatMap (Lexeme.tokens engine) = [.SLASH, .REGEX expr, .SLASH]) :
    ∃ expr hslash, (expr ≠ [] ∧ engine.valid (cString expr) = true) ∧
      ls = [.regular_expression expr hslash] := by
  cases ls with
  | nil => cases h
  | cons l ls =>
    rw [List.flatMap_cons] at h
    cases l with
    | fixed t ht =>
      obtain rfl : t = .SLASH := (List.cons.inj h).1
      exact absurd ht (by decide)
    | unsigned_int => cases (List.cons.inj h).1
    | quoted_string => cases (List.cons.inj h).1
    | regular_expression expr' hslash =>
      by_cases hempty : expr' = []
      · simp [Lexeme.tokens, hempty] at h
      · by_cases hvalid : engine.valid (cString expr') = true
        · obtain ⟨-, hrest⟩ : cString expr' = expr ∧ ls.flatMap (Lexeme.tokens engine) = [] := by
            simpa [Lexeme.tokens, hempty, hvalid] using h
          obtain rfl := tokens_eq_nil hrest
          exact ⟨expr', hslash, ⟨hempty, hvalid⟩, rfl⟩
        · simp [Lexeme.tokens, hempty, hvalid] at h

/-- **Lexemes whose tokens are a sentence** are an expression, and usable. -/
theorem Sentence.expression {ts : List Token} (h : Sentence ts) {ls : List Lexeme}
    (hls : ls.flatMap (Lexeme.tokens engine) = ts) :
    Expression ls ∧ ∀ l ∈ ls, l.Usable engine := by
  have hfixed : ∀ (t : Token) (ht : t ∈ fixedTokens), (Lexeme.fixed t ht).Usable engine :=
    fun _ _ => trivial
  have hop : ∀ op : Comparison, op.token ∈ fixedTokens := by
    intro op
    cases op <;> decide
  have hsubject : ∀ subject : Subject, subject.token ∈ fixedTokens := by
    intro subject
    cases subject <;> decide
  have hequality : ∀ equal : Bool, (if equal then .EQUAL else .NOTEQ) ∈ fixedTokens := by decide
  induction h generalizing ls with
  | severity op value =>
    obtain ⟨ls, rfl, h₁⟩ := tokens_eq_cons (t := .SEVERITY) (by decide) hls
    obtain ⟨ls, rfl, h₂⟩ := tokens_eq_cons (hop op) h₁
    obtain ⟨hvalue, rfl⟩ | ⟨val, _, _, _, _, hval, -⟩ := tokens_eq_singleton h₂
    · refine ⟨.severity op value hvalue, ?_⟩
      simp [Lexeme.Usable]
    · -- A number is no severity.
      cases hval
  | facility op value =>
    obtain ⟨ls, rfl, h₁⟩ := tokens_eq_cons (t := .FACILITY) (by decide) hls
    obtain ⟨ls, rfl, h₂⟩ := tokens_eq_cons (hop op) h₁
    obtain ⟨hvalue, rfl⟩ | ⟨val, _, _, _, _, hval, -⟩ := tokens_eq_singleton h₂
    · refine ⟨.facility op value hvalue, ?_⟩
      simp [Lexeme.Usable]
    · cases hval
  | pid op value =>
    obtain ⟨ls, rfl, h₁⟩ := tokens_eq_cons (t := .PID) (by decide) hls
    obtain ⟨ls, rfl, h₂⟩ := tokens_eq_cons (hop op) h₁
    obtain ⟨hvalue, -⟩ | ⟨val, digits, hdigits, hne, hlength, -, rfl⟩ := tokens_eq_singleton h₂
    · -- A fixed text is no number.
      simp [fixedTokens, g_severityNames, g_facilities] at hvalue
    · refine ⟨.pid op digits hdigits hne hlength, ?_⟩
      simp [Lexeme.Usable]
  | string subject equal text =>
    obtain ⟨ls, rfl, h₁⟩ := tokens_eq_cons (hsubject subject) hls
    obtain ⟨ls, rfl, h₂⟩ := tokens_eq_cons (hequality equal) h₁
    obtain ⟨text, hquote, hne, rfl⟩ := tokens_eq_string h₂
    refine ⟨.string subject equal text hquote, ?_⟩
    simp [Lexeme.Usable, hne]
  | regex subject equal expr =>
    obtain ⟨ls, rfl, h₁⟩ := tokens_eq_cons (hsubject subject) hls
    obtain ⟨ls, rfl, h₂⟩ := tokens_eq_cons (hequality equal) h₁
    obtain ⟨expr, hslash, hvalid, rfl⟩ := tokens_eq_regex h₂
    refine ⟨.regex subject equal expr hslash, ?_⟩
    simp [Lexeme.Usable, hvalid]
  | not _ ih =>
    obtain ⟨ls, rfl, h₁⟩ := tokens_eq_cons (t := .NOT) (by decide) hls
    obtain ⟨hexpr, husable⟩ := ih h₁
    exact ⟨.not hexpr, List.forall_mem_cons.mpr ⟨trivial, husable⟩⟩
  | or _ _ ih ih' =>
    -- The operator's token is a lexeme of its own, wherever it stands.
    obtain ⟨ls, ls', rfl, h₁, h₂⟩ := tokens_eq_append (t := .OR) (by decide) hls
    obtain ⟨hexpr, husable⟩ := ih h₁
    obtain ⟨hexpr', husable'⟩ := ih' h₂
    refine ⟨.or hexpr hexpr', List.forall_mem_append.mpr ⟨husable, ?_⟩⟩
    exact List.forall_mem_cons.mpr ⟨trivial, husable'⟩
  | and _ _ ih ih' =>
    obtain ⟨ls, ls', rfl, h₁, h₂⟩ := tokens_eq_append (t := .AND) (by decide) hls
    obtain ⟨hexpr, husable⟩ := ih h₁
    obtain ⟨hexpr', husable'⟩ := ih' h₂
    refine ⟨.and hexpr hexpr', List.forall_mem_append.mpr ⟨husable, ?_⟩⟩
    exact List.forall_mem_cons.mpr ⟨trivial, husable'⟩
  | parenthesized _ ih =>
    obtain ⟨ls, rfl, h₁⟩ := tokens_eq_cons (t := .LPAREN) (by decide) hls
    obtain ⟨ls, ls', rfl, h₂, h₃⟩ := tokens_eq_append (t := .RPAREN) (by decide) h₁
    obtain rfl := tokens_eq_nil h₃
    obtain ⟨hexpr, husable⟩ := ih h₂
    refine ⟨.parenthesized hexpr, List.forall_mem_cons.mpr ⟨trivial, ?_⟩⟩
    exact List.forall_mem_append.mpr ⟨husable, List.forall_mem_singleton.mpr trivial⟩

/-- **A usable expression is a sentence.** -/
theorem Expression.sentence {ls : List Lexeme} (h : Expression ls)
    (husable : ∀ l ∈ ls, l.Usable engine) : Sentence (ls.flatMap (Lexeme.tokens engine)) := by
  induction h with
  | parenthesized _ ih =>
    have hs := (ih fun l hl => husable l (by simp [hl])).parenthesized
    simpa [Lexeme.tokens] using hs
  | not _ ih => exact (ih fun l hl => husable l (by simp [hl])).not
  | or _ _ ih ih' =>
    rw [List.flatMap_append]
    exact (ih fun l hl => husable l (by simp [hl])).or (ih' fun l hl => husable l (by simp [hl]))
  | and _ _ ih ih' =>
    rw [List.flatMap_append]
    exact (ih fun l hl => husable l (by simp [hl])).and (ih' fun l hl => husable l (by simp [hl]))
  | facility op value => exact .facility op value
  | severity op value => exact .severity op value
  | pid op digits => exact .pid op _
  | string subject equal text hquote =>
    have hne : text ≠ [] := husable (.quoted_string text hquote) (by simp)
    have hs := Sentence.string subject equal (cString text)
    simpa [Lexeme.tokens, hne, Subject.lexeme, equalityOp] using hs
  | regex subject equal expr hslash =>
    obtain ⟨hne, hvalid⟩ := husable (.regular_expression expr hslash) (by simp)
    have hs := Sentence.regex subject equal (cString expr)
    simpa [Lexeme.tokens, hne, hvalid, Subject.lexeme, equalityOp] using hs

/-! ### Derivations are scanned into the tokens of their lexemes -/

/-- A lexeme between marks starts with its mark. -/
theorem Lexeme.head_quoted_string {s : Str} {hs : quote ∉ s} {c : UInt8}
    (hc : c ∈ (Lexeme.quoted_string s hs).text.head?) : c = quote :=
  (Option.some.inj hc).symm

theorem Lexeme.head_regular_expression {s : Str} {hs : slash ∉ s} {c : UInt8}
    (hc : c ∈ (Lexeme.regular_expression s hs).text.head?) : c = slash :=
  (Option.some.inj hc).symm

/-- A lexeme that is no word starts with no letter or digit. -/
theorem Lexeme.head_of_not_isWord {l : Lexeme} (h : l.isWord = false) {c : UInt8}
    (hc : c ∈ l.text.head?) : isalnum c = false := by
  cases l with
  | fixed t ht =>
    have htable : ∀ t ∈ fixedTokens, t.isWord = false → isalnum (t.spelling.headD 0) = false := by
      decide
    have hhead : t.spelling.headD 0 = c := headD_of_mem hc
    rw [← hhead]
    exact htable t ht h
  | unsigned_int => cases h
  | quoted_string =>
    rw [head_quoted_string hc]
    decide
  | regular_expression =>
    rw [head_regular_expression hc]
    decide

/-- Only one lexeme starts with `=`. -/
theorem Lexeme.head_ne_equal {l : Lexeme} (h : ∀ ht, l ≠ .fixed .EQUAL ht) {c : UInt8}
    (hc : c ∈ l.text.head?) : c ≠ 61 := by
  cases l with
  | fixed t ht =>
    have htable : ∀ t ∈ fixedTokens, t ≠ .EQUAL → t.spelling.headD 0 ≠ 61 := by decide
    have hhead : t.spelling.headD 0 = c := headD_of_mem hc
    rw [← hhead]
    refine htable t ht ?_
    rintro rfl
    exact h ht rfl
  | unsigned_int digits hdigits =>
    have hdigit : isdigit c = true := hdigits c (List.mem_of_mem_head? hc)
    rintro rfl
    exact absurd hdigit (by decide)
  | quoted_string =>
    rw [head_quoted_string hc]
    decide
  | regular_expression =>
    rw [head_regular_expression hc]
    decide

/-- What a text starts with, from the lexemes that spell it. -/
theorem Spelled.not_isalnum {ls : List Lexeme} {text : Str} (h : Spelled ls text)
    (hls : ∀ l ∈ ls.head?, l.isWord = false) : ∀ c ∈ text.head?, isalnum c = false := by
  intro c hc
  obtain hspace | ⟨l, hl, hcl⟩ := h.head hc
  · exact (not_isalnum_of_isSpace hspace).1
  · exact l.head_of_not_isWord (hls l hl) hcl

theorem Spelled.ne_equal {ls : List Lexeme} {text : Str} (h : Spelled ls text)
    (hls : ∀ l ∈ ls.head?, ∀ ht, l ≠ .fixed .EQUAL ht) : ∀ c ∈ text.head?, c ≠ 61 := by
  intro c hc
  obtain hspace | ⟨l, hl, hcl⟩ := h.head hc
  · exact (not_isalnum_of_isSpace hspace).2
  · exact l.head_ne_equal (hls l hl) hcl

variable (engine) in
/-- At the front of any text, and with no word after them, the lexemes are scanned into their tokens,
    and the text does not start with `=`. -/
def Scans (ls : List Lexeme) : Prop :=
  ∀ more text, Spelled (ls ++ more) text → (∀ l ∈ more.head?, l.isWord = false) →
    (∀ c ∈ text.head?, c ≠ 61) ∧ ∃ rest, Spelled more rest ∧
      (scanner engine).scanAll .INITIAL text =
        ls.flatMap (Lexeme.tokens engine) ++ (scanner engine).scanAll .INITIAL rest

/-- An operator or a parenthesis: a text that is no word, and not the first half of another. -/
theorem Spelled.scanAll_operator {t : Token} (ht : t ∈ fixedTokens) (hword : t.isWord = false)
    (hhalf : t.isHalf = false) {more : List Lexeme} {text : Str}
    (h : Spelled (.fixed t ht :: more) text) :
    ∃ rest, Spelled more rest ∧ (scanner engine).scanAll .INITIAL text =
      t :: (scanner engine).scanAll .INITIAL rest := by
  refine h.scanAll_cons engine (fun hw => ?_) fun hh => ?_
  · rw [Lexeme.isWord, hword] at hw
    cases hw
  · rw [Lexeme.isHalf, hhalf] at hh
    cases hh

theorem Scans.parenthesized {ls : List Lexeme} (h : Scans engine ls) :
    Scans engine (.fixed .LPAREN (by decide) :: ls ++ [.fixed .RPAREN (by decide)]) := by
  intro more text htext hmore
  refine ⟨htext.ne_equal (by simp), ?_⟩
  rw [List.cons_append, List.cons_append, List.append_assoc] at htext
  obtain ⟨text₁, htext₁, hscan₁⟩ := htext.scanAll_operator (by decide) rfl rfl
  obtain ⟨-, text₂, htext₂, hscan₂⟩ := h _ text₁ htext₁ (by simp [Lexeme.isWord, Token.isWord])
  obtain ⟨text₃, htext₃, hscan₃⟩ := htext₂.scanAll_operator (by decide) rfl rfl
  refine ⟨text₃, htext₃, ?_⟩
  rw [hscan₁, hscan₂, hscan₃]
  simp [Lexeme.tokens]

/-- After `!` no `=` can follow. -/
theorem Scans.not {ls : List Lexeme} (h : Scans engine ls) :
    Scans engine (.fixed .NOT (by decide) :: ls) := by
  intro more text htext hmore
  refine ⟨htext.ne_equal (by simp), ?_⟩
  obtain ⟨text₁, htext₁, hscan₁⟩ := Spelled.scanAll_cons engine htext (fun hw => by cases hw)
    fun _ rest hrest => (h more rest hrest hmore).1
  obtain ⟨-, text₂, htext₂, hscan₂⟩ := h more text₁ htext₁ hmore
  refine ⟨text₂, htext₂, ?_⟩
  rw [hscan₁, hscan₂]
  simp [Lexeme.tokens]

theorem Scans.binary {ls ls' : List Lexeme} {t : Token} (ht : t ∈ fixedTokens)
    (hword : t.isWord = false) (hhalf : t.isHalf = false) (h : Scans engine ls)
    (h' : Scans engine ls') : Scans engine (ls ++ .fixed t ht :: ls') := by
  intro more text htext hmore
  rw [List.append_assoc, List.cons_append] at htext
  obtain ⟨hequal, text₁, htext₁, hscan₁⟩ := h _ text htext (by simpa [Lexeme.isWord] using hword)
  obtain ⟨text₂, htext₂, hscan₂⟩ := htext₁.scanAll_operator ht hword hhalf
  obtain ⟨-, text₃, htext₃, hscan₃⟩ := h' more text₂ htext₂ hmore
  refine ⟨hequal, text₃, htext₃, ?_⟩
  rw [hscan₁, hscan₂, hscan₃]
  simp [Lexeme.tokens]

/-- A comparison: a word, an operator, and something that does not go on from the operator. -/
theorem scans_comparison {t op : Token} {l : Lexeme} (ht : t ∈ fixedTokens)
    (hop : op ∈ fixedTokens) (hhalf : t.isHalf = false) (hequal : t ≠ .EQUAL)
    (hword : op.isWord = false) (hl : l.isHalf = false) (hl' : ∀ h, l ≠ .fixed .EQUAL h) :
    Scans engine [.fixed t ht, .fixed op hop, l] := by
  intro more text htext hmore
  refine ⟨htext.ne_equal (by simp [hequal]), ?_⟩
  obtain ⟨text₁, htext₁, hscan₁⟩ := Spelled.scanAll_cons engine htext
    (fun _ rest hrest => hrest.not_isalnum (by simpa [Lexeme.isWord] using hword))
    fun hh => by
      rw [Lexeme.isHalf, hhalf] at hh
      cases hh
  obtain ⟨text₂, htext₂, hscan₂⟩ := htext₁.scanAll_cons engine
    (fun hw => by
      rw [Lexeme.isWord, hword] at hw
      cases hw)
    fun _ rest hrest => hrest.ne_equal (by simpa using hl')
  obtain ⟨text₃, htext₃, hscan₃⟩ := htext₂.scanAll_cons engine
    (fun _ rest hrest => hrest.not_isalnum hmore) fun hh => by
      rw [hl] at hh
      cases hh
  refine ⟨text₃, htext₃, ?_⟩
  rw [hscan₁, hscan₂, hscan₃]
  simp

/-- **Every expression is scanned into the tokens of its lexemes.** -/
theorem Expression.scans {ls : List Lexeme} (h : Expression ls) : Scans engine ls := by
  induction h with
  | parenthesized _ ih => exact ih.parenthesized
  | not _ ih => exact ih.not
  | or _ _ ih ih' => exact ih.binary (by decide) rfl rfl ih'
  | and _ _ ih ih' => exact ih.binary (by decide) rfl rfl ih'
  | facility op value h =>
    exact scans_comparison _ _ rfl (by decide) (by cases op <;> rfl) rfl (by simp)
  | severity op value h =>
    exact scans_comparison _ _ rfl (by decide) (by cases op <;> rfl) rfl (by simp)
  | pid op digits =>
    exact scans_comparison _ _ rfl (by decide) (by cases op <;> rfl) rfl (by simp)
  | string subject equal text =>
    exact scans_comparison _ _ (by cases subject <;> rfl) (by cases subject <;> decide)
      (by cases equal <;> rfl) rfl (by simp)
  | regex subject equal expr =>
    exact scans_comparison _ _ (by cases subject <;> rfl) (by cases subject <;> decide)
      (by cases equal <;> rfl) rfl (by simp)

/-- A text that an expression spells is scanned into the tokens of its lexemes. -/
theorem Expression.scanAll_eq {ls : List Lexeme} (h : Expression ls) {text : Str}
    (htext : Spelled ls text) :
    (scanner engine).scanAll .INITIAL text = ls.flatMap (Lexeme.tokens engine) := by
  have htext' : Spelled (ls ++ []) text := by rwa [List.append_nil]
  have hscans : Scans engine ls := h.scans
  obtain ⟨-, rest, hrest, hscan⟩ := hscans [] text htext' (by simp)
  cases hrest with
  | nil hspaces =>
    have hend := scanAll_spaces engine hspaces []
    rw [List.append_nil] at hend
    rw [hscan, hend]
    exact List.append_nil _

end

/-! ### The driver -/

namespace Driver

variable (engine : RegexEngine) (now : Timestamp)

/-- A driver can be made of an expression whose tokens are a sentence. -/
theorem construct_isSome_iff_sentence (expr : Str) :
    (construct engine now expr).isSome = true ↔
      Sentence ((scanner engine).scanAll .INITIAL expr) := by
  rw [← parseTokens_isSome_iff engine (Message.default now)]
  cases hparse : parseTokens engine (Message.default now)
      ((scanner engine).scanAll .INITIAL expr) with
  | none =>
    have hrc : parse engine ⟨expr, [], false⟩ (Message.default now) =
        (false, false, ⟨expr, (scanner engine).scanAll .INITIAL expr, true⟩) := by
      simp [parse, hparse]
    simp [construct, is_valid, hrc]
  | some v =>
    have hrc : parse engine ⟨expr, [], false⟩ (Message.default now) =
        (true, v, ⟨expr, (scanner engine).scanAll .INITIAL expr, true⟩) :=
      parse_of_sentence (Or.inr ⟨rfl, rfl⟩) hparse
    simp [construct, is_valid, hrc]

/-- **What a driver can be made of**: the texts that the documented grammar derives from usable
    lexemes. -/
theorem construct_isSome_iff (expr : Str) :
    (construct engine now expr).isSome = true ↔
      ∃ ls, Expression ls ∧ Spelled ls expr ∧ ∀ l ∈ ls, l.Usable engine := by
  rw [construct_isSome_iff_sentence]
  constructor
  · intro h
    obtain ⟨ls, hspelled, htokens⟩ := exists_spelled h.clean
    obtain ⟨hexpr, husable⟩ := h.expression htokens.symm
    exact ⟨ls, hexpr, hspelled, husable⟩
  · rintro ⟨ls, hexpr, hspelled, husable⟩
    rw [hexpr.scanAll_eq hspelled]
    exact hexpr.sentence husable

/-- **The documented grammar is what a driver can be made of**, exactly for the texts in no
    derivation of which a string or a regular expression is empty, or a regular expression is not
    valid up to its first NUL. -/
theorem construct_isSome_iff_derivable (expr : Str) :
    ((construct engine now expr).isSome = true ↔ Derivable expr) ↔
      ∀ ls, Expression ls → Spelled ls expr → ∀ l ∈ ls, l.Usable engine := by
  constructor
  · intro h ls hexpr hspelled
    have hsome := h.mpr ⟨ls, hexpr, hspelled⟩
    rw [construct_isSome_iff_sentence, hexpr.scanAll_eq hspelled] at hsome
    exact (hsome.expression rfl).2
  · intro h
    rw [construct_isSome_iff]
    constructor
    · rintro ⟨ls, hexpr, hspelled, -⟩
      exact ⟨ls, hexpr, hspelled⟩
    · rintro ⟨ls, hexpr, hspelled⟩
      exact ⟨ls, hexpr, hspelled, h ls hexpr hspelled⟩

/-- **An empty string or regular expression is documented and refused.** -/
theorem empty_literals_refused :
    Derivable (str "host = ''") ∧ construct literalEngine ⟨0⟩ (str "host = ''") = none ∧
      Derivable (str "msg != //") ∧ construct literalEngine ⟨0⟩ (str "msg != //") = none := by
  have hblank : ∀ c ∈ [(32 : UInt8)], isSpace c = true := List.forall_mem_singleton.mpr rfl
  have hnone : ∀ c ∈ ([] : Str), isSpace c = true := List.forall_mem_nil _
  refine ⟨⟨_, .string .host true [] (by simp), ?_⟩, by decide,
    ⟨_, .regex .msg false [] (by simp), ?_⟩, by decide⟩
  · exact .cons hnone (.cons hblank (.cons hblank (.nil hnone)))
  · exact .cons hnone (.cons hblank (.cons hblank (.nil hnone)))

end Driver

end MessageFilter

end Mclog
