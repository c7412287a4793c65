import Mclog.Equiv.FilterScanner

/-!
# The scanner on any text

The terminals of the grammar in mclogd.cfg(5) are lexemes: the fixed texts, the numbers of up to ten
digits, and the strings and regular expressions between their marks, which may be empty.

What the scanner makes of one lexeme depends on the next character only (`scanAll_lexeme`).  The
other way round, every rule of `INITIAL` takes a lexeme, blanks, an opening mark or what is an error
(`initial_rule`).  So there is a lexeme or a blank in front of a text, unless its tokens show an error
or a mark that is not closed (`Clean.front`), and the text is spelled by lexemes (`exists_spelled`).
-/

namespace Mclog

open General

namespace MessageFilter

/-! ### Lexemes -/

/-- A terminal of the documented grammar. -/
inductive Lexeme where
  | fixed (t : Token) (h : t ∈ fixedTokens)
  | unsigned_int (digits : Str) (hdigits : ∀ c ∈ digits, isdigit c = true) (hne : digits ≠ [])
      (hlength : digits.length ≤ 10)
  | quoted_string (text : Str) (hquote : quote ∉ text)
  | regular_expression (expr : Str) (hslash : slash ∉ expr)

namespace Lexeme

/-- How a lexeme is written. -/
def text : Lexeme → Str
  | fixed t _ => t.spelling
  | unsigned_int digits _ _ _ => digits
  | quoted_string text _ => quote :: text ++ [quote]
  | regular_expression expr _ => slash :: expr ++ [slash]

/-- The tokens of a lexeme.  There is none for an empty text between marks. -/
def tokens (engine : RegexEngine) : Lexeme → List Token
  | fixed t _ => [t]
  | unsigned_int digits _ _ _ => [.UINT32 (UInt32.ofNat ((stoull digits).getD 0))]
  | quoted_string text _ =>
    .QUOTE :: (if text = [] then [] else [.STRING (cString text)]) ++ [.QUOTE]
  | regular_expression expr _ =>
    .SLASH :: (if expr = [] then []
      else [if engine.valid (cString expr) then .REGEX (cString expr) else .YYerror]) ++ [.SLASH]

/-- Whether a lexeme is written with letters and digits. -/
def isWord : Lexeme → Bool
  | fixed t _ => t.isWord
  | unsigned_int _ _ _ _ => true
  | _ => false

/-- Whether a lexeme could be the first half of another one that ends in `=`. -/
def isHalf : Lexeme → Bool
  | fixed t _ => t.isHalf
  | _ => false

theorem text_ne_nil (l : Lexeme) : l.text ≠ [] := by
  cases l with
  | fixed t h =>
    have htable : ∀ t ∈ fixedTokens, t.spelling ≠ [] := by decide
    exact htable t h
  | unsigned_int digits hdigits hne hlength => exact hne
  | quoted_string text hquote => simp [Lexeme.text]
  | regular_expression expr hslash => simp [Lexeme.text]

end Lexeme

/-- A text that is spelled by lexemes, with any blanks and newlines around each. -/
inductive Spelled : List Lexeme → Str → Prop where
  | nil {spaces : Str} (h : ∀ c ∈ spaces, isSpace c = true) : Spelled [] spaces
  | cons {spaces : Str} {l : Lexeme} {ls : List Lexeme} {rest : Str}
      (h : ∀ c ∈ spaces, isSpace c = true) (hrest : Spelled ls rest) :
      Spelled (l :: ls) (spaces ++ l.text ++ rest)

/-- Blanks in front. -/
theorem Spelled.spaces {ls : List Lexeme} {text spaces : Str} (h : Spelled ls text)
    (hspaces : ∀ c ∈ spaces, isSpace c = true) : Spelled ls (spaces ++ text) := by
  have happend : ∀ more : Str, (∀ c ∈ more, isSpace c = true) →
      ∀ c ∈ spaces ++ more, isSpace c = true := by
    intro more hmore c hc
    obtain hc | hc := List.mem_append.mp hc
    · exact hspaces c hc
    · exact hmore c hc
  cases h with
  | nil hnil => exact .nil (happend _ hnil)
  | @cons more l ls rest hmore hrest =>
    have hassoc : spaces ++ (more ++ l.text ++ rest) = (spaces ++ more) ++ l.text ++ rest := by
      simp only [List.append_assoc]
    rw [hassoc]
    exact .cons (happend _ hmore) hrest

/-- The first character of a text that is spelled by lexemes. -/
theorem Spelled.head {ls : List Lexeme} {text : Str} (h : Spelled ls text) {c : UInt8}
    (hc : c ∈ text.head?) : isSpace c = true ∨ ∃ l ∈ ls.head?, c ∈ l.text.head? := by
  cases h with
  | nil hspaces => exact Or.inl (hspaces c (List.mem_of_mem_head? hc))
  | @cons spaces l ls rest hspaces hrest =>
    cases spaces with
    | cons d spaces =>
      obtain rfl : d = c := by simpa using hc
      exact Or.inl (hspaces d (by simp))
    | nil =>
      refine Or.inr ⟨l, by simp, ?_⟩
      obtain ⟨d, t, htext⟩ := List.exists_cons_of_ne_nil l.text_ne_nil
      simpa [htext] using hc

/-! ### From lexemes to tokens -/

variable (engine : RegexEngine)

/-- **A lexeme and what follows**: its tokens, then those of what follows. -/
theorem scanAll_lexeme (l : Lexeme) {rest : Str}
    (hword : l.isWord = true → ∀ c ∈ rest.head?, isalnum c = false)
    (hhalf : l.isHalf = true → ∀ c ∈ rest.head?, c ≠ 61) :
    (scanner engine).scanAll .INITIAL (l.text ++ rest) =
      l.tokens engine ++ (scanner engine).scanAll .INITIAL rest := by
  cases l with
  | fixed t h => exact scanAll_fixed engine h hword hhalf
  | unsigned_int digits hdigits hne hlength =>
    obtain ⟨val, hval⟩ := stoull_of_length_le hdigits hne (by omega)
    show _ = Token.UINT32 (UInt32.ofNat ((stoull digits).getD 0)) :: _
    rw [hval, Option.getD_some]
    exact scanAll_digits engine hdigits hlength hval (hword rfl)
  | quoted_string text hquote =>
    by_cases hempty : text = []
    · subst hempty
      exact (marks_quote engine).scanAll_empty rest
    · have htokens : (Lexeme.quoted_string text hquote).tokens engine =
          [.QUOTE, .STRING (cString text), .QUOTE] := by
        simp [Lexeme.tokens, hempty]
      rw [htokens]
      exact (marks_quote engine).scanAll_marked hempty hquote rfl rest
  | regular_expression expr hslash =>
    by_cases hempty : expr = []
    · subst hempty
      exact (marks_slash engine).scanAll_empty rest
    · have htokens : (Lexeme.regular_expression expr hslash).tokens engine =
          [.SLASH, if engine.valid (cString expr) then .REGEX (cString expr) else .YYerror,
            .SLASH] := by
        simp [Lexeme.tokens, hempty]
      rw [htokens]
      exact (marks_slash engine).scanAll_marked hempty hslash rfl rest

/-- The first lexeme of a text, from which the scanner goes on. -/
theorem Spelled.scanAll_cons {l : Lexeme} {ls : List Lexeme} {text : Str}
    (h : Spelled (l :: ls) text)
    (hword : l.isWord = true → ∀ rest, Spelled ls rest → ∀ c ∈ rest.head?, isalnum c = false)
    (hhalf : l.isHalf = true → ∀ rest, Spelled ls rest → ∀ c ∈ rest.head?, c ≠ 61) :
    ∃ rest, Spelled ls rest ∧ (scanner engine).scanAll .INITIAL text =
      l.tokens engine ++ (scanner engine).scanAll .INITIAL rest := by
  cases h with
  | @cons spaces l ls rest hspaces hrest =>
    refine ⟨rest, hrest, ?_⟩
    rw [List.append_assoc, scanAll_spaces engine hspaces]
    exact scanAll_lexeme engine l (fun hw => hword hw rest hrest) fun hh => hhalf hh rest hrest

/-! ### From tokens to lexemes -/

/-- A rule takes a lexeme of one token. -/
def TakesLexeme (r : Pattern UInt8 × (Str → StartCondition × Option Token)) (w : Str) : Prop :=
  ∃ (l : Lexeme) (t : Token), l.text = w ∧ l.tokens engine = [t] ∧ r.2 w = (.INITIAL, some t)

theorem takesLexeme_fixed {text : String} {t : Token} (ht : t ∈ fixedTokens)
    (htext : t.spelling = str text) {input : Str}
    (hpos : 0 < (fixed text .INITIAL t).1.longest input) :
    TakesLexeme engine (fixed text .INITIAL t)
      (input.take ((fixed text .INITIAL t).1.longest input)) := by
  have htake : input.take ((fixed text .INITIAL t).1.longest input) = str text :=
    Pattern.literal_take hpos
  refine ⟨.fixed t ht, t, ?_, rfl, rfl⟩
  rw [htake]
  exact htext

theorem takesLexeme_oneOf {texts : List Str} {token : Str → Token}
    (htexts : ∀ w ∈ texts, token w ∈ fixedTokens ∧ (token w).spelling = w) {input : Str}
    (hpos : 0 < (Pattern.oneOf texts).longest input) :
    TakesLexeme engine (.oneOf texts, fun yytext => (.INITIAL, some (token yytext)))
      (input.take ((Pattern.oneOf texts).longest input)) := by
  obtain ⟨hmem, hspelling⟩ := htexts _ (Pattern.oneOf_take hpos)
  exact ⟨.fixed _ hmem, _, hspelling, rfl, rfl⟩

theorem takesLexeme_number {input : Str} (hpos : 0 < numberRule.1.longest input) :
    TakesLexeme engine numberRule (input.take (numberRule.1.longest input)) := by
  have hle := numberRule.1.longest_le input
  have hten : numberRule.1.longest input ≤ 10 := Nat.min_le_left _ _
  have hlength : (input.take (numberRule.1.longest input)).length =
      numberRule.1.longest input := by
    rw [List.length_take, Nat.min_eq_left hle]
  have hdigits : ∀ c ∈ input.take (numberRule.1.longest input), isdigit c = true :=
    Pattern.upTo_take 10 isdigit input
  have hne : input.take (numberRule.1.longest input) ≠ [] := by
    rw [← List.length_pos_iff_ne_nil, hlength]
    exact hpos
  obtain ⟨val, hval⟩ := stoull_of_length_le hdigits hne (by omega)
  refine ⟨.unsigned_int _ hdigits hne (by omega), .UINT32 (UInt32.ofNat val), rfl, ?_, ?_⟩
  · rw [Lexeme.tokens, hval, Option.getD_some]
  · simp only [numberRule] at hval ⊢
    rw [hval]

/-- **What a rule of `INITIAL` takes**: a lexeme of one token, an opening mark, blanks, or what is an
    error. -/
theorem initial_rule {r : Pattern UInt8 × (Str → StartCondition × Option Token)}
    (hr : r ∈ initialRules) {input : Str} (hpos : 0 < r.1.longest input) :
    TakesLexeme engine r (input.take (r.1.longest input)) ∨
    (input.take (r.1.longest input) = [quote] ∧ ∀ w, r.2 w = (.x_quoted, some .QUOTE)) ∨
    (input.take (r.1.longest input) = [slash] ∧ ∀ w, r.2 w = (.x_regex, some .SLASH)) ∨
    ((∀ c ∈ input.take (r.1.longest input), isSpace c = true) ∧ ∀ w, r.2 w = (.INITIAL, none)) ∨
    ∀ w, r.2 w = (.INITIAL, some .YYerror) := by
  have hsev : ∀ w ∈ m_sevval, Token.SEVVALUE (severityValue w) ∈ fixedTokens ∧
      (Token.SEVVALUE (severityValue w)).spelling = w := by decide +kernel
  have hfac : ∀ w ∈ m_facval, Token.FACVALUE (facilityValue w) ∈ fixedTokens ∧
      (Token.FACVALUE (facilityValue w)).spelling = w := by decide +kernel
  simp only [initialRules, List.mem_cons, List.not_mem_nil, or_false] at hr
  rcases hr with rfl | rfl | rfl | rfl | rfl | rfl | rfl | rfl | rfl | rfl | rfl | rfl | rfl |
    rfl | rfl | rfl | rfl | rfl | rfl | rfl | rfl | rfl | rfl | rfl | rfl
  all_goals try exact Or.inl (takesLexeme_fixed engine (by decide) rfl hpos)
  · -- A severity.
    exact Or.inl (takesLexeme_oneOf engine hsev hpos)
  · -- A facility.
    exact Or.inl (takesLexeme_oneOf engine hfac hpos)
  · -- A number.
    exact Or.inl (takesLexeme_number engine hpos)
  · -- `'`
    exact Or.inr (Or.inl ⟨Pattern.literal_take hpos, fun _ => rfl⟩)
  · -- `/`
    exact Or.inr (Or.inr (Or.inl ⟨Pattern.literal_take hpos, fun _ => rfl⟩))
  · -- Blanks.
    refine Or.inr (Or.inr (Or.inr (Or.inl ⟨fun c hc => ?_, fun _ => rfl⟩)))
    have hblank := Pattern.many_take isBlank input c hc
    rw [isSpace, hblank, Bool.true_or]
  · -- Newlines.
    refine Or.inr (Or.inr (Or.inr (Or.inl ⟨fun c hc => ?_, fun _ => rfl⟩)))
    have hnewline := Pattern.many_take (· == newline) input c hc
    rw [isSpace, hnewline, Bool.or_true]
  · -- Any other character.
    exact Or.inr (Or.inr (Or.inr (Or.inr fun _ => rfl)))

/-- In `INITIAL` there is a rule for every character. -/
theorem select_initial_ne_none (c : UInt8) (input : Str) :
    select initialRules (c :: input) ≠ none := by
  by_cases hc : c = newline
  · have hmem : (Pattern.many (· == newline), fun _ => (.INITIAL, none)) ∈ initialRules := by
      rw [initialRules_eq]
      simp [lastRules]
    apply select_ne_none hmem
    simp [Pattern.many, hc]
  · have hmem : (Pattern.one (· != newline), fun _ => (.INITIAL, some .YYerror)) ∈
        initialRules := by
      rw [initialRules_eq]
      simp [lastRules]
    apply select_ne_none hmem
    simp [Pattern.one, Pattern.upTo, hc]

variable {engine}

/-- A mark that is not closed. -/
theorem Marks.scanAll_unclosed {mark : UInt8} {inside : StartCondition} {token : Token}
    {action : Str → StartCondition × Option Token} (h : Marks engine mark inside token action)
    {text : Str} (hnot : mark ∉ text) (haction : ∀ w, ∃ t, t ≠ token ∧ action w = (inside, some t)) :
    ((scanner engine).scanAll .INITIAL (mark :: text)).count token = 1 := by
  have hend : (scanner engine).scanAll inside [] = [] := rfl
  rw [h.scanAll_open]
  by_cases hempty : text = []
  · rw [hempty, hend, List.count_singleton_self]
  · obtain ⟨t, ht, hact⟩ := haction text
    have hrest : ∀ c ∈ ([] : Str).head?, c = mark := by simp
    have htext := h.scanAll_text hempty hnot hrest hact
    rw [List.append_nil, hend] at htext
    rw [htext, List.count_cons_self, List.count_singleton, if_neg (by simpa using ht)]

/-- Tokens without an error, whose marks come in pairs. -/
structure Clean (ts : List Token) : Prop where
  error : .YYerror ∉ ts
  quotes : Even (ts.count .QUOTE)
  slashes : Even (ts.count .SLASH)

/-- A lexeme has both of its marks. -/
theorem Lexeme.even_tokens (engine : RegexEngine) (l : Lexeme) :
    Even ((l.tokens engine).count .QUOTE) ∧ Even ((l.tokens engine).count .SLASH) := by
  cases l with
  | fixed t h =>
    have htable : ∀ t ∈ fixedTokens, t ≠ .QUOTE ∧ t ≠ .SLASH := by decide
    obtain ⟨hquote, hslash⟩ := htable t h
    show Even ([t].count .QUOTE) ∧ Even ([t].count .SLASH)
    simp [hquote, hslash]
  | unsigned_int digits hdigits hne hlength => simp [Lexeme.tokens]
  | quoted_string text hquote =>
    by_cases hempty : text = [] <;> simp [Lexeme.tokens, hempty]
  | regular_expression expr hslash =>
    by_cases hempty : expr = []
    · simp [Lexeme.tokens, hempty]
    · by_cases hvalid : engine.valid (cString expr) = true <;>
        simp [Lexeme.tokens, hempty, hvalid]

/-- What follows a lexeme. -/
theorem Clean.of_append {l : Lexeme} {ts : List Token} (h : Clean (l.tokens engine ++ ts)) :
    Clean ts := by
  obtain ⟨hquotes, hslashes⟩ := l.even_tokens engine
  refine ⟨fun hmem => h.error (List.mem_append_right _ hmem), ?_, ?_⟩
  · have hsum := h.quotes
    rw [List.count_append, Nat.even_add] at hsum
    exact hsum.mp hquotes
  · have hsum := h.slashes
    rw [List.count_append, Nat.even_add] at hsum
    exact hsum.mp hslashes

/-- A string is closed. -/
theorem Clean.closed_quote {text : Str}
    (h : Clean ((scanner engine).scanAll .INITIAL (quote :: text))) :
    ∃ (l : Lexeme) (rest : Str), quote :: text = l.text ++ rest ∧ l.isWord = false ∧
      l.isHalf = false := by
  have hmem : quote ∈ text := by
    by_contra hnot
    have hone := (marks_quote engine).scanAll_unclosed hnot fun w =>
      ⟨.STRING (cString w), by simp, rfl⟩
    have heven := h.quotes
    rw [hone] at heven
    exact absurd heven (by decide)
  obtain ⟨inside, rest, rfl, hquote⟩ := List.eq_append_cons_of_mem hmem
  exact ⟨.quoted_string inside hquote, rest, by simp [Lexeme.text], rfl, rfl⟩

/-- So is a regular expression. -/
theorem Clean.closed_slash {text : Str}
    (h : Clean ((scanner engine).scanAll .INITIAL (slash :: text))) :
    ∃ (l : Lexeme) (rest : Str), slash :: text = l.text ++ rest ∧ l.isWord = false ∧
      l.isHalf = false := by
  have hmem : slash ∈ text := by
    by_contra hnot
    have hone := (marks_slash engine).scanAll_unclosed hnot fun w =>
      ⟨_, by split <;> simp, rfl⟩
    have heven := h.slashes
    rw [hone] at heven
    exact absurd heven (by decide)
  obtain ⟨inside, rest, rfl, hslash⟩ := List.eq_append_cons_of_mem hmem
  exact ⟨.regular_expression inside hslash, rest, by simp [Lexeme.text], rfl, rfl⟩

/-- **What is in front of a text whose tokens are clean**: a lexeme or blanks, from which the scanner
    goes on. -/
theorem Clean.front {c : UInt8} {input : Str}
    (h : Clean ((scanner engine).scanAll .INITIAL (c :: input))) :
    (∃ (l : Lexeme) (rest : Str), c :: input = l.text ++ rest ∧
      (scanner engine).scanAll .INITIAL (c :: input) =
        l.tokens engine ++ (scanner engine).scanAll .INITIAL rest) ∨
    ∃ spaces rest : Str, spaces ≠ [] ∧ (∀ d ∈ spaces, isSpace d = true) ∧
      c :: input = spaces ++ rest ∧
      (scanner engine).scanAll .INITIAL (c :: input) =
        (scanner engine).scanAll .INITIAL rest := by
  obtain ⟨⟨n, action⟩, hsel⟩ := Option.ne_none_iff_exists'.mp (select_initial_ne_none c input)
  obtain ⟨p, hp, rfl⟩ := mem_of_select hsel
  have hpos := (select_bounds hsel).1
  have hsel' : select ((scanner engine).rules .INITIAL) (c :: input) =
      some (p.longest (c :: input), action) := hsel
  have hsplit := List.take_append_drop (p.longest (c :: input)) (c :: input)
  -- A lexeme between marks: what it is scanned into is known for any lexeme.
  have hmarked : (∃ (l : Lexeme) (rest : Str), c :: input = l.text ++ rest ∧ l.isWord = false ∧
      l.isHalf = false) → ∃ (l : Lexeme) (rest : Str), c :: input = l.text ++ rest ∧
        (scanner engine).scanAll .INITIAL (c :: input) =
          l.tokens engine ++ (scanner engine).scanAll .INITIAL rest := by
    rintro ⟨l, rest, htext, hword, hhalf⟩
    refine ⟨l, rest, htext, ?_⟩
    rw [htext, scanAll_lexeme engine l (by simp [hword]) (by simp [hhalf])]
  rcases initial_rule engine hp hpos with
    ⟨l, t, hl, htokens, hact⟩ | ⟨hw, -⟩ | ⟨hw, -⟩ | ⟨hw, hact⟩ | hact
  · -- A lexeme of one token.
    refine Or.inl ⟨l, (c :: input).drop (p.longest (c :: input)), ?_, ?_⟩
    · rw [hl, hsplit]
    · rw [(scanner engine).scanAll_of_token hsel' hact, htokens, List.singleton_append]
  · -- A string.
    rw [hw, List.singleton_append] at hsplit
    rw [← hsplit] at h hmarked ⊢
    exact Or.inl (hmarked h.closed_quote)
  · -- A regular expression.
    rw [hw, List.singleton_append] at hsplit
    rw [← hsplit] at h hmarked ⊢
    exact Or.inl (hmarked h.closed_slash)
  · -- Blanks.
    refine Or.inr ⟨_, _, ?_, hw, hsplit.symm, (scanner engine).scanAll_of_skip hsel' (hact _)⟩
    intro hnil
    have hlength := congrArg List.length hnil
    rw [List.length_take_of_le (select_bounds hsel).2, List.length_nil] at hlength
    omega
  · -- An error.
    have hmem := h.error
    rw [(scanner engine).scanAll_of_token hsel' (hact _)] at hmem
    exact absurd List.mem_cons_self hmem

/-- **A text whose tokens are clean is spelled by lexemes**, whose tokens they are.  By induction on
    the length of the text. -/
theorem exists_spelled {text : Str} (h : Clean ((scanner engine).scanAll .INITIAL text)) :
    ∃ ls, Spelled ls text ∧
      (scanner engine).scanAll .INITIAL text = ls.flatMap (Lexeme.tokens engine) := by
  induction hlength : text.length using Nat.strong_induction_on generalizing text with
  | _ n ih =>
  subst hlength
  cases text with
  | nil => exact ⟨[], .nil (by simp), rfl⟩
  | cons c input =>
    obtain ⟨l, rest, htext, hscan⟩ | ⟨spaces, rest, hne, hspaces, htext, hscan⟩ := h.front
    · have hpos : 0 < l.text.length := List.length_pos_of_ne_nil l.text_ne_nil
      have hlt : rest.length < (c :: input).length := by
        rw [htext, List.length_append]
        omega
      rw [hscan] at h
      obtain ⟨ls, hls, htokens⟩ := ih _ hlt h.of_append rfl
      refine ⟨l :: ls, ?_, by rw [hscan, htokens, List.flatMap_cons]⟩
      have hnone : ∀ d ∈ ([] : Str), isSpace d = true := List.forall_mem_nil _
      rw [htext]
      exact .cons hnone hls
    · have hpos : 0 < spaces.length := List.length_pos_of_ne_nil hne
      have hlt : rest.length < (c :: input).length := by
        rw [htext, List.length_append]
        omega
      rw [hscan] at h
      obtain ⟨ls, hls, htokens⟩ := ih _ hlt h rfl
      rw [htext] at hscan ⊢
      exact ⟨ls, hls.spaces hspaces, hscan.trans htokens⟩

end MessageFilter

end Mclog
