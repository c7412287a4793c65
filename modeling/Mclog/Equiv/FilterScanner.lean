import Mathlib.Data.List.TakeWhile
import Mclog.Equiv.Basic
import Mclog.FilterSyntax

/-!
# The scanner on a written filter

A written filter is scanned into the tokens of its pieces, whatever blanks are around them
(`scanAll_of_spells`).  A piece can be scanned by itself because no literal of the scanner goes on
from it into what follows (`initial_append`): what follows a word is no letter or digit, and what
follows `<`, `>` or `!` is no `=` (`follows`).
-/

namespace Mclog

open General

namespace MessageFilter

/-! ### One rule in `INITIAL` -/

/-- The words that `INITIAL` knows. -/
def words : List Str :=
  [str "severity", str "facility", str "host", str "ident", str "msg", str "pid"] ++ m_sevval ++
    m_facval

/-- Its other fixed texts. -/
def operators : List Str :=
  [str "<=", str ">=", str "!=", str "||", str "&&", str "!", str "(", str ")", str "<", str ">",
   str "=", str "'", str "/"]

/-- What the patterns make of a text does not depend on what follows, if no fixed text goes on into
    it and the text is more than digits and blanks. -/
theorem initial_append {w rest : Str}
    (hlit : ∀ s ∈ words ++ operators, ∀ c t, s = w ++ c :: t → c ∉ rest.head?)
    (hw : ∃ c ∈ w, isdigit c = false ∧ isBlank c = false ∧ c ≠ newline) :
    ∀ r ∈ initialRules, r.1.longest (w ++ rest) = r.1.longest w := by
  obtain ⟨c, hc, hdigit, hblank, hnewline⟩ := hw
  have hne : w ≠ [] := List.ne_nil_of_mem hc
  have hword : ∀ s ∈ words, ∀ c t, s = w ++ c :: t → c ∉ rest.head? :=
    fun s hs => hlit s (List.mem_append_left _ hs)
  have hsev : ∀ s ∈ m_sevval, ∀ c t, s = w ++ c :: t → c ∉ rest.head? := fun s hs =>
    hword s (List.mem_append_left _ (List.mem_append_right _ hs))
  have hfac : ∀ s ∈ m_facval, ∀ c t, s = w ++ c :: t → c ∉ rest.head? := fun s hs =>
    hword s (List.mem_append_right _ hs)
  intro r hr
  simp only [initialRules, fixed, List.mem_cons, List.not_mem_nil, or_false] at hr
  rcases hr with rfl | rfl | rfl | rfl | rfl | rfl | rfl | rfl | rfl | rfl | rfl | rfl | rfl |
    rfl | rfl | rfl | rfl | rfl | rfl | rfl | rfl | rfl | rfl | rfl | rfl
  all_goals first
    | exact Pattern.literal_append (hlit _ (by decide))
    | exact Pattern.oneOf_append hsev
    | exact Pattern.oneOf_append hfac
    | exact Pattern.upTo_append_of_leaves ⟨c, hc, hdigit⟩ rest
    | exact Pattern.many_append_of_leaves ⟨c, hc, hblank⟩ rest
    | exact Pattern.many_append_of_leaves ⟨c, hc, by simpa using hnewline⟩ rest
    | exact Pattern.one_append hne rest

/-- The rule for numbers. -/
def numberRule : Pattern UInt8 × (Str → StartCondition × Option Token) :=
  (.upTo 10 isdigit, fun yytext =>
    match stoull yytext with
    | some val => (.INITIAL, some (.UINT32 (UInt32.ofNat val)))
    | none => (.INITIAL, some .YYerror))

/-- The rules for fixed texts, before and after the one for numbers. -/
def fixedRules : List (Pattern UInt8 × (Str → StartCondition × Option Token)) ×
    List (Pattern UInt8 × (Str → StartCondition × Option Token)) :=
  (initialRules.take 7, (initialRules.drop 8).take 14)

/-- The rules for blanks, for newlines and for any other character. -/
def lastRules : List (Pattern UInt8 × (Str → StartCondition × Option Token)) :=
  [(.many isBlank, fun _ => (.INITIAL, none)),
   (.many (· == newline), fun _ => (.INITIAL, none)),
   (.one (· != newline), fun _ => (.INITIAL, some .YYerror))]

theorem initialRules_eq :
    initialRules = fixedRules.1 ++ numberRule :: (fixedRules.2 ++ lastRules) := rfl

/-- No fixed text matches where none starts with the first character. -/
theorem fixed_of_head {c : UInt8} (hc : ∀ s ∈ words ++ operators, c ∉ s.head?) (input : Str) :
    ∀ r ∈ fixedRules.1 ++ fixedRules.2, r.1.longest (c :: input) = 0 := by
  have hne : ∀ s ∈ words ++ operators, s ≠ [] := by decide
  have hlit : ∀ s ∈ words ++ operators, (Pattern.literal s).longest (c :: input) = 0 :=
    fun s hs => Pattern.literal_of_head_ne (hne s hs) (hc s hs) input
  have hsev : (Pattern.oneOf m_sevval).longest (c :: input) = 0 := by
    refine Pattern.oneOf_of_head_ne (fun s hs => ?_) input
    have hmem : s ∈ words ++ operators :=
      List.mem_append_left _ (List.mem_append_left _ (List.mem_append_right _ hs))
    exact ⟨hne s hmem, hc s hmem⟩
  have hfac : (Pattern.oneOf m_facval).longest (c :: input) = 0 := by
    refine Pattern.oneOf_of_head_ne (fun s hs => ?_) input
    have hmem : s ∈ words ++ operators := List.mem_append_left _ (List.mem_append_right _ hs)
    exact ⟨hne s hmem, hc s hmem⟩
  intro r hr
  simp only [fixedRules, initialRules, fixed, List.take_succ_cons, List.take_zero,
    List.drop_succ_cons, List.drop_zero, List.cons_append, List.nil_append, List.mem_cons,
    List.not_mem_nil, or_false] at hr
  rcases hr with rfl | rfl | rfl | rfl | rfl | rfl | rfl | rfl | rfl | rfl | rfl | rfl | rfl |
    rfl | rfl | rfl | rfl | rfl | rfl | rfl | rfl
  all_goals first
    | exact hlit _ (by decide)
    | exact hsev
    | exact hfac

theorem headD_of_mem {s : Str} {c d : UInt8} (h : c ∈ s.head?) : s.headD d = c := by
  rw [List.headD_eq_head?_getD, Option.mem_def.mp h, Option.getD_some]

/-- At most one character of a class is matched by the pattern for one. -/
theorem one_longest_le (ok : UInt8 → Bool) (input : Str) : (Pattern.one ok).longest input ≤ 1 :=
  Nat.min_le_left _ _

/-! ### Blanks -/

variable (engine : RegexEngine)

theorem isSpace_cases {c : UInt8} (hc : isSpace c = true) : c = 32 ∨ c = 9 ∨ c = 13 ∨ c = 10 := by
  simpa [isSpace, isBlank, newline, or_assoc] using hc

/-- A blank or a newline continues no word and no operator. -/
theorem not_isalnum_of_isSpace {c : UInt8} (hc : isSpace c = true) :
    isalnum c = false ∧ c ≠ 61 := by
  rcases isSpace_cases hc with rfl | rfl | rfl | rfl <;> decide

/-- No fixed text and no number starts with a blank or a newline. -/
theorem head_of_isSpace {c : UInt8} (hc : isSpace c = true) :
    isdigit c = false ∧ ∀ s ∈ words ++ operators, c ∉ s.head? := by
  rcases isSpace_cases hc with rfl | rfl | rfl | rfl
  all_goals exact ⟨by decide, by decide⟩

/-- No fixed text and no number is read where a blank or a newline is next. -/
theorem longest_of_isSpace {c : UInt8} (hc : isSpace c = true) (input : Str) :
    ∀ r ∈ fixedRules.1 ++ numberRule :: fixedRules.2, r.1.longest (c :: input) = 0 := by
  obtain ⟨hdigit, hhead⟩ := head_of_isSpace hc
  have hfixed := fixed_of_head hhead input
  intro r hr
  rw [List.mem_append, List.mem_cons] at hr
  obtain hr | rfl | hr := hr
  · exact hfixed r (List.mem_append_left _ hr)
  · exact Pattern.upTo_of_head _ _ hdigit input
  · exact hfixed r (List.mem_append_right _ hr)

theorem select_of_isBlank {c : UInt8} (hc : isBlank c = true) (input : Str) :
    select initialRules (c :: input) =
      some ((Pattern.many isBlank).longest (c :: input), fun _ => (.INITIAL, none)) := by
  have hspace : isSpace c = true := by simp [isSpace, hc]
  have hpos : 0 < (Pattern.many isBlank).longest (c :: input) := by simp [Pattern.many, hc]
  have hnewline : (c == newline) = false := by
    have hcases : c = 32 ∨ c = 9 ∨ c = 13 := by simpa [isBlank, or_assoc] using hc
    rcases hcases with rfl | rfl | rfl <;> rfl
  refine select_of_split (fixedRules.1 ++ numberRule :: fixedRules.2) lastRules.tail rfl
    (fun r hr => ?_) (fun r hr => ?_) hpos
  · rw [longest_of_isSpace hspace input r hr]
    exact hpos
  · simp only [lastRules, List.tail_cons, List.mem_cons, List.not_mem_nil, or_false] at hr
    obtain rfl | rfl := hr
    · have hzero : (Pattern.many (· == newline)).longest (c :: input) = 0 :=
        Pattern.many_of_head (· == newline) hnewline input
      exact hzero.trans_le (Nat.zero_le _)
    · exact (one_longest_le _ _).trans hpos

theorem select_of_newline (input : Str) :
    select initialRules (newline :: input) =
      some ((Pattern.many (· == newline)).longest (newline :: input), fun _ => (.INITIAL, none)) := by
  have hspace : isSpace newline = true := by decide
  have hpos : 0 < (Pattern.many (· == newline)).longest (newline :: input) := by
    simp [Pattern.many]
  refine select_of_split ((fixedRules.1 ++ numberRule :: fixedRules.2) ++ lastRules.take 1)
    (lastRules.drop 2) rfl (fun r hr => ?_) (fun r hr => ?_) hpos
  · obtain hr | hr := List.mem_append.mp hr
    · rw [longest_of_isSpace hspace input r hr]
      exact hpos
    · obtain rfl : r = (.many isBlank, fun _ => (.INITIAL, none)) := by simpa [lastRules] using hr
      rw [Pattern.many_of_head _ (by decide)]
      exact hpos
  · obtain rfl : r = (.one (· != newline), fun _ => (.INITIAL, some .YYerror)) := by
      simpa [lastRules] using hr
    exact (one_longest_le _ _).trans hpos

/-- A blank or a newline in front changes nothing: one rule takes all the blanks in front, or all the
    newlines. -/
theorem scanAll_space {c : UInt8} (hc : isSpace c = true) (input : Str) :
    (scanner engine).scanAll .INITIAL (c :: input) = (scanner engine).scanAll .INITIAL input := by
  have hrun : ∀ (ok : UInt8 → Bool), (∀ d, ok d = true → ∀ input,
      select initialRules (d :: input) =
        some ((Pattern.many ok).longest (d :: input), fun _ => (.INITIAL, none))) →
      ok c = true →
      (scanner engine).scanAll .INITIAL (c :: input) =
        (scanner engine).scanAll .INITIAL input := by
    intro ok hsel hok
    have hlong : (Pattern.many ok).longest (c :: input) = (Pattern.many ok).longest input + 1 := by
      simp [Pattern.many, hok]
    have hfirst := (scanner engine).scanAll_of_skip (s := .INITIAL) (hsel c hok input) rfl
    rw [hfirst, hlong, List.drop_succ_cons]
    cases input with
    | nil => rfl
    | cons d input =>
      by_cases hd : ok d = true
      · exact ((scanner engine).scanAll_of_skip (s := .INITIAL) (hsel d hd input) rfl).symm
      · rw [Pattern.many_of_head _ (by simpa using hd), List.drop_zero]
  rw [isSpace, Bool.or_eq_true] at hc
  obtain hblank | hnewline := hc
  · exact hrun isBlank (fun d hd => select_of_isBlank hd) hblank
  · refine hrun (· == newline) (fun d hd => ?_) hnewline
    obtain rfl : d = newline := by simpa using hd
    exact select_of_newline

theorem scanAll_spaces {spaces : Str} (h : ∀ c ∈ spaces, isSpace c = true) (input : Str) :
    (scanner engine).scanAll .INITIAL (spaces ++ input) =
      (scanner engine).scanAll .INITIAL input := by
  induction spaces with
  | nil => rfl
  | cons c spaces ih =>
    rw [List.cons_append, scanAll_space engine (h c (by simp)), ih fun d hd => h d (by simp [hd])]

/-! ### Pieces -/

/-- The tokens that are written as one fixed text and stay in `INITIAL`. -/
def fixedTokens : List Token :=
  [.AND, .EQUAL, .GREATER, .GREATEROREQ, .LESS, .LESSOREQ, .LPAREN, .NOT, .NOTEQ, .OR, .RPAREN,
   .FACILITY, .HOST, .IDENT, .PID, .MSG, .SEVERITY] ++
    g_severityNames.map (fun p => .SEVVALUE p.1) ++ g_facilities.map fun p => .FACVALUE p.1

/-- Whether a token is written with letters and digits. -/
def Token.isWord : Token → Bool
  | .FACILITY | .HOST | .IDENT | .PID | .MSG | .SEVERITY | .FACVALUE _ | .SEVVALUE _ | .UINT32 _ =>
    true
  | _ => false

/-- Whether a token could be the first half of another one that ends in `=`. -/
def Token.isHalf (t : Token) : Bool := t == .LESS || t == .GREATER || t == .NOT

/-- The pieces of a written filter, with strings and expressions the scanner can take. -/
inductive Piece.Scannable : Piece → Prop where
  | fixed {t : Token} (h : t ∈ fixedTokens) : Scannable (.token t)
  | number (val : UInt32) : Scannable (.token (.UINT32 val))
  | quoted {text : Str} (hne : text ≠ []) (hquote : quote ∉ text) (hnul : 0 ∉ text) :
      Scannable (.quoted text)
  | regex {expr : Str} (hne : expr ≠ []) (hslash : slash ∉ expr) (hnul : 0 ∉ expr)
      (hvalid : engine.valid expr = true) : Scannable (.regex expr)

/-- Whether a piece can follow another one, with no blank between them. -/
def follows : Piece → Piece → Prop
  | .token t, .token u => ¬ (t.isWord ∧ u.isWord) ∧ ¬ (t.isHalf ∧ u = .EQUAL)
  | _, _ => True

instance (p q : Piece) : Decidable (follows p q) := by
  unfold follows
  split <;> infer_instance

/-- Where a piece may go on: the first character of a text that spells pieces is a blank, a newline,
    or the first one of the first piece. -/
theorem head_of_spells {ps : List Piece} {text : Str} (h : Spells ps text)
    (hne : ∀ p ∈ ps, p.text ≠ []) {c : UInt8} (hc : c ∈ text.head?) :
    isSpace c = true ∨ ∃ p ∈ ps.head?, c ∈ p.text.head? := by
  cases h with
  | nil hspaces => exact Or.inl (hspaces c (List.mem_of_mem_head? hc))
  | @cons spaces p ps rest hspaces hrest =>
    cases spaces with
    | cons d spaces =>
      obtain rfl : d = c := by simpa using hc
      exact Or.inl (hspaces d (by simp))
    | nil =>
      refine Or.inr ⟨p, by simp, ?_⟩
      have hp := hne p (by simp)
      cases htext : p.text with
      | nil => exact absurd htext hp
      | cons d t => simpa [htext] using hc

/-- The text of a piece is not empty. -/
theorem Piece.Scannable.text_ne_nil {p : Piece} (h : p.Scannable engine) : p.text ≠ [] := by
  cases h with
  | fixed h =>
    have htable : ∀ t ∈ fixedTokens, t.spelling ≠ [] := by decide
    exact htable _ h
  | number val => exact decimal_ne_nil _
  | quoted => simp [Piece.text]
  | regex => simp [Piece.text]

/-- A fixed token by itself. -/
theorem selectResult_fixed {t : Token} (h : t ∈ fixedTokens) :
    selectResult initialRules t.spelling = some (t.spelling.length, .INITIAL, some t) := by
  have htable : ∀ t ∈ fixedTokens,
      selectResult initialRules t.spelling = some (t.spelling.length, .INITIAL, some t) := by
    decide +kernel
  exact htable t h

/-- **A fixed token and what follows**: its token, then those of what follows. -/
theorem scanAll_fixed {t : Token} (h : t ∈ fixedTokens) {rest : Str}
    (hword : t.isWord = true → ∀ c ∈ rest.head?, isalnum c = false)
    (hhalf : t.isHalf = true → ∀ c ∈ rest.head?, c ≠ 61) :
    (scanner engine).scanAll .INITIAL (t.spelling ++ rest) =
      t :: (scanner engine).scanAll .INITIAL rest := by
  refine (scanner engine).scanAll_append (initial_append ?_ ?_) (selectResult_fixed h)
  · -- A longer text goes on from a word with a letter or digit, and from the others with `=`.
    have htable : ∀ t ∈ fixedTokens, ∀ s ∈ words ++ operators, t.spelling <+: s →
        s = t.spelling ∨ (t.isWord = true ∧ isalnum ((s.drop t.spelling.length).headD 0) = true) ∨
          (t.isHalf = true ∧ (s.drop t.spelling.length).headD 0 = 61) := by decide +kernel
    rintro s hs c u rfl hc
    obtain heq | ⟨hw, halnum⟩ | ⟨hh, hequal⟩ := htable t h _ hs (List.prefix_append _ _)
    · simp at heq
    · rw [List.drop_left, List.headD_cons, hword hw c hc] at halnum
      cases halnum
    · rw [List.drop_left, List.headD_cons] at hequal
      exact hhalf hh c hc hequal
  · have htable : ∀ t ∈ fixedTokens,
        ∃ c ∈ t.spelling, isdigit c = false ∧ isBlank c = false ∧ c ≠ newline := by decide
    exact htable t h

/-- **Digits and what follows**: their number, up to ten digits. -/
theorem scanAll_digits {digits : Str} {val : Nat} (hdigits : ∀ c ∈ digits, isdigit c = true)
    (hlength : digits.length ≤ 10) (hval : stoull digits = some val) {rest : Str}
    (hrest : ∀ c ∈ rest.head?, isalnum c = false) :
    (scanner engine).scanAll .INITIAL (digits ++ rest) =
      .UINT32 (UInt32.ofNat val) :: (scanner engine).scanAll .INITIAL rest := by
  have hne : digits ≠ [] := by
    rintro rfl
    simp [stoull] at hval
  have hlong : numberRule.1.longest (digits ++ rest) = digits.length := by
    rw [numberRule, Pattern.upTo_append hdigits, Nat.min_eq_right hlength]
    intro c hc
    have halnum := hrest c hc
    simp only [isalnum, Bool.or_eq_false_iff] at halnum
    exact halnum.1.1
  -- The text starts with a digit, so that only the rule for numbers and the last one match.
  obtain ⟨d, ds, hd⟩ := List.exists_cons_of_ne_nil hne
  have hdigit : isdigit d = true := hdigits d (by simp [hd])
  have hhead : ∀ s ∈ words ++ operators, d ∉ s.head? := by
    have htable : ∀ s ∈ words ++ operators, isdigit (s.headD 0) = false ∧ s ≠ [] := by decide
    intro s hs hmem
    have hs' := (htable s hs).1
    rw [headD_of_mem hmem, hdigit] at hs'
    cases hs'
  have hclass : isBlank d = false ∧ (d == newline) = false := by
    simp only [isdigit, Bool.and_eq_true, decide_eq_true_eq] at hdigit
    have hle : (48 : UInt8) ≤ d := hdigit.1
    have h32 : d ≠ 32 := by rintro rfl; exact absurd hle (by decide)
    have h9 : d ≠ 9 := by rintro rfl; exact absurd hle (by decide)
    have h13 : d ≠ 13 := by rintro rfl; exact absurd hle (by decide)
    have h10 : d ≠ 10 := by rintro rfl; exact absurd hle (by decide)
    exact ⟨by simp [isBlank, h32, h9, h13], by simp [newline, h10]⟩
  have hfixed : ∀ r ∈ fixedRules.1 ++ fixedRules.2, r.1.longest (digits ++ rest) = 0 := by
    rw [hd, List.cons_append]
    exact fixed_of_head hhead _
  have hpos : 0 < numberRule.1.longest (digits ++ rest) := by
    rw [hlong]
    exact List.length_pos_of_ne_nil hne
  have hsel : select ((scanner engine).rules .INITIAL) (digits ++ rest) =
      some (numberRule.1.longest (digits ++ rest), numberRule.2) := by
    refine select_of_split fixedRules.1 (fixedRules.2 ++ lastRules) initialRules_eq
      (fun r hr => ?_) (fun r hr => ?_) hpos
    · rw [hfixed r (List.mem_append_left _ hr)]
      exact hpos
    · rw [List.mem_append] at hr
      obtain hr | hr := hr
      · rw [hfixed r (List.mem_append_right _ hr)]
        exact Nat.zero_le _
      · simp only [lastRules, List.mem_cons, List.not_mem_nil, or_false] at hr
        obtain rfl | rfl | rfl := hr
        · rw [hd, List.cons_append, Pattern.many_of_head _ hclass.1]
          exact Nat.zero_le _
        · rw [hd, List.cons_append, Pattern.many_of_head (· == newline) hclass.2]
          exact Nat.zero_le _
        · exact (one_longest_le _ _).trans hpos
  rw [hlong] at hsel
  have haction : numberRule.2 ((digits ++ rest).take digits.length) =
      (.INITIAL, some (.UINT32 (UInt32.ofNat val))) := by
    rw [List.take_left]
    simp only [numberRule, hval]
  rw [(scanner engine).scanAll_of_token hsel haction, List.drop_left]

/-- A number and what follows. -/
theorem scanAll_number (val : UInt32) {rest : Str} (hrest : ∀ c ∈ rest.head?, isalnum c = false) :
    (scanner engine).scanAll .INITIAL (decimal val.toNat ++ rest) =
      .UINT32 val :: (scanner engine).scanAll .INITIAL rest := by
  have hlt : val.toNat < 2 ^ 32 := val.toNat_lt
  have hval : stoull (decimal val.toNat) = some val.toNat := stoull_decimal (by omega)
  rw [scanAll_digits engine (fun c hc => isdigit_decimal hc) (length_decimal_le hlt) hval hrest,
    UInt32.ofNat_toNat]

/-- A string without NUL is the C string at its front. -/
theorem cString_of_notMem {s : Str} (h : 0 ∉ s) : cString s = s := by
  rw [cString, List.takeWhile_eq_self_iff]
  intro c hc
  have hne : c ≠ 0 := fun hc0 => h (hc0 ▸ hc)
  simpa using hne

/-- A mark that opens a start condition from `INITIAL`, where one rule takes everything but the
    mark and the other closes the start condition at the mark. -/
structure Marks (mark : UInt8) (inside : StartCondition) (token : Token)
    (action : Str → StartCondition × Option Token) : Prop where
  opens : selectResult initialRules [mark] = some (1, inside, some token)
  alone : ∀ s ∈ words ++ operators, [mark] <+: s → s = [mark]
  class_ : isdigit mark = false ∧ isBlank mark = false ∧ mark ≠ newline
  rules : (scanner engine).rules inside =
    [(.many (· != mark), action), (.literal [mark], fun _ => (.INITIAL, some token))]

theorem marks_quote : Marks engine quote .x_quoted .QUOTE
    fun yytext => (.x_quoted, some (.STRING (cString yytext))) :=
  ⟨by decide, by decide, by decide, rfl⟩

theorem marks_slash : Marks engine slash .x_regex .SLASH fun yytext =>
    (.x_regex, some (if engine.valid (cString yytext) then .REGEX (cString yytext)
      else .YYerror)) :=
  ⟨by decide, by decide, by decide, rfl⟩

namespace Marks

variable {engine} {mark : UInt8} {inside : StartCondition} {token : Token}
  {action : Str → StartCondition × Option Token}

/-- The opening mark. -/
theorem scanAll_open (h : Marks engine mark inside token action) (rest : Str) :
    (scanner engine).scanAll .INITIAL (mark :: rest) =
      token :: (scanner engine).scanAll inside rest := by
  refine (scanner engine).scanAll_append (w := [mark]) (initial_append (fun s hs c t hst hc => ?_)
    ⟨mark, by simp, h.class_⟩) h.opens
  have hmem := h.alone s hs (by rw [hst]; exact List.prefix_append _ _)
  rw [hst] at hmem
  simp at hmem

/-- What is inside, up to the mark or to the end of the input. -/
theorem scanAll_text (h : Marks engine mark inside token action) {text rest : Str} {t : Token}
    (hne : text ≠ []) (hnot : mark ∉ text) (hrest : ∀ c ∈ rest.head?, c = mark)
    (haction : action text = (inside, some t)) :
    (scanner engine).scanAll inside (text ++ rest) =
      t :: (scanner engine).scanAll inside rest := by
  have hlong : (Pattern.many (· != mark)).longest (text ++ rest) = text.length := by
    refine Pattern.many_append (fun c hc => ?_) fun c hc => ?_
    · have hcm : c ≠ mark := fun h => hnot (h ▸ hc)
      simpa using hcm
    · simp [hrest c hc]
  have hsel : select ((scanner engine).rules inside) (text ++ rest) =
      some (text.length, action) := by
    rw [h.rules, ← hlong]
    refine select_of_split [] _ rfl (fun r hr => by cases hr) (fun r hr => ?_) ?_
    · obtain rfl : r = (.literal [mark], fun _ => (.INITIAL, some token)) := by simpa using hr
      obtain ⟨c, cs, rfl⟩ := List.exists_cons_of_ne_nil hne
      have hcm : c ≠ mark := fun h => hnot (by simp [h])
      have hzero : (Pattern.literal [mark]).longest (c :: cs ++ rest) = 0 :=
        Pattern.literal_of_head_ne (by simp) (by simpa using hcm.symm) _
      rw [hzero]
      exact Nat.zero_le _
    · rw [hlong]
      exact List.length_pos_of_ne_nil hne
  have htext : action ((text ++ rest).take text.length) = (inside, some t) := by
    rw [List.take_left]
    exact haction
  rw [(scanner engine).scanAll_of_token hsel htext, List.drop_left]

/-- The closing mark. -/
theorem scanAll_close (h : Marks engine mark inside token action) (rest : Str) :
    (scanner engine).scanAll inside (mark :: rest) =
      token :: (scanner engine).scanAll .INITIAL rest := by
  have hself : (mark != mark) = false := by simp
  have hone : (Pattern.literal [mark]).longest (mark :: rest) = 1 := by simp [Pattern.literal]
  have hsel : select ((scanner engine).rules inside) (mark :: rest) =
      some (1, fun _ => (.INITIAL, some token)) := by
    rw [h.rules, ← hone]
    refine select_of_split [(.many (· != mark), action)] [] rfl (fun r hr => ?_)
      (fun r hr => by cases hr) (by rw [hone]; exact Nat.one_pos)
    obtain rfl : r = (.many (· != mark), action) := by simpa using hr
    rw [Pattern.many_of_head (· != mark) hself, hone]
    exact Nat.one_pos
  rw [(scanner engine).scanAll_of_token hsel rfl]
  rfl

/-- **A text between two marks**, which is not empty: one token for it. -/
theorem scanAll_marked (h : Marks engine mark inside token action) {text : Str} {t : Token}
    (hne : text ≠ []) (hnot : mark ∉ text) (haction : action text = (inside, some t))
    (rest : Str) :
    (scanner engine).scanAll .INITIAL (mark :: text ++ [mark] ++ rest) =
      token :: t :: token :: (scanner engine).scanAll .INITIAL rest := by
  have hsplit : mark :: text ++ [mark] ++ rest = mark :: (text ++ mark :: rest) := by simp
  rw [hsplit, h.scanAll_open, h.scanAll_text hne hnot (by simp) haction, h.scanAll_close]

/-- **Nothing between two marks**: no token for it. -/
theorem scanAll_empty (h : Marks engine mark inside token action) (rest : Str) :
    (scanner engine).scanAll .INITIAL (mark :: mark :: rest) =
      token :: token :: (scanner engine).scanAll .INITIAL rest := by
  rw [h.scanAll_open, h.scanAll_close]

end Marks

/-- **A piece and what follows**: its tokens, then those of what follows. -/
theorem scanAll_piece {p : Piece} (h : p.Scannable engine) {rest : Str}
    (hword : ∀ t, p = .token t → t.isWord = true → ∀ c ∈ rest.head?, isalnum c = false)
    (hhalf : ∀ t, p = .token t → t.isHalf = true → ∀ c ∈ rest.head?, c ≠ 61) :
    (scanner engine).scanAll .INITIAL (p.text ++ rest) =
      p.tokens ++ (scanner engine).scanAll .INITIAL rest := by
  cases h with
  | fixed ht => exact scanAll_fixed engine ht (hword _ rfl) (hhalf _ rfl)
  | number val => exact scanAll_number engine val (hword _ rfl rfl)
  | @quoted text hne hquote hnul =>
    refine (marks_quote engine).scanAll_marked hne hquote ?_ rest
    rw [cString_of_notMem hnul]
  | @regex expr hne hslash hnul hvalid =>
    refine (marks_slash engine).scanAll_marked hne hslash ?_ rest
    rw [cString_of_notMem hnul, if_pos hvalid]

/-- The first character of a piece that follows another one. -/
theorem head_of_follows {p q : Piece} (hq : q.Scannable engine) (h : follows p q) {t : Token}
    (hp : p = .token t) {c : UInt8} (hc : c ∈ q.text.head?) :
    (t.isWord = true → isalnum c = false) ∧ (t.isHalf = true → c ≠ 61) := by
  subst hp
  cases hq with
  | @fixed u hu =>
    obtain ⟨hwords, hhalf⟩ := h
    have htable : ∀ u ∈ fixedTokens, (u.isWord = false → isalnum (u.spelling.headD 0) = false) ∧
        (u ≠ .EQUAL → u.spelling.headD 0 ≠ 61) := by decide
    have hhead : u.spelling.headD 0 = c := headD_of_mem hc
    obtain ⟨halnum, hequal⟩ := htable u hu
    rw [hhead] at halnum hequal
    refine ⟨fun hw => halnum ?_, fun hh => hequal fun heq => hhalf ⟨hh, heq⟩⟩
    simpa using fun hu => hwords ⟨hw, hu⟩
  | number val =>
    obtain ⟨hwords, -⟩ := h
    have hdigit : isdigit c = true := isdigit_decimal (List.mem_of_mem_head? hc)
    refine ⟨fun hw => absurd ⟨hw, rfl⟩ hwords, fun _ => ?_⟩
    rintro rfl
    exact absurd hdigit (by decide)
  | quoted =>
    obtain rfl : quote = c := by simpa [Piece.text] using hc
    exact ⟨fun _ => by decide, fun _ => by decide⟩
  | regex =>
    obtain rfl : slash = c := by simpa [Piece.text] using hc
    exact ⟨fun _ => by decide, fun _ => by decide⟩

/-- **The tokens of a written filter** are those of its pieces. -/
theorem scanAll_of_spells {ps : List Piece} {text : Str} (h : Spells ps text)
    (hps : ∀ p ∈ ps, p.Scannable engine) (hfollows : ps.IsChain follows) :
    (scanner engine).scanAll .INITIAL text = ps.flatMap Piece.tokens := by
  induction h with
  | @nil spaces hspaces =>
    have hscan := scanAll_spaces engine hspaces []
    rw [List.append_nil] at hscan
    rw [hscan]
    rfl
  | @cons spaces p ps rest hspaces hrest ih =>
    -- The first character of what follows the piece.
    have hhead : ∀ t, p = .token t → ∀ c ∈ rest.head?,
        (t.isWord = true → isalnum c = false) ∧ (t.isHalf = true → c ≠ 61) := by
      intro t ht c hc
      obtain hspace | ⟨q, hq, hcq⟩ :=
        head_of_spells hrest (fun q hq => (hps q (by simp [hq])).text_ne_nil) hc
      · obtain ⟨halnum, hequal⟩ := not_isalnum_of_isSpace hspace
        exact ⟨fun _ => halnum, fun _ => hequal⟩
      · have hqmem : q ∈ ps := List.mem_of_mem_head? hq
        refine head_of_follows engine (hps q (by simp [hqmem])) ?_ ht hcq
        cases ps with
        | nil => simp at hq
        | cons q' ps =>
          obtain rfl : q' = q := by simpa using hq
          exact (List.isChain_cons_cons.mp hfollows).1
    rw [List.append_assoc, scanAll_spaces engine hspaces,
      scanAll_piece engine (hps p (by simp)) (fun t ht hw c hc => (hhead t ht c hc).1 hw)
        (fun t ht hh c hc => (hhead t ht c hc).2 hh),
      ih (fun q hq => hps q (by simp [hq])) hfollows.tail]
    rfl

end MessageFilter

end Mclog
