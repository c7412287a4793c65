import Mclog.Equiv.FilterGrammar

/-!
# Process ids in filters

A literal of up to ten digits can be a number that is too large for the 32 bits of its token.  In
every filter a comparison of the process id can be replaced by another one that is true of the same
message (`parseTokens_replace`), so what a comparison is evaluated as is a matter of the comparison
alone, and it is evaluated over the natural numbers exactly when its number fits into 32 bits, or
wraps to the largest of them and is compared by `<=` or `>` (`evaluatedExactly_iff`).
-/

namespace Mclog

open General

namespace MessageFilter

/-! ### Comparisons with a literal -/

/-- A literal of one to ten digits. -/
structure PidLiteral where
  digits : Str
  isdigit_of_mem : ∀ c ∈ digits, isdigit c = true
  digits_ne_nil : digits ≠ []
  length_le : digits.length ≤ 10

/-- The number that is written. -/
def PidLiteral.value (n : PidLiteral) : Nat :=
  n.digits.foldl (fun num c => 10 * num + (c.toNat - 48)) 0

/-- `0`. -/
def PidLiteral.zero : PidLiteral := ⟨[48], List.all_eq_true.mp rfl, by decide, by decide⟩

/-- `pid op n`. -/
def pidLexemes (op : Comparison) (n : PidLiteral) : List Lexeme :=
  [.fixed .PID (by decide), op.lexeme,
    .unsigned_int n.digits n.isdigit_of_mem n.digits_ne_nil n.length_le]

/-- A truth value as a filter: `pid >= 0` or `pid < 0`. -/
def truthLexemes (b : Bool) : List Lexeme :=
  pidLexemes (if b then .greaterOrEqual else .less) .zero

/-- A literal of ten digits is read in full. -/
theorem stoull_literal (n : PidLiteral) : stoull n.digits = some n.value := by
  have hlength := n.length_le
  obtain ⟨val, hval⟩ := stoull_of_length_le n.isdigit_of_mem n.digits_ne_nil (by omega)
  rw [hval]
  unfold stoull at hval
  dsimp only at hval
  split_ifs at hval
  exact congrArg some (Option.some.inj hval).symm

section

variable {engine : RegexEngine} {msg : Message}

/-- The tokens of a comparison have the number modulo 2^32. -/
theorem tokens_pidLexemes (op : Comparison) (n : PidLiteral) :
    (pidLexemes op n).flatMap (Lexeme.tokens engine) =
      [.PID, op.token, .UINT32 (UInt32.ofNat n.value)] := by
  have htoken : (Lexeme.unsigned_int n.digits n.isdigit_of_mem n.digits_ne_nil
      n.length_le).tokens engine = [.UINT32 (UInt32.ofNat n.value)] := by
    rw [Lexeme.tokens, stoull_literal, Option.getD_some]
  simp only [pidLexemes, List.flatMap_cons, htoken, List.flatMap_nil, List.append_nil]
  rfl

/-- The three tokens of a comparison leave its value on any stack. -/
theorem run_pid (op : Comparison) (value : UInt32) (s : List Symbol) (la : Option Token) :
    ((parser engine msg).run [.PID, op.token, .UINT32 value] s).map
        ((parser engine msg).settle la) =
      some ((parser engine msg).settle la
        (.Expression (op.holds msg.header.origin.procid.toNat value.toNat) ::
          (parser engine msg).settle (some .PID) s)) := by
  have hop : op.token ≠ .YYerror := by cases op <;> decide
  have hstop : ∀ la s, reduce engine msg la (.tok op.token :: s) = none := by
    intro la s
    cases op <;> rfl
  have hfirst : (parser engine msg).run [.PID, op.token, .UINT32 value] s =
      (parser engine msg).run [op.token, .UINT32 value]
        (.tok .PID :: (parser engine msg).settle (some .PID) s) := rfl
  rw [hfirst, run_shift _ hop rfl, run_shift _ (by simp) (hstop _ _)]
  show some ((parser engine msg).settle la _) = _
  -- What is on the stack now is reduced, whatever comes next.
  rw [settle_reduce]
  simp [reduce, pidComparison_token]

variable (engine) in
/-- **A comparison can be replaced** by one that has the same value. -/
theorem parseTokens_replace {op op' : Comparison} {value value' : UInt32}
    (h : op.holds msg.header.origin.procid.toNat value.toNat =
      op'.holds msg.header.origin.procid.toNat value'.toNat) (before behind : List Token) :
    parseTokens engine msg (before ++ [.PID, op.token, .UINT32 value] ++ behind) =
      parseTokens engine msg (before ++ [.PID, op'.token, .UINT32 value'] ++ behind) := by
  have halike : (parser engine msg).Alike [.PID, op.token, .UINT32 value]
      [.PID, op'.token, .UINT32 value'] := by
    intro s la
    rw [run_pid, run_pid, h]
  rw [parseTokens, parseTokens, halike.parse_eq]

end

/-! ### Evaluation -/

section

variable (engine : RegexEngine) (now : Timestamp)

/-- Wherever `pid op n` stands in a filter that can be constructed, the filter says of a message
    what it says with the truth value of the comparison over the natural numbers in its place. -/
def EvaluatedExactly (op : Comparison) (n : PidLiteral) : Prop :=
  ∀ (msg : Message) (before behind : List Lexeme) (text : Str) (drv : Driver),
    Expression (before ++ pidLexemes op n ++ behind) →
    Spelled (before ++ pidLexemes op n ++ behind) text →
    Driver.construct engine now text = some drv →
    ∀ text', Spelled (before ++ truthLexemes (op.holds msg.header.origin.procid.toNat n.value) ++
        behind) text' →
      ∃ drv', Driver.construct engine now text' = some drv' ∧
        (drv.parse engine msg).1 = true ∧ (drv'.parse engine msg).1 = true ∧
        (drv.parse engine msg).2.1 = (drv'.parse engine msg).2.1

/-- A driver that was constructed has scanned its expression. -/
theorem construct_eq_some {text : Str} {drv : Driver}
    (h : Driver.construct engine now text = some drv) :
    drv = ⟨text, (scanner engine).scanAll .INITIAL text, true⟩ := by
  unfold Driver.construct Driver.is_valid Driver.parse at h
  simp only [Bool.false_eq_true, if_false] at h
  cases hparse : parseTokens engine (Message.default now)
      ((scanner engine).scanAll .INITIAL text) with
  | none =>
    rw [hparse] at h
    cases h
  | some v =>
    rw [hparse] at h
    exact (Option.some.inj h).symm

/-- What it says of a message, when that is what its tokens say. -/
theorem parse_of_construct {text : Str} {drv : Driver} {msg : Message} {v : Bool}
    (h : Driver.construct engine now text = some drv)
    (hv : parseTokens engine msg ((scanner engine).scanAll .INITIAL text) = some v) :
    (drv.parse engine msg).1 = true ∧ (drv.parse engine msg).2.1 = v := by
  rw [construct_eq_some engine now h, Driver.parse_of_sentence (Or.inl ⟨rfl, rfl⟩) hv]
  exact ⟨rfl, rfl⟩

/-- A filter can be made of a text exactly when some message has a value for its tokens. -/
theorem construct_of_parseTokens {text : Str} {msg : Message} {v : Bool}
    (hv : parseTokens engine msg ((scanner engine).scanAll .INITIAL text) = some v) :
    ∃ drv, Driver.construct engine now text = some drv := by
  apply Option.isSome_iff_exists.mp
  rw [Driver.construct_isSome_iff_sentence]
  exact sentence_of_parseTokens hv

variable {op : Comparison} {n : PidLiteral}

/-- A comparison by itself is an expression. -/
theorem expression_pidLexemes (op : Comparison) (n : PidLiteral) : Expression (pidLexemes op n) :=
  .pid op n.digits n.isdigit_of_mem n.digits_ne_nil n.length_le

/-- What the tokens of a text say, from the value of the comparison by itself. -/
theorem parseTokens_pidLexemes (msg : Message) (op : Comparison) (n : PidLiteral) {text : Str}
    (htext : Spelled (pidLexemes op n) text) :
    parseTokens engine msg ((scanner engine).scanAll .INITIAL text) =
      some (op.holds msg.header.origin.procid.toNat (n.value % 2 ^ 32)) := by
  rw [(expression_pidLexemes op n).scanAll_eq htext, tokens_pidLexemes,
    parseTokens_of_parses (parses_pid op _ 1), UInt32.toNat_ofNat']

/-- A truth value is one that every message has. -/
theorem parseTokens_truthLexemes (msg : Message) (b : Bool) {text : Str}
    (htext : Spelled (truthLexemes b) text) :
    parseTokens engine msg ((scanner engine).scanAll .INITIAL text) = some b := by
  rw [parseTokens_pidLexemes engine msg _ _ htext]
  cases b
  · simp [Comparison.holds, PidLiteral.zero, PidLiteral.value]
  · simp [Comparison.holds, PidLiteral.zero, PidLiteral.value]

/-- Lexemes can be written, with a blank in front of each. -/
theorem exists_spelled_text (ls : List Lexeme) : ∃ text, Spelled ls text := by
  induction ls with
  | nil => exact ⟨[], .nil (by simp)⟩
  | cons l ls ih =>
    obtain ⟨text, htext⟩ := ih
    have hblank : ∀ c ∈ [(32 : UInt8)], isSpace c = true := by simp [isSpace, isBlank]
    exact ⟨_, .cons hblank htext⟩

/-- **A comparison is evaluated exactly when it has the same value with the number modulo 2^32**, on
    every message. -/
theorem evaluatedExactly_iff_forall :
    EvaluatedExactly engine now op n ↔
      ∀ procid : UInt32,
        op.holds procid.toNat (n.value % 2 ^ 32) = op.holds procid.toNat n.value := by
  constructor
  · -- The filter that is nothing but the comparison.
    intro h procid
    let origin : MessageOrigin := ⟨ShortString.empty 255, ShortString.empty 255, procid⟩
    let msg : Message := ⟨⟨⟨0⟩, .user, .info, origin⟩, ShortString.empty 1500⟩
    obtain ⟨text, htext⟩ := exists_spelled_text (pidLexemes op n)
    obtain ⟨text', htext'⟩ := exists_spelled_text (truthLexemes (op.holds procid.toNat n.value))
    have hv := parseTokens_pidLexemes engine msg op n htext
    have hv' := parseTokens_truthLexemes engine msg _ htext'
    obtain ⟨drv, hdrv⟩ := construct_of_parseTokens engine now hv
    have hsurround : pidLexemes op n = [] ++ pidLexemes op n ++ [] := by simp
    have hexpr : Expression ([] ++ pidLexemes op n ++ []) := by
      rw [← hsurround]
      exact expression_pidLexemes op n
    obtain ⟨drv', hdrv', -, -, heq⟩ := h msg [] [] text drv hexpr (by rwa [← hsurround]) hdrv text'
      (by simpa using htext')
    rw [(parse_of_construct engine now hdrv hv).2,
      (parse_of_construct engine now hdrv' hv').2] at heq
    exact heq
  · intro h msg before behind text drv hexpr htext hdrv text' htext'
    set procid := msg.header.origin.procid
    set b := op.holds procid.toNat n.value
    have hsplit : ∀ op n, (before ++ pidLexemes op n ++ behind).flatMap (Lexeme.tokens engine) =
        before.flatMap (Lexeme.tokens engine) ++
          [.PID, op.token, .UINT32 (UInt32.ofNat n.value)] ++
          behind.flatMap (Lexeme.tokens engine) := by
      intro op n
      rw [List.flatMap_append, List.flatMap_append, tokens_pidLexemes]
    -- The two comparisons have one value on the message, so the two filters have one.
    have hsame : op.holds procid.toNat (UInt32.ofNat n.value).toNat =
        (if b then Comparison.greaterOrEqual else .less).holds procid.toNat
          (UInt32.ofNat PidLiteral.zero.value).toNat := by
      rw [UInt32.toNat_ofNat', h procid]
      show b = _
      cases b <;> simp [Comparison.holds, PidLiteral.zero, PidLiteral.value]
    have hreplace := parseTokens_replace engine hsame
      (before.flatMap (Lexeme.tokens engine)) (behind.flatMap (Lexeme.tokens engine))
    rw [← hsplit, ← hsplit, ← hexpr.scanAll_eq htext] at hreplace
    have hsentence : Sentence ((scanner engine).scanAll .INITIAL text) := by
      rw [← Driver.construct_isSome_iff_sentence engine now, hdrv]
      rfl
    obtain ⟨v, hv⟩ := Option.isSome_iff_exists.mp
      ((parseTokens_isSome_iff engine msg _).mpr hsentence)
    -- The filter with the truth value is one as well.
    have hv' := hreplace.symm.trans hv
    have hexpr' : Expression (before ++ truthLexemes b ++ behind) :=
      ((sentence_of_parseTokens hv').expression rfl).1
    rw [← truthLexemes, ← hexpr'.scanAll_eq htext'] at hv'
    obtain ⟨drv', hdrv'⟩ := construct_of_parseTokens engine now hv'
    obtain ⟨hrc, hresult⟩ := parse_of_construct engine now hdrv hv
    obtain ⟨hrc', hresult'⟩ := parse_of_construct engine now hdrv' hv'
    exact ⟨drv', hdrv', hrc, hrc', hresult.trans hresult'.symm⟩

/-! ### Numbers that do not fit -/

/-- **The numbers of which 32 bits are enough**: those that fit, and for `<=` and `>` also those
    that wrap to the largest one. -/
theorem holds_wrapped_iff (op : Comparison) (k : Nat) :
    (∀ procid : UInt32, op.holds procid.toNat (k % 2 ^ 32) = op.holds procid.toNat k) ↔
      k < 2 ^ 32 ∨ k % 2 ^ 32 = 2 ^ 32 - 1 ∧ (op = .lessOrEqual ∨ op = .greater) := by
  have hlt : k % 2 ^ 32 < 2 ^ 32 := Nat.mod_lt k (by norm_num)
  have hof : (UInt32.ofNat (k % 2 ^ 32)).toNat = k % 2 ^ 32 := by
    rw [UInt32.toNat_ofNat', Nat.mod_mod]
  have hmax : (UInt32.ofNat (2 ^ 32 - 1)).toNat = 2 ^ 32 - 1 := rfl
  have hbound : ∀ procid : UInt32, procid.toNat < 2 ^ 32 := fun procid => procid.toNat_lt
  constructor
  · intro h
    by_contra hno
    obtain ⟨hbig, hwraps⟩ := not_or.mp hno
    -- The process id that the number wraps to, and the largest one, tell the two numbers apart.
    have hk := h (UInt32.ofNat (k % 2 ^ 32))
    have hm := h (UInt32.ofNat (2 ^ 32 - 1))
    rw [hof] at hk
    rw [hmax] at hm
    cases op with
    | equal => simp [Comparison.holds] at hk; omega
    | notEqual => simp [Comparison.holds] at hk; omega
    | less => simp [Comparison.holds] at hk; omega
    | lessOrEqual => simp [Comparison.holds] at hm hwraps; omega
    | greater => simp [Comparison.holds] at hm hwraps; omega
    | greaterOrEqual => simp [Comparison.holds] at hk; omega
  · rintro (hfits | ⟨hwraps, rfl | rfl⟩) procid
    · rw [Nat.mod_eq_of_lt hfits]
    · have hle : procid.toNat ≤ k := by
        have := hbound procid
        have := Nat.mod_le k (2 ^ 32)
        omega
      have hle' : procid.toNat ≤ k % 2 ^ 32 := by
        have := hbound procid
        omega
      simp only [Comparison.holds, hle, hle']
    · have hle : ¬ procid.toNat > k := by
        have := hbound procid
        have := Nat.mod_le k (2 ^ 32)
        omega
      have hle' : ¬ procid.toNat > k % 2 ^ 32 := by
        have := hbound procid
        omega
      simp only [Comparison.holds, hle, hle']

/-- **Process ids are compared with the number that is written**, in every filter and for every
    message, exactly when the number fits into 32 bits, or wraps to the largest number that does and
    is compared by `<=` or `>`. -/
theorem evaluatedExactly_iff (op : Comparison) (n : PidLiteral) :
    EvaluatedExactly engine now op n ↔
      n.value < 2 ^ 32 ∨
        n.value % 2 ^ 32 = 2 ^ 32 - 1 ∧ (op = .lessOrEqual ∨ op = .greater) := by
  rw [evaluatedExactly_iff_forall]
  exact holds_wrapped_iff op n.value

end

/-- A message of the process 1. -/
def initMessage : Message :=
  ⟨⟨⟨0⟩, .user, .info, ⟨ShortString.empty 255, ShortString.empty 255, 1⟩⟩, ShortString.empty 1500⟩

/-- A number that does not fit: the process 1 is taken for one with the number 2^32 + 1. -/
theorem pid_wraps :
    ((Driver.construct Driver.literalEngine ⟨0⟩ (str "pid = 4294967297")).map fun drv =>
        (drv.parse Driver.literalEngine initMessage).2.1) = some true ∧
      Comparison.equal.holds initMessage.header.origin.procid.toNat 4294967297 = false := by
  decide

end MessageFilter

end Mclog
