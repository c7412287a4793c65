import Mclog.General.Scanner
import Mclog.General.ShiftReduce
import Mclog.LogFiles

/-!
# Message filters

`MessageFilterDriver`: a filter expression is scanned once into tokens, and the tokens are parsed
again for each message, the parser computing the value of the expression.  Boost's regular
expressions are a parameter.

The parser keeps the symbols on its stack in place of the states of the generated automaton.  The
two differ in when they notice that an input is no sentence: here it is at the end of the input, when
the stack is not that of a `Result`.
-/

namespace Mclog

open General

/-- `g_severityNames`. -/
def g_severityNames : List (Severity × Str) :=
  [(.emerg, str "emerg"), (.alert, str "alert"), (.crit, str "crit"), (.err, str "err"),
   (.warning, str "warning"), (.notice, str "notice"), (.info, str "info"), (.debug, str "debug")]

/-- `SeverityValue`: the severity in the table, else `emerg`. -/
def severityValue (name : Str) : Severity :=
  match g_severityNames.find? fun p => p.2 = name with
  | some p => p.1
  | none => .emerg

/-- `FacilityValue`: the facility in the table, else `local7`. -/
def facilityValue (facilityName : Str) : Facility :=
  match g_facilities.find? fun p => p.2 = facilityName with
  | some p => p.1
  | none => .local7

/-- `Message()` at the time `now`. -/
def Message.default (now : Timestamp) : Message :=
  ⟨⟨now, ⟨0⟩, ⟨0⟩, ⟨ShortString.empty 255, ShortString.empty 255, 0⟩⟩, ShortString.empty 1500⟩

/-- The `std::string` made of a `const char *`: the bytes before the first NUL. -/
def cString (s : Str) : Str := s.takeWhile (· ≠ 0)

/-- `boost::regex`: whether one can be made of an expression, and `regex_match` of a text with
    it. -/
structure RegexEngine where
  valid : Str → Bool
  regex_match : Str → Str → Bool

namespace MessageFilter

/-! ### The scanner -/

/-- The tokens the scanner makes. -/
inductive Token where
  | AND
  | EQUAL
  | GREATER
  | GREATEROREQ
  | LESS
  | LESSOREQ
  | LPAREN
  | NOT
  | NOTEQ
  | OR
  | QUOTE
  | RPAREN
  | SLASH
  | FACILITY
  | HOST
  | IDENT
  | PID
  | MSG
  | SEVERITY
  | FACVALUE (facility : Facility)
  | SEVVALUE (severity : Severity)
  | UINT32 (val : UInt32)
  | STRING (text : Str)
  | REGEX (expr : Str)
  | YYerror
deriving DecidableEq

/-- The start conditions. -/
inductive StartCondition where
  | INITIAL
  | x_quoted
  | x_regex
deriving DecidableEq

/-- The byte of `'`. -/
def quote : UInt8 := 39

/-- A blank other than a newline. -/
def isBlank (c : UInt8) : Bool := c == 32 || c == 9 || c == 13

/-- The byte of a newline. -/
def newline : UInt8 := 10

/-- `m_sevval`. -/
def m_sevval : List Str := g_severityNames.map Prod.snd

/-- `m_facval`. -/
def m_facval : List Str := g_facilities.map Prod.snd

/-- The rule for a fixed text, which makes a token and changes to a start condition. -/
def fixed (text : String) (next : StartCondition) (tok : Token) :
    Pattern UInt8 × (Str → StartCondition × Option Token) :=
  (.literal (str text), fun _ => (next, some tok))

/-- The rules of `DwmMclogMessageFilterLex.lex` for `INITIAL`, in its order. -/
def initialRules : List (Pattern UInt8 × (Str → StartCondition × Option Token)) :=
  [fixed "severity" .INITIAL .SEVERITY,
   fixed "facility" .INITIAL .FACILITY,
   fixed "host" .INITIAL .HOST,
   fixed "ident" .INITIAL .IDENT,
   fixed "msg" .INITIAL .MSG,
   (.oneOf m_sevval, fun yytext => (.INITIAL, some (.SEVVALUE (severityValue yytext)))),
   (.oneOf m_facval, fun yytext => (.INITIAL, some (.FACVALUE (facilityValue yytext)))),
   (.upTo 10 isdigit, fun yytext =>
     match stoull yytext with
     | some val => (.INITIAL, some (.UINT32 (UInt32.ofNat val)))
     | none => (.INITIAL, some .YYerror)),
   fixed "pid" .INITIAL .PID,
   fixed "<=" .INITIAL .LESSOREQ,
   fixed ">=" .INITIAL .GREATEROREQ,
   fixed "!=" .INITIAL .NOTEQ,
   fixed "||" .INITIAL .OR,
   fixed "&&" .INITIAL .AND,
   fixed "!" .INITIAL .NOT,
   fixed "(" .INITIAL .LPAREN,
   fixed ")" .INITIAL .RPAREN,
   fixed "<" .INITIAL .LESS,
   fixed ">" .INITIAL .GREATER,
   fixed "=" .INITIAL .EQUAL,
   fixed "'" .x_quoted .QUOTE,
   fixed "/" .x_regex .SLASH,
   (.many isBlank, fun _ => (.INITIAL, none)),
   (.many (· == newline), fun _ => (.INITIAL, none)),
   (.one (· != newline), fun _ => (.INITIAL, some .YYerror))]

/-- The rules for `x_quoted`. -/
def quotedRules : List (Pattern UInt8 × (Str → StartCondition × Option Token)) :=
  [(.many (· != quote), fun yytext => (.x_quoted, some (.STRING (cString yytext)))),
   fixed "'" .INITIAL .QUOTE]

/-- The rules for `x_regex`. -/
def regexRules (engine : RegexEngine) :
    List (Pattern UInt8 × (Str → StartCondition × Option Token)) :=
  [(.many (· != slash), fun yytext =>
     (.x_regex, some (if engine.valid (cString yytext) then .REGEX (cString yytext)
       else .YYerror))),
   fixed "/" .INITIAL .SLASH]

/-- `MessageFilterScanner`. -/
def scanner (engine : RegexEngine) : Scanner StartCondition UInt8 Token where
  rules
    | .INITIAL => initialRules
    | .x_quoted => quotedRules
    | .x_regex => regexRules engine

/-! ### The parser -/

/-- The symbols on the parser's stack: tokens, and nonterminals with their values. -/
inductive Symbol where
  | tok (t : Token)
  | Expression (value : Bool)
  | QuotedString (text : Str)
  | Regex (expr : Str)
deriving DecidableEq

/-- The precedences, from the `%left` lines. -/
def precedence : Token → Nat
  | .OR => 1
  | .AND => 2
  | .EQUAL | .NOTEQ => 3
  | .LESS | .GREATER | .LESSOREQ | .GREATEROREQ => 4
  | .NOT => 5
  | .LPAREN | .RPAREN => 6
  | _ => 0

/-- Whether a token after an `Expression` is shifted rather than the rule reduced whose last
    terminal is `rule`.  Only `OR` and `AND` can be shifted there; all lines are `%left`, so a token
    of the rule's own precedence is not. -/
def shifts (rule : Token) : Option Token → Bool
  | some .OR => precedence rule < precedence .OR
  | some .AND => precedence rule < precedence .AND
  | _ => false

/-- The actions of the rules `SEVERITY op SEVVALUE`.  The more severe has the smaller number. -/
def severityComparison (severity value : Severity) : Token → Option Bool
  | .EQUAL => some (severity = value)
  | .NOTEQ => some (severity ≠ value)
  | .LESS => some (severity.code > value.code)
  | .LESSOREQ => some (severity.code ≥ value.code)
  | .GREATER => some (severity.code < value.code)
  | .GREATEROREQ => some (severity.code ≤ value.code)
  | _ => none

/-- The actions of the rules `FACILITY op FACVALUE`. -/
def facilityComparison (facility value : Facility) : Token → Option Bool
  | .EQUAL => some (facility = value)
  | .NOTEQ => some (facility ≠ value)
  | .LESS => some (facility.code < value.code)
  | .LESSOREQ => some (facility.code ≤ value.code)
  | .GREATER => some (facility.code > value.code)
  | .GREATEROREQ => some (facility.code ≥ value.code)
  | _ => none

/-- The actions of the rules `PID op UINT32`. -/
def pidComparison (pid value : UInt32) : Token → Option Bool
  | .EQUAL => some (pid = value)
  | .NOTEQ => some (pid ≠ value)
  | .LESS => some (pid < value)
  | .LESSOREQ => some (pid ≤ value)
  | .GREATER => some (pid > value)
  | .GREATEROREQ => some (pid ≥ value)
  | _ => none

/-- What the rules for `HOST`, `IDENT` and `MSG` compare. -/
def textOf (msg : Message) : Token → Option Str
  | .HOST => some msg.header.origin.hostname.value
  | .IDENT => some msg.header.origin.appname.value
  | .MSG => some msg.message.value
  | _ => none

/-- The actions of the rules with a `QuotedString`. -/
def stringComparison (text value : Str) : Token → Option Bool
  | .EQUAL => some (text = value)
  | .NOTEQ => some (text ≠ value)
  | _ => none

/-- The actions of the rules with a `Regex`. -/
def regexComparison (engine : RegexEngine) (text expr : Str) : Token → Option Bool
  | .EQUAL => some (engine.regex_match text expr)
  | .NOTEQ => some (!engine.regex_match text expr)
  | _ => none

section

variable (engine : RegexEngine) (msg : Message)

/-- The rules of the grammar: the reduction of what is on top of the stack. -/
def reduce (la : Option Token) : List Symbol → Option (List Symbol)
  | .tok (.SEVVALUE value) :: .tok op :: .tok .SEVERITY :: s =>
    (severityComparison msg.header.severity value op).map fun v => .Expression v :: s
  | .tok (.FACVALUE value) :: .tok op :: .tok .FACILITY :: s =>
    (facilityComparison msg.header.facility value op).map fun v => .Expression v :: s
  | .tok (.UINT32 value) :: .tok op :: .tok .PID :: s =>
    (pidComparison msg.header.origin.procid value op).map fun v => .Expression v :: s
  | .QuotedString value :: .tok op :: .tok subject :: s =>
    (textOf msg subject).bind fun text =>
      (stringComparison text value op).map fun v => .Expression v :: s
  | .Regex expr :: .tok op :: .tok subject :: s =>
    (textOf msg subject).bind fun text =>
      (regexComparison engine text expr op).map fun v => .Expression v :: s
  | .Expression v :: .tok .NOT :: s =>
    if shifts .NOT la then none else some (.Expression (!v) :: s)
  | .Expression w :: .tok .OR :: .Expression v :: s =>
    if shifts .OR la then none else some (.Expression (v || w) :: s)
  | .Expression w :: .tok .AND :: .Expression v :: s =>
    if shifts .AND la then none else some (.Expression (v && w) :: s)
  | .tok .RPAREN :: .Expression v :: .tok .LPAREN :: s => some (.Expression v :: s)
  | .tok .QUOTE :: .tok (.STRING text) :: .tok .QUOTE :: s => some (.QuotedString text :: s)
  | .tok .SLASH :: .tok (.REGEX expr) :: .tok .SLASH :: s => some (.Regex expr :: s)
  | _ => none

/-- A token is shifted, except for the error token: the parser then only recovers to
    `Result: YYerror`, whose action is `return 1`. -/
def shift (t : Token) (s : List Symbol) : Option (List Symbol) :=
  if t = .YYerror then none else some (.tok t :: s)

theorem reduce_lt (la : Option Token) (s s' : List Symbol) (h : reduce engine msg la s = some s') :
    s'.length < s.length := by
  unfold reduce at h
  split at h <;> simp only [Option.map_eq_some_iff, Option.bind_eq_some_iff,
    Option.ite_none_left_eq_some, Option.some.injEq, reduceCtorEq] at h
  all_goals grind

/-- `MessageFilterParser` for a message. -/
def parser : ShiftReduce Token Symbol where
  reduce := reduce engine msg
  shift := shift
  reduce_lt := reduce_lt engine msg

/-- The value of a `Result` made of a list of tokens; `none` when they are no sentence. -/
def parseTokens (tokens : List Token) : Option Bool :=
  match (parser engine msg).parse tokens with
  | some [.Expression v] => some v
  | _ => none

end

/-! ### The driver -/

/-- `MessageFilterDriver`. -/
structure Driver where
  expr : Str
  tokens : List Token
  tokenized : Bool
deriving DecidableEq

namespace Driver

variable (engine : RegexEngine)

/-- `parse`: what it returns, `result`, and the driver after it. -/
def parse (drv : Driver) (msg : Message) : Bool × Bool × Driver :=
  let drv :=
    if drv.tokenized then drv
    else { drv with tokens := (scanner engine).scanAll .INITIAL drv.expr, tokenized := true }
  match parseTokens engine msg drv.tokens with
  | some result => (true, result, drv)
  | none => (false, false, drv)

/-- `is_valid`, at the time `now`. -/
def is_valid (now : Timestamp) (drv : Driver) : Bool × Driver :=
  let (rc, _, drv) := drv.parse engine (Message.default now)
  (rc, drv)

/-- The constructor: `none` is the exception `std::invalid_argument`. -/
def construct (now : Timestamp) (expr : Str) : Option Driver :=
  match is_valid engine now ⟨expr, [], false⟩ with
  | (true, drv) => some drv
  | (false, _) => none

/-- What `parse` returns and the results, for one message after another. -/
def parseAll : Driver → List Message → List (Bool × Bool)
  | _, [] => []
  | drv, msg :: msgs =>
    let (rc, result, drv) := drv.parse engine msg
    (rc, result) :: parseAll drv msgs

end Driver

/-- The filter drivers as `LogFiles` uses them. -/
def messageFilterDriver (engine : RegexEngine) (now : Timestamp) : MessageFilterDriver where
  valid expr := (Driver.construct engine now expr).isSome
  accepts expr msg :=
    match Driver.construct engine now expr with
    | some drv =>
      let (parserc, accepted, _) := drv.parse engine msg
      parserc && accepted
    | none => false

end MessageFilter

end Mclog
