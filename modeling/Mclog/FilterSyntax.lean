import Mclog.MessageFilter

/-!
# Filter expressions as trees

What a filter means, apart from the parser: trees of comparisons, their truth value on a message,
and how they are written with only the parentheses that the precedences of `!`, `&&` and `||`
require.  The written form is a list of pieces, with any blanks around each.
-/

namespace Mclog

namespace MessageFilter

/-! ### Trees -/

/-- The comparisons of ordered values. -/
inductive Comparison where
  | equal
  | notEqual
  | less
  | lessOrEqual
  | greater
  | greaterOrEqual
deriving DecidableEq

/-- The truth value of a comparison, in a linear order. -/
def Comparison.holds {α : Type} [LinearOrder α] : Comparison → α → α → Bool
  | .equal, a, b => a = b
  | .notEqual, a, b => a ≠ b
  | .less, a, b => a < b
  | .lessOrEqual, a, b => a ≤ b
  | .greater, a, b => a > b
  | .greaterOrEqual, a, b => a ≥ b

/-- How severe a severity is: the more severe, the greater. -/
def severeness (severity : Severity) : ℕᵒᵈ := OrderDual.toDual severity.code.toNat

/-- The texts of a message that filters can compare. -/
inductive Subject where
  | host
  | ident
  | msg
deriving DecidableEq

/-- What they can be compared with: a string, which is not empty and has no quote, or a valid
    regular expression, which is not empty and has no slash. -/
inductive Operand (engine : RegexEngine) where
  | string (text : Str) (hne : text ≠ []) (hquote : quote ∉ text)
  | regex (expr : Str) (hne : expr ≠ []) (hslash : slash ∉ expr)
      (hvalid : engine.valid expr = true)

/-- A filter expression. -/
inductive Filter (engine : RegexEngine) where
  | severity (op : Comparison) (value : Severity) (h : value ∈ g_severityNames.map Prod.fst)
  | facility (op : Comparison) (value : Facility) (h : value ∈ g_facilities.map Prod.fst)
  | pid (op : Comparison) (value : UInt32)
  | text (subject : Subject) (equal : Bool) (operand : Operand engine)
  | not (e : Filter engine)
  | and (e f : Filter engine)
  | or (e f : Filter engine)

/-- The text of a message. -/
def Subject.of (msg : Message) : Subject → Str
  | .host => msg.header.origin.hostname.value
  | .ident => msg.header.origin.appname.value
  | .msg => msg.message.value

/-- Whether a text is the operand, or matches it. -/
def Operand.accepts {engine : RegexEngine} (text : Str) : Operand engine → Bool
  | .string s _ _ => text = s
  | .regex expr _ _ _ => engine.regex_match text expr

namespace Filter

variable {engine : RegexEngine}

/-- The truth value of a filter expression on a message. -/
def holds (msg : Message) : Filter engine → Bool
  | severity op value _ => op.holds (severeness msg.header.severity) (severeness value)
  | facility op value _ => op.holds msg.header.facility.code.toNat value.code.toNat
  | pid op value => op.holds msg.header.origin.procid.toNat value.toNat
  | text subject equal operand => operand.accepts (subject.of msg) == equal
  | not e => !e.holds msg
  | and e f => e.holds msg && f.holds msg
  | or e f => e.holds msg || f.holds msg

/-- No string or regular expression in the tree contains a NUL. -/
def NulFree : Filter engine → Prop
  | severity _ _ _ => True
  | facility _ _ _ => True
  | pid _ _ => True
  | text _ _ (.string s _ _) => 0 ∉ s
  | text _ _ (.regex expr _ _ _) => 0 ∉ expr
  | not e => e.NulFree
  | and e f => e.NulFree ∧ f.NulFree
  | or e f => e.NulFree ∧ f.NulFree

end Filter

/-! ### Written filters -/

/-- `SeverityName`. -/
def severityName (severity : Severity) : Str :=
  match g_severityNames.find? fun p => p.1 = severity with
  | some p => p.2
  | none => []

/-- How a token is written. -/
def Token.spelling : Token → Str
  | .AND => str "&&"
  | .EQUAL => str "="
  | .GREATER => str ">"
  | .GREATEROREQ => str ">="
  | .LESS => str "<"
  | .LESSOREQ => str "<="
  | .LPAREN => str "("
  | .NOT => str "!"
  | .NOTEQ => str "!="
  | .OR => str "||"
  | .QUOTE => str "'"
  | .RPAREN => str ")"
  | .SLASH => str "/"
  | .FACILITY => str "facility"
  | .HOST => str "host"
  | .IDENT => str "ident"
  | .PID => str "pid"
  | .MSG => str "msg"
  | .SEVERITY => str "severity"
  | .FACVALUE facility => facilityName facility
  | .SEVVALUE severity => severityName severity
  | .UINT32 val => decimal val.toNat
  | .STRING text => text
  | .REGEX expr => expr
  | .YYerror => []

/-- A piece of a written filter, inside which there are no blanks of its own. -/
inductive Piece where
  | token (t : Token)
  | quoted (text : Str)
  | regex (expr : Str)
deriving DecidableEq

/-- How a piece is written. -/
def Piece.text : Piece → Str
  | .token t => t.spelling
  | .quoted text => quote :: text ++ [quote]
  | .regex expr => slash :: expr ++ [slash]

/-- The tokens of a piece. -/
def Piece.tokens : Piece → List Token
  | .token t => [t]
  | .quoted text => [.QUOTE, .STRING text, .QUOTE]
  | .regex expr => [.SLASH, .REGEX expr, .SLASH]

/-- The operator of a comparison. -/
def Comparison.token : Comparison → Token
  | .equal => .EQUAL
  | .notEqual => .NOTEQ
  | .less => .LESS
  | .lessOrEqual => .LESSOREQ
  | .greater => .GREATER
  | .greaterOrEqual => .GREATEROREQ

/-- The keyword of a subject. -/
def Subject.token : Subject → Token
  | .host => .HOST
  | .ident => .IDENT
  | .msg => .MSG

/-- The piece an operand is written as. -/
def Operand.piece {engine : RegexEngine} : Operand engine → Piece
  | .string text _ _ => .quoted text
  | .regex expr _ _ _ => .regex expr

/-- Parentheses, where they are needed. -/
def parenthesized (needed : Bool) (ps : List Piece) : List Piece :=
  if needed then .token .LPAREN :: ps ++ [.token .RPAREN] else ps

/-- The written form of a filter at a place that takes operators of at least the given level: 1 for
    `||`, 2 for `&&` and 3 for `!`.  The right operand of `||` and `&&` is at a higher level than the
    left one. -/
def Filter.render {engine : RegexEngine} : Filter engine → Nat → List Piece
  | severity op value _, _ => [.token .SEVERITY, .token op.token, .token (.SEVVALUE value)]
  | facility op value _, _ => [.token .FACILITY, .token op.token, .token (.FACVALUE value)]
  | pid op value, _ => [.token .PID, .token op.token, .token (.UINT32 value)]
  | text subject equal operand, _ =>
    [.token subject.token, .token (if equal then .EQUAL else .NOTEQ), operand.piece]
  | not e, level => parenthesized (3 < level) (.token .NOT :: e.render 3)
  | and e f, level =>
    parenthesized (2 < level) (e.render 2 ++ .token .AND :: f.render 3)
  | or e f, level =>
    parenthesized (1 < level) (e.render 1 ++ .token .OR :: f.render 2)

/-- A blank or a newline. -/
def isSpace (c : UInt8) : Bool := isBlank c || c == newline

/-- A text that spells some pieces, with any blanks and newlines around each. -/
inductive Spells : List Piece → Str → Prop where
  | nil {spaces : Str} (h : ∀ c ∈ spaces, isSpace c = true) : Spells [] spaces
  | cons {spaces : Str} {p : Piece} {ps : List Piece} {text : Str}
      (h : ∀ c ∈ spaces, isSpace c = true) (hrest : Spells ps text) :
      Spells (p :: ps) (spaces ++ p.text ++ text)

/-- The written form with one blank before each piece. -/
def Filter.written {engine : RegexEngine} (e : Filter engine) : Str :=
  (e.render 1).flatMap fun p => 32 :: p.text

end MessageFilter

end Mclog
