import Mclog.General.Machine
import Mclog.MessageFilter

/-!
# Reading configuration files

`Config::Parse`: the scanner of `DwmMclogConfigLex.lex`, the parser of `DwmMclogConfigParse.y` with
its actions, and what both leave behind for the next call in the same process.  The address and
regular expression libraries and `getservbyname` are parameters.

Every state of the generated automaton either shifts only or has one rule to reduce, so the parser
is a machine that takes one token at a time and never waits for a lookahead.
-/

namespace Mclog

open General

namespace ConfigFile

/-! ### The scanner -/

/-- The keyword tokens. -/
inductive Keyword where
  | BINARY
  | COMPRESS
  | FACILITY
  | FILES
  | FILTER
  | FILTERS
  | FORMAT
  | GROUP
  | GROUPADDR
  | GROUPADDR6
  | HOST
  | IDENT
  | INTFADDR
  | INTFADDR6
  | INTFNAME
  | KEEP
  | KEYDIRECTORY
  | LISTENV4
  | LISTENV6
  | LOGDIRECTORY
  | LOGS
  | LOOPBACK
  | MINIMUMSEVERITY
  | MULTICAST
  | OUTFILTER
  | PATH
  | PERIOD
  | PERMS
  | PORT
  | SERVICE
  | SIZE
  | TEXT
  | USER
deriving DecidableEq

/-- `g_configKeywords`. -/
def g_configKeywords : List (Str × Keyword) :=
  [(str "binary", .BINARY),
   (str "compress", .COMPRESS),
   (str "facility", .FACILITY),
   (str "files", .FILES),
   (str "filter", .FILTER),
   (str "filters", .FILTERS),
   (str "format", .FORMAT),
   (str "group", .GROUP),
   (str "groupAddr", .GROUPADDR),
   (str "groupAddr6", .GROUPADDR6),
   (str "host", .HOST),
   (str "ident", .IDENT),
   (str "intfAddr", .INTFADDR),
   (str "intfAddr6", .INTFADDR6),
   (str "intfName", .INTFNAME),
   (str "keep", .KEEP),
   (str "keyDirectory", .KEYDIRECTORY),
   (str "listenV4", .LISTENV4),
   (str "listenV6", .LISTENV6),
   (str "logDirectory", .LOGDIRECTORY),
   (str "logs", .LOGS),
   (str "loopback", .LOOPBACK),
   (str "minimumSeverity", .MINIMUMSEVERITY),
   (str "multicast", .MULTICAST),
   (str "outFilter", .OUTFILTER),
   (str "path", .PATH),
   (str "period", .PERIOD),
   (str "perms", .PERMS),
   (str "port", .PORT),
   (str "service", .SERVICE),
   (str "size", .SIZE),
   (str "text", .TEXT),
   (str "user", .USER)]

/-- The tokens.  `outOfRange` stands for a number for which `std::stol` throws in the scanner. -/
inductive Token where
  | keyword (k : Keyword)
  | STRING (text : Str)
  | INTEGER (val : Int32)
  | outOfRange
  | LOGICALOR
  | LOGICALAND
  | NOT
  | equals
  | comma
  | semicolon
  | openBracket
  | closeBracket
  | openBrace
  | closeBrace
deriving DecidableEq

/-- The start conditions. -/
inductive StartCondition where
  | INITIAL
  | x_quoted
deriving DecidableEq

/-- The byte of `"`. -/
def quote : UInt8 := 34

/-- The characters that are tokens by themselves. -/
def punctuation : List (UInt8 × Token) :=
  [(61, .equals), (44, .comma), (59, .semicolon), (91, .openBracket), (93, .closeBracket),
   (123, .openBrace), (125, .closeBrace)]

/-- A blank or a newline. -/
def isBlank (c : UInt8) : Bool := c == 32 || c == 9 || c == 10

/-- A character of a word: no blank, no punctuation, and none of `!`, `|`, `&` and `"`. -/
def isWord (c : UInt8) : Bool :=
  !(isBlank c || punctuation.any (·.1 == c) || c == 33 || c == 124 || c == 38 || c == quote)

/-- `#.*\n`. -/
def comment : Pattern UInt8 where
  longest
    | [] => 0
    | c :: input =>
      let n := (input.takeWhile (· != MessageFilter.newline)).length
      if c = 35 ∧ n < input.length then n + 2 else 0
  longest_le := by
    intro input
    cases input with
    | nil => exact Nat.zero_le _
    | cons c input =>
      simp only [List.length_cons]
      split_ifs with h
      · omega
      · exact Nat.zero_le _

/-- The value of digits in a base. -/
def digitsValue (base : Nat) (digits : Str) : Nat :=
  digits.foldl (fun n c => base * n + (c.toNat - 48)) 0

/-- `std::stol(s, nullptr, 0)`, on digits: after a leading 0 they are octal, up to the first that is
    not.  `none` is `out_of_range`. -/
def stol (s : Str) : Option Nat :=
  let n :=
    if s.head? = some 48 then digitsValue 8 (s.takeWhile fun c => 48 ≤ c && c ≤ 55)
    else digitsValue 10 s
  if n < 2 ^ 63 then some n else none

/-- `IsKeyword`, with the token. -/
def isKeyword (s : Str) : Option Keyword :=
  (g_configKeywords.find? fun p => p.1 = s).map Prod.snd

/-- `IsNumber`. -/
def isNumber (s : Str) : Bool := s ≠ [] && s.all isdigit

/-- The action for a word: a number, a keyword or a string. -/
def wordToken (yytext : Str) : Token :=
  if isNumber yytext then
    match stol yytext with
    | some n => .INTEGER (Int32.ofNat n)
    | none => .outOfRange
  else
    match isKeyword yytext with
    | some k => .keyword k
    | none => .STRING yytext

/-- The action for one of the punctuation characters. -/
def punctuationToken (yytext : Str) : Option Token :=
  (punctuation.find? fun p => yytext.head? = some p.1).map Prod.snd

/-- The rules for `INITIAL`.  The last one is the default rule, which echoes a character. -/
def initialRules : List (Pattern UInt8 × (Str → StartCondition × Option Token)) :=
  [(comment, fun _ => (.INITIAL, none)),
   (.many isWord, fun yytext => (.INITIAL, some (wordToken (cString yytext)))),
   (.literal (str "||"), fun _ => (.INITIAL, some .LOGICALOR)),
   (.literal (str "&&"), fun _ => (.INITIAL, some .LOGICALAND)),
   (.literal (str "!"), fun _ => (.INITIAL, some .NOT)),
   (.literal [quote, quote], fun _ => (.INITIAL, some (.STRING []))),
   (.literal [quote], fun _ => (.x_quoted, none)),
   (.one fun c => punctuation.any (·.1 == c), fun yytext => (.INITIAL, punctuationToken yytext)),
   (.one isBlank, fun _ => (.INITIAL, none)),
   (.one fun _ => true, fun _ => (.INITIAL, none))]

/-- The rules for `x_quoted`. -/
def quotedRules : List (Pattern UInt8 × (Str → StartCondition × Option Token)) :=
  [(.many (· != quote), fun yytext => (.x_quoted, some (.STRING (cString yytext)))),
   (.literal [quote], fun _ => (.INITIAL, none))]

/-- `mclogcfglex`. -/
def scanner : Scanner StartCondition UInt8 Token where
  rules
    | .INITIAL => initialRules
    | .x_quoted => quotedRules

/-! ### Values -/

/-- What the parser uses of the system and of other libraries: the constructors of the addresses
    from strings, the port of `getservbyname` for "udp", and `boost::regex_replace` with an
    expression, a format and a text, where `none` is a `regex_error`. -/
structure Libraries where
  ipv4Address : Str → Ipv4Address
  ipv6Address : Str → Ipv6Address
  getservbyname : Str → Option UInt16
  regex_replace : Str → Str → Str → Option Str

/-- Why a parse ends before the end of the file: a syntax error or an action that returns 1, or an
    exception. -/
inductive Stop where
  | failed
  | thrown
deriving DecidableEq

/-- The values of settings. -/
inductive Value where
  | string (text : Str)
  | integer (val : Int32)
  | port (port : UInt16)
  | format (format : FileFormat)
deriving DecidableEq

/-- `IsValidIpv4MulticastAddr`: in 224.0.0.0/4. -/
def isValidIpv4MulticastAddr (addr : Ipv4Address) : Bool :=
  addr ≠ 0 && addr &&& 0xf0000000 = 0xe0000000

/-- `IsValidIpv6MulticastAddr`: in ff00::/8. -/
def isValidIpv6MulticastAddr (addr : Ipv6Address) : Bool :=
  addr ≠ 0 && addr >>> 120 = 0xff

/-- `RetainEscapes`: every backslash is doubled. -/
def retainEscapes (value : Str) : Str := value.flatMap fun c => if c = 92 then [c, c] else [c]

/-- `ExpandFilterExpr`. -/
def expandFilterExpr (libs : Libraries) (vars : List (Str × Str)) (value : Str) : Option Str :=
  vars.foldlM (fun rc var => libs.regex_replace (92 :: 36 :: var.1) (retainEscapes var.2) rc) value

/-- `map::insert`: a name that is there keeps its value. -/
def insertFilter (name value : Str) : List (Str × Str) → List (Str × Str)
  | [] => [(name, value)]
  | var :: vars =>
    if name = var.1 then var :: vars
    else if name < var.1 then (name, value) :: var :: vars
    else var :: insertFilter name value vars

/-- The multipliers of `LogSize`. -/
def multipliers : List (UInt8 × Nat) :=
  [(107, 1000), (75, 1024), (109, 1000000), (77, 1048576), (103, 1000000000), (71, 1073741824)]

/-- `LogSize`: digits and then letters of which the first one counts, else 0; a number that is too
    large is 0 as well, and the product wraps. -/
def logSize (s : Str) : Int :=
  let digits := s.takeWhile isdigit
  let letters := s.dropWhile isdigit
  if digits ≠ [] ∧ letters.all fun c => multipliers.any (·.1 == c) then
    let val := (stoull digits).getD 0
    let multiplier := (multipliers.find? fun m => letters.head? = some m.1).elim 1 Prod.snd
    Int.bmod (val * multiplier) (2 ^ 64)
  else
    0

/-- `GetRollPeriod`. -/
def getRollPeriod (s : Str) : RollPeriod :=
  let rollPeriods : List (Str × RollPeriod) :=
    [(str "5m", .minutes_5), (str "15m", .minutes_15), (str "30m", .minutes_30),
     (str "60m", .hours_1), (str "1h", .hours_1), (str "2h", .hours_2), (str "4h", .hours_4),
     (str "6h", .hours_6), (str "8h", .hours_8), (str "12h", .hours_12), (str "24h", .days_1),
     (str "1d", .days_1), (str "7d", .days_7)]
  match rollPeriods.find? fun p => p.1 = s with
  | some p => p.2
  | none => .days_1

/-! ### Settings -/

section

variable (libs : Libraries)

/-- The value of a setting, from the token after its `=`. -/
def valueOf : Keyword → Token → Except Stop Value
  -- `UDP4Port`
  | .PORT, .INTEGER n =>
    if 0 < n ∧ n < 65536 then pure (.port n.toUInt32.toUInt16) else throw .failed
  | .PORT, .STRING name =>
    match libs.getservbyname name with
    | some port => pure (.port port)
    | none => throw .failed
  | .PERMS, .INTEGER n => pure (.integer n)
  | .KEEP, .INTEGER n => pure (.integer n)
  | .FORMAT, .keyword .TEXT => pure (.format .text)
  | .FORMAT, .keyword .BINARY => pure (.format .binary)
  | .PERMS, _ => throw .failed
  | .KEEP, _ => throw .failed
  | .FORMAT, _ => throw .failed
  | _, .STRING text => pure (.string text)
  | _, _ => throw .failed

/-- `ServiceSettings`. -/
def setService (cfg : ServiceConfig) : Keyword → Value → Except Stop ServiceConfig
  | .KEYDIRECTORY, .string dir => pure { cfg with keyDirectory := dir }
  | _, _ => throw .failed

/-- `LoopbackSettings`. -/
def setLoopback (cfg : LoopbackConfig) : Keyword → Value → Except Stop LoopbackConfig
  | .LISTENV4, .string s => pure { cfg with listenIpv4 := s ≠ str "false" }
  | .LISTENV6, .string s => pure { cfg with listenIpv6 := s = str "true" }
  | .PORT, .port port => pure { cfg with port := port }
  | _, _ => throw .failed

/-- A filter expression in which `filters` are expanded. -/
def expanded (filters : List (Str × Str)) (expr : Str) : Except Stop Str :=
  match expandFilterExpr libs filters expr with
  | some expr => pure expr
  | none => throw .thrown

/-- `MulticastSettings`.  An interface address that this host does not have is only warned of. -/
def setMulticast (filters : List (Str × Str)) (cfg : MulticastConfig) :
    Keyword → Value → Except Stop MulticastConfig
  | .GROUPADDR, .string s =>
    if isValidIpv4MulticastAddr (libs.ipv4Address s) then
      pure { cfg with groupAddr := libs.ipv4Address s }
    else
      throw .failed
  | .GROUPADDR6, .string s =>
    if isValidIpv6MulticastAddr (libs.ipv6Address s) then
      pure { cfg with groupAddr6 := libs.ipv6Address s }
    else
      throw .failed
  | .INTFADDR, .string s => pure { cfg with intfAddr := libs.ipv4Address s }
  | .INTFADDR6, .string s =>
    if libs.ipv6Address s = 0 then throw .failed
    else pure { cfg with intfAddr6 := libs.ipv6Address s }
  | .INTFNAME, .string s => pure { cfg with intfName := s }
  | .PORT, .port port => pure { cfg with dstPort := port }
  | .OUTFILTER, .string expr => do
    let expr ← expanded libs filters expr
    pure { cfg with outFilter := expr }
  | _, _ => throw .failed

/-- `LogSettings`. -/
def setLog (filters : List (Str × Str)) (cfg : LogFileConfig) :
    Keyword → Value → Except Stop LogFileConfig
  | .FILTER, .string expr => do
    let expr ← expanded libs filters expr
    pure { cfg with filter := expr }
  | .PATH, .string s => pure { cfg with pathPattern := s }
  | .PERMS, .integer n =>
    pure { cfg with permissions := if n &&& 0o7133 = 0 then n.toUInt32 else 0o644 }
  | .PERIOD, .string s => pure { cfg with period := getRollPeriod s }
  | .SIZE, .string s => pure { cfg with size := logSize s }
  | .KEEP, .integer n => pure { cfg with keep := if 0 ≤ n then n.toUInt32 else 7 }
  | .USER, .string s => pure { cfg with user := s }
  | .GROUP, .string s => pure { cfg with group := s }
  | .COMPRESS, .string s => pure { cfg with compress := s }
  | .FORMAT, .format format => pure { cfg with format := format }
  | _, _ => throw .failed

/-- `FilesSettings`, for the setting that is not `Logs`. -/
def setFiles (cfg : FilesConfig) : Keyword → Value → Except Stop FilesConfig
  | .LOGDIRECTORY, .string dir => pure { cfg with logDirectory := dir }
  | _, _ => throw .failed

/-! ### The parser -/

/-- The settings between braces that have been read so far, `none` before the first one; an entry of
    `logs` comes with the settings and the entries before it. -/
inductive Settings where
  | service (cfg : Option ServiceConfig)
  | loopback (cfg : Option LoopbackConfig)
  | multicast (cfg : Option MulticastConfig)
  | files (cfg : Option FilesConfig)
  | log (files : Option FilesConfig) (logs : List LogFileConfig) (cfg : Option LogFileConfig)

/-- A stanza up to its closing brace. -/
inductive TopStanza where
  | service (cfg : ServiceConfig)
  | loopback (cfg : LoopbackConfig)
  | multicast (cfg : MulticastConfig)
  | files (cfg : FilesConfig)
  | filters (filters : List (Str × Str))

/-- The states of the parser, named by what has just been read. -/
inductive State where
  | config (stanzas : Bool)
  | stanzaName (settings : Settings)
  | settings (settings : Settings)
  | settingName (settings : Settings) (k : Keyword)
  | settingEquals (settings : Settings) (k : Keyword)
  | settingValue (settings : Settings) (k : Keyword) (v : Value)
  | logsName (files : Option FilesConfig)
  | logsOpen (files : Option FilesConfig) (logs : List LogFileConfig)
  | logList (files : Option FilesConfig) (logs : List LogFileConfig)
  | logsClosed (files : Option FilesConfig) (logs : List LogFileConfig)
  | filtersName
  | filterList (filters : Option (List (Str × Str)))
  | filterName (filters : Option (List (Str × Str))) (name : Str)
  | filterEquals (filters : Option (List (Str × Str))) (name : Str)
  | filterValue (filters : Option (List (Str × Str))) (name value : Str)
  | closed (stanza : TopStanza)

/-- The settings a keyword can start in the braces. -/
def Settings.allows : Settings → Keyword → Bool
  | .service none, k => k ∈ [Keyword.KEYDIRECTORY]
  | .service (some _), _ => false
  | .loopback _, k => k ∈ [Keyword.LISTENV4, .LISTENV6, .PORT]
  | .multicast _, k => k ∈ [Keyword.GROUPADDR, .GROUPADDR6, .INTFADDR, .INTFADDR6, .INTFNAME, .PORT,
      .OUTFILTER]
  | .files _, k => k ∈ [Keyword.LOGDIRECTORY]
  | .log _ _ _, k => k ∈ [Keyword.FILTER, .PATH, .PERMS, .PERIOD, .SIZE, .KEEP, .USER, .GROUP,
      .COMPRESS, .FORMAT]

/-- The action of a setting. -/
def Settings.set (filters : List (Str × Str)) (k : Keyword) (v : Value) :
    Settings → Except Stop Settings
  | .service cfg => do
    let cfg ← setService (cfg.getD {}) k v
    pure (.service (some cfg))
  | .loopback cfg => do
    let cfg ← setLoopback (cfg.getD {}) k v
    pure (.loopback (some cfg))
  | .multicast cfg => do
    let cfg ← setMulticast libs filters (cfg.getD {}) k v
    pure (.multicast (some cfg))
  | .files cfg => do
    let cfg ← setFiles (cfg.getD {}) k v
    pure (.files (some cfg))
  | .log outer logs cfg => do
    let cfg ← setLog libs filters (cfg.getD {}) k v
    pure (.log outer logs (some cfg))

/-- The state after the closing brace of settings, of which there has to be one. -/
def Settings.close : Settings → Except Stop State
  | .service (some cfg) => pure (.closed (.service cfg))
  | .loopback (some cfg) => pure (.closed (.loopback cfg))
  | .multicast (some cfg) => pure (.closed (.multicast cfg))
  | .files (some cfg) => pure (.closed (.files cfg))
  | .log outer logs (some cfg) => pure (.logList outer (logs ++ [cfg]))
  | _ => throw .failed

/-- The settings a stanza starts with. -/
def stanzaStart : Keyword → Except Stop State
  | .SERVICE => pure (.stanzaName (.service none))
  | .LOOPBACK => pure (.stanzaName (.loopback none))
  | .MULTICAST => pure (.stanzaName (.multicast none))
  | .FILES => pure (.stanzaName (.files none))
  | .FILTERS => pure .filtersName
  | _ => throw .failed

/-- One token, with the filters of the `Config` being parsed: the next state, and the stanza that the
    token completes. -/
def next (filters : List (Str × Str)) : State → Token → Except Stop (State × Option TopStanza)
  -- The exception comes out of the scanner, wherever the parser is.
  | _, .outOfRange => throw .thrown
  -- `TopStanza`, and the settings of the four stanzas that have some.
  | .config _, .keyword k => do
    let st ← stanzaStart k
    pure (st, none)
  | .stanzaName s, .openBrace => pure (.settings s, none)
  | .settings s, .keyword k =>
    match s, k with
    | .files files, .LOGS => pure (.logsName files, none)
    | s, k => if s.allows k then pure (.settingName s k, none) else throw .failed
  | .settings s, .closeBrace => do
    let st ← s.close
    pure (st, none)
  -- A setting: its value is checked with the token, its action runs at the semicolon.
  | .settingName s k, .equals => pure (.settingEquals s k, none)
  | .settingEquals s k, t => do
    let v ← valueOf libs k t
    pure (.settingValue s k v, none)
  | .settingValue s k v, .semicolon => do
    let s ← Settings.set libs filters k v s
    pure (.settings s, none)
  -- `Logs` and `LogList`.
  | .logsName files, .openBrace => pure (.logsOpen files [], none)
  | .logsOpen files logs, .openBrace => pure (.settings (.log files logs none), none)
  | .logList files logs, .comma => pure (.logsOpen files logs, none)
  | .logList files logs, .closeBrace => pure (.logsClosed files logs, none)
  | .logsClosed files logs, .semicolon =>
    pure (.settings (.files (some { files.getD {} with logs := logs })), none)
  -- `Filters` and `FilterList`, which expands the filters before it in the same list.
  | .filtersName, .openBrace => pure (.filterList none, none)
  | .filterList vars, .STRING name => pure (.filterName vars name, none)
  | .filterList (some vars), .closeBrace => pure (.closed (.filters vars), none)
  | .filterName vars name, .equals => pure (.filterEquals vars name, none)
  | .filterEquals vars name, .STRING value => pure (.filterValue vars name value, none)
  | .filterValue vars name value, .semicolon => do
    let value ← expanded libs (vars.getD []) value
    pure (.filterList (some (insertFilter name value (vars.getD []))), none)
  | .closed stanza, .semicolon => pure (.config true, some stanza)
  -- Everything else is a syntax error.
  | _, _ => throw .failed

/-- A stanza is stored in the `Config`. -/
def TopStanza.store (cfg : Config) : TopStanza → Config
  | .service s => { cfg with service := s }
  | .loopback s => { cfg with loopback := s }
  | .multicast s => { cfg with mcast := s }
  | .files s => { cfg with files := s }
  | .filters vars => { cfg with filters := vars }

/-- One token for the parser of a `Config`; an error leaves the `Config` as it is by then. -/
def consume (p : Config × State) (t : Token) : Except (Stop × Config) (Config × State) :=
  match next libs p.1.filters p.2 t with
  | .ok (st, none) => .ok (p.1, st)
  | .ok (st, some stanza) => .ok (stanza.store p.1, st)
  | .error stop => .error (stop, p.1)

end

end ConfigFile

/-! ### Parse -/

/-- What the scanner keeps between calls: its start condition, what it has read into its buffer and
    not scanned, and whether it has met the end of a file behind that. -/
structure ScannerState where
  cond : ConfigFile.StartCondition := .INITIAL
  unread : Str := []
  eofPending : Bool := false
deriving DecidableEq

/-- A call of `Parse`: the contents of the file if it can be opened, and, for a parse that ends before
    the end of the file, how many of its bytes the scanner has read into its buffer by then and
    whether it has met the end. -/
structure ParseCall where
  contents : Option Str
  bytesRead : Nat := 0
  eofMet : Bool := false

namespace Config

open ConfigFile

/-- `Init`. -/
def init (cfg : Config) : Config :=
  { cfg with loopback := {}, mcast := {}, service := {}, files := {} }

/-- `Parse`: its result, where `none` is an exception, the `Config` and the state of the scanner.
    Behind what the scanner still has in its buffer comes the file, unless the scanner has met the
    end of an earlier file there.  At the end of the input it flushes its buffer, but stays in its
    start condition. -/
def parse (libs : Libraries) (sc : ScannerState) (cfg : Config) (call : ParseCall) :
    (Option Bool × Config) × ScannerState :=
  match call.contents with
  | none => ((some false, cfg.init), sc)
  | some contents =>
    let input := if sc.eofPending then sc.unread else sc.unread ++ contents
    let unreadOf (rest : Str) : Str :=
      if sc.eofPending then rest else rest.take (rest.length - (contents.length - call.bytesRead))
    let eofPending := sc.eofPending || call.eofMet && contents.length ≤ call.bytesRead
    match scanner.feed (consume libs) sc.cond input (cfg.init, .config false) with
    -- The end of the input: the grammar wants at least one stanza and no half of one.
    | (.ok (cfg, .config stanzas), cond, _) =>
      ((some stanzas, cfg), { cond })
    | (.ok (cfg, _), cond, _) => ((some false, cfg), { cond })
    -- The scanner is left where the parser stopped.
    | (.error (.failed, cfg), cond, rest) =>
      ((some false, cfg), { cond, unread := unreadOf rest, eofPending })
    | (.error (.thrown, cfg), cond, rest) =>
      ((none, cfg), { cond, unread := unreadOf rest, eofPending })

/-- Calls of `Parse` for one `Config` in one process, each with its result and what it leaves in the
    `Config`. -/
def parses (libs : Libraries) : Machine (ScannerState × Config) ParseCall (Option Bool × Config) :=
  fun s call =>
    let called := parse libs s.1 s.2 call
    some ((called.2, called.1.2), [called.1])

end Config

end Mclog
