import Mclog.LogPath

/-!
# Boost's `regex_replace`, as `LogPath` calls it

`regex_replace` with the expression `(%H)|(%I)|(%F)` and `format_all`: the text is scanned from the
left, and each match is replaced by the format string, read for the sub-expression that took part
in it.  In a format string `(?N text)` is a conditional.  Its number is read as up to two digits,
and its text, up to a `':'`, is emitted if the sub-expression took part and left out if it did not;
the text behind a `':'` is the other way round.  The format strings of `LogPath` have no `'\'` and
no `'$'`, so that escapes and references do not occur here, and no group inside a conditional.
-/

namespace Mclog

/-- The position in a format string. -/
inductive FormatState
  | outside
  /-- Behind `'('`. -/
  | opened
  /-- Behind `"(?"` and some digits, with the number they make. -/
  | number (digits n : Nat)
  /-- In the first text of a conditional. -/
  | text (emit : Bool)
  /-- Behind the `':'` of a conditional, or in a group. -/
  | scope (emit : Bool)
deriving DecidableEq

/-- A character of the first text of a conditional. -/
def textStep (emit : Bool) (c : UInt8) : FormatState × Str :=
  if c = 41 then (.outside, [])
  else if c = 58 then (.scope (!emit), [])
  else (.text emit, if emit then [c] else [])

/-- A character of the rest of a group. -/
def scopeStep (emit : Bool) (c : UInt8) : FormatState × Str :=
  if c = 41 then (.outside, []) else (.scope emit, if emit then [c] else [])

/-- One character of a format string: the next position, and what is emitted.  `took` tells the
    sub-expressions that took part in the match. -/
def formatStep (took : Nat → Bool) : FormatState → UInt8 → FormatState × Str
  | .outside, c => if c = 40 then (.opened, []) else (.outside, [c])
  | .opened, c => if c = 63 then (.number 0 0, []) else scopeStep true c
  | .number digits n, c =>
    if isdigit c ∧ digits < 2 then (.number (digits + 1) (10 * n + (c.toNat - 48)), [])
    else if digits = 0 then ((scopeStep true c).1, 63 :: (scopeStep true c).2)
    else textStep (took n) c
  | .text emit, c => textStep emit c
  | .scope emit, c => scopeStep emit c

/-- What a format string makes of a match, from a position in it. -/
def formatAll (took : Nat → Bool) : FormatState → Str → Str
  | _, [] => []
  | q, c :: rest =>
    let (q', out) := formatStep took q c
    out ++ formatAll took q' rest

/-- The sub-expression of `(%H)|(%I)|(%F)` that two characters match. -/
def subExpression (c d : UInt8) : Option Nat :=
  if c = percent ∧ d = 72 then some 1
  else if c = percent ∧ d = 73 then some 2
  else if c = percent ∧ d = 70 then some 3
  else none

/-- `regex_replace`: sub-expression 0 is the match and always takes part. -/
def boostRegexReplace : Str → Str → Str
  | [], _ => []
  | [c], _ => [c]
  | c :: d :: rest, replacement =>
    match subExpression c d with
    | some n => formatAll (fun k => k = 0 ∨ k = n) .outside replacement ++
        boostRegexReplace rest replacement
    | none => c :: boostRegexReplace (d :: rest) replacement

end Mclog
