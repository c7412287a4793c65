import Mathlib.Data.List.AList
import Mclog.Config
import Mclog.Message

/-!
# Paths of log files

`LogFiles::LogPath` and the cache in front of it.  The substitution of `%H`, `%I` and `%F` is done
by Boost's `regex_replace`, which is a parameter here: a function of the text and of the replacement
string that the code builds.
-/

namespace Mclog

/-- The key of the path cache. -/
structure LogPathCacheKey where
  /-- The facility and the severity, or-ed into one number. -/
  facilitySeverity : UInt32
  hostname : Str
  appname : Str
  pathPattern : Str
deriving DecidableEq

/-- The key of a message and a path pattern. -/
def LogPathCacheKey.of (msg : Message) (pathPattern : Str) : LogPathCacheKey where
  facilitySeverity := msg.header.facility.code.toUInt32 ||| msg.header.severity.code.toUInt32
  hostname := msg.header.origin.hostname.value
  appname := msg.header.origin.appname.value
  pathPattern := pathPattern

/-- `_logPathCache`. -/
abbrev LogPathCache := AList fun _ : LogPathCacheKey => Str

/-- `LogPathFromCache`: the cached path, else the empty string. -/
def logPathFromCache (cache : LogPathCache) (msg : Message) (pathPattern : Str) : Str :=
  match cache.lookup (LogPathCacheKey.of msg pathPattern) with
  | some path => path
  | none => []

/-- The replacement string: each name in a conditional on its sub-expression. -/
def replacement (hostname appname facility : Str) : Str :=
  str "(?1" ++ hostname ++ str ")(?2" ++ appname ++ str ")(?3" ++ facility ++ str ")"

/-- The byte of `'%'`. -/
def percent : UInt8 := 37

/-- What `LogPath` computes for a path that is not in its cache. -/
def freshLogPath (regexReplace : Str → Str → Str) (logDirectory : Str) (msg : Message)
    (pathPattern : Str) : Str :=
  let origin := msg.header.origin
  if pathPattern.isEmpty then
    str "logs/" ++ origin.hostname.value ++ slash :: origin.appname.value
  else if percent ∉ pathPattern then
    if pathPattern.head? = some slash then pathPattern
    else logDirectory ++ slash :: pathPattern
  else
    let rc := regexReplace pathPattern
      (replacement origin.hostname.value origin.appname.value (facilityName msg.header.facility))
    if rc.head? ≠ some slash then logDirectory ++ slash :: rc else rc

/-- `LogFiles::LogPath`: the path, and the cache with it. -/
def logPath (regexReplace : Str → Str → Str) (logDirectory : Str) (cache : LogPathCache)
    (msg : Message) (cfg : LogFileConfig) : Str × LogPathCache :=
  let rc := logPathFromCache cache msg cfg.pathPattern
  if rc.isEmpty then
    let rc := freshLogPath regexReplace logDirectory msg cfg.pathPattern
    (rc, cache.insert (LogPathCacheKey.of msg cfg.pathPattern) rc)
  else
    (rc, cache)

/-- The paths `LogPath` returns over a sequence of calls, the cache handed from one to the next. -/
def logPaths (regexReplace : Str → Str → Str) (logDirectory : Str) :
    LogPathCache → List (Message × LogFileConfig) → List Str
  | _, [] => []
  | cache, (msg, cfg) :: calls =>
    let (path, cache) := logPath regexReplace logDirectory cache msg cfg
    path :: logPaths regexReplace logDirectory cache calls

end Mclog
