import Mclog.LogFile
import Mclog.LogPath

/-!
# The log files of mclogd

`LogFiles` hands a message to the log file of every entry of the configuration whose filter accepts
it, opening those it has not used yet.  The filter language is a parameter.
-/

namespace Mclog

open General

/-- `MessageFilterDriver`: whether it can be made of a filter expression, and whether it parses and
    accepts a message. -/
structure MessageFilterDriver where
  valid : Str → Bool
  accepts : Str → Message → Bool

/-- `LogFiles`. -/
structure LogFiles where
  filesConfig : FilesConfig
  filteredLogConfigs : List LogFileConfig
  logFiles : AList fun _ : Str => LogFile
  logPathCache : LogPathCache

/-- A message with the results of the system calls made for it, path by path: those of `Open` and of
    `Process`, and the clock when a log file is constructed. -/
structure Delivery where
  msg : Message
  openEnv : Str → Env := fun _ => {}
  processEnv : Str → Env := fun _ => {}
  time : Int := 0

/-- What happens: `LogFiles` processes a message, or a compressor takes a step. -/
inductive LogFilesEvent where
  | process (d : Delivery)
  | compressor (i : Nat)

namespace LogFiles

section

variable (plat : Platform) (driver : MessageFilterDriver) (regexReplace : Str → Str → Str)

/-- `Configure`, on fresh `LogFiles`. -/
def configure (filesConfig : FilesConfig) : LogFiles where
  filesConfig := filesConfig
  filteredLogConfigs := filesConfig.logs.filter fun cfg => driver.valid cfg.filter
  logFiles := ∅
  logPathCache := ∅

/-- The loop of `LogPathConfigs`: the cache, and the paths with the first entry for each. -/
def logPathConfigs (logDirectory : Str) (msg : Message) :
    List LogFileConfig → LogPathCache → List (Str × LogFileConfig) →
      LogPathCache × List (Str × LogFileConfig)
  | [], cache, logPaths => (cache, logPaths)
  | cfg :: cfgs, cache, logPaths =>
    if driver.accepts cfg.filter msg then
      let (path, cache) := logPath regexReplace logDirectory cache msg cfg
      let hasEntry := logPaths.any fun e => e.1 == path
      logPathConfigs logDirectory msg cfgs cache
        (if hasEntry then logPaths else logPaths ++ [(path, cfg)])
    else
      logPathConfigs logDirectory msg cfgs cache logPaths

/-- The body of the loop of `Process`: one path. -/
def processPath (lfs : LogFiles) (w : World) (d : Delivery) (path : Str) (cfg : LogFileConfig) :
    Option Bool × LogFiles × World :=
  match lfs.logFiles.lookup path with
  | some lf =>
    let (rc, lf, w) := lf.process plat (d.processEnv path) w d.msg
    (rc, { lfs with logFiles := lfs.logFiles.insert path lf }, w)
  | none =>
    match (LogFile.of plat path cfg d.time).openNoLock plat (d.openEnv path) w with
    | (none, lf, w) => (none, { lfs with logFiles := lfs.logFiles.insert path lf }, w)
    | (some _, lf, w) =>
      let (rc, lf, w) := lf.process plat (d.processEnv path) w d.msg
      (rc, { lfs with logFiles := lfs.logFiles.insert path lf }, w)

/-- The loop of `Process`, which an exception ends. -/
def processPaths (d : Delivery) :
    List (Str × LogFileConfig) → LogFiles → World → Option Bool × LogFiles × World
  | [], lfs, w => (some true, lfs, w)
  | (path, cfg) :: logPaths, lfs, w =>
    match lfs.processPath plat w d path cfg with
    | (none, lfs, w) => (none, lfs, w)
    | (some rc, lfs, w) =>
      let (rest, lfs, w) := processPaths d logPaths lfs w
      (rest.map fun r => rc && r, lfs, w)

/-- `Process`: its result, where `none` is an exception. -/
def process (lfs : LogFiles) (w : World) (d : Delivery) : Option Bool × LogFiles × World :=
  let (cache, logPaths) := logPathConfigs driver regexReplace lfs.filesConfig.logDirectory d.msg
    lfs.filteredLogConfigs lfs.logPathCache []
  processPaths plat d logPaths { lfs with logPathCache := cache } w

/-- What an event does. -/
def step (s : LogFiles × World) : LogFilesEvent → LogFiles × World
  | .process d => (s.1.process plat driver regexReplace s.2 d).2
  | .compressor i => (s.1, s.2.compressorStep plat i)

/-- What a sequence of events does. -/
def run (s : LogFiles × World) (events : List LogFilesEvent) : LogFiles × World :=
  events.foldl (step plat driver regexReplace) s

end

end LogFiles

end Mclog
