import Mclog.General.Program
import Mclog.LogFiles

/-!
# Log files and the calls they make

`LogFile::Open` and `LogFile::Process`, and the loop of `FileLogger::Run` over them, as programs: the
calls of the file system and of the library they make, in order, with what they do with each result.
The functions of `std::filesystem` without an `std::error_code` throw when they fail; so do
`std::regex` and `stoull`.  Nothing catches.

`handle` answers the calls from a disk.
-/

namespace Mclog

open General

/-- `LogFile::Archive`. -/
structure Archive where
  base : Str
  num : Nat
  compress : Str
deriving DecidableEq

namespace Archive

/-- `Archive::String`. -/
def string (archive : Archive) : Str := archiveString archive.base archive.num archive.compress

/-- `Archive::Next`. -/
def next (archive : Archive) : Archive := { archive with num := (archive.num + 1) % 2 ^ 64 }

end Archive

/-- What an iteration over a directory gives: names, and whether it ends with an exception. -/
structure Listing where
  names : List Str
  failed : Bool

/-- The calls that `LogFile` makes, with their results.  `none` is an exception, but for `stat` and
    for opening a stream, which fail without one. -/
inductive LogFileCall : Type → Type where
  | stat (path : Str) : LogFileCall (Option Int)
  | exists (path : Str) : LogFileCall (Option Bool)
  | is_directory (path : Str) : LogFileCall (Option Bool)
  | create_directories (path : Str) : LogFileCall (Option Bool)
  | regex (f ext : Str) : LogFileCall (Option (Str → Option Str))
  | directory_iterator (path : Str) : LogFileCall Listing
  | is_regular_file (path : Str) : LogFileCall (Option Bool)
  | stoull (digits : Str) : LogFileCall (Option Nat)
  | remove (archive : Archive) : LogFileCall (Option Bool)
  | rename (archive next : Archive) : LogFileCall (Option Unit)
  | renameCurrent (path dst : Str) : LogFileCall (Option Unit)
  | system (path compress dst : Str) : LogFileCall Unit
  /-- `time` in `RollCriteriaMet`. -/
  | time : LogFileCall Int
  /-- `time` when the roll interval is set. -/
  | rollTime : LogFileCall Int
  | open (path : Str) : LogFileCall (Option OfStream)
  | chmod (path : Str) : LogFileCall Bool
  | chown (path : Str) : LogFileCall Bool
  | tellp (st : OfStream) : LogFileCall Int
  | close (st : OfStream) : LogFileCall Unit
  /-- A message written and flushed. -/
  | write (st : OfStream) (bytes : Str) : LogFileCall (Bool × OfStream)

namespace LogFileCall

/-- The result is an exception. -/
def Throws : ⦃ρ : Type⦄ → LogFileCall ρ → ρ → Prop
  | _, .exists _, r => r = none
  | _, .is_directory _, r => r = none
  | _, .create_directories _, r => r = none
  | _, .regex _ _, r => r = none
  | _, .directory_iterator _, r => r.failed = true
  | _, .is_regular_file _, r => r = none
  | _, .stoull _, r => r = none
  | _, .remove _, r => r = none
  | _, .rename _ _, r => r = none
  | _, .renameCurrent _ _, r => r = none
  | _, _, _ => False

/-- The results there can be: any of the file system and the clock, and those of the library are
    what its functions compute. -/
def Admits (plat : Platform) : ⦃ρ : Type⦄ → LogFileCall ρ → ρ → Prop
  | _, .regex f ext, r => r = archiveRegex plat f ext
  | _, .stoull digits, r => r = Mclog.stoull digits
  | _, _, _ => True

end LogFileCall

/-- A program that makes these calls. -/
abbrev LogFileProgram := Program LogFileCall

namespace LogFileProgram

open Program

/-- A call that throws: its result, if there is one. -/
def attempt {α : Type} (op : LogFileCall (Option α)) : LogFileProgram α := do
  match ← perform op with
  | some a => pure a
  | none => .raise

variable (plat : Platform)

/-- `NeedRollBeforeOpen`. -/
def needRollBeforeOpen (lf : LogFile) : LogFileProgram Bool := do
  match ← perform (.stat lf.path) with
  | some mtime => pure (lf.rollInterval.startTime > mtime)
  | none => pure false

/-- The loop of `GetArchives` over the directory: the numbers found. -/
def findArchives (dir : Str) (rgx : Str → Option Str) : List Str → LogFileProgram (List Nat)
  | [] => pure []
  | fname :: names => do
    if ← attempt (.is_regular_file (dir ++ fname)) then
      match rgx fname with
      | some digits =>
        let num ← attempt (.stoull digits)
        let nums ← findArchives dir rgx names
        pure (num :: nums)
      | none => findArchives dir rgx names
    else
      findArchives dir rgx names

/-- `GetArchives`: the archives, highest number first. -/
def getArchives (lf : LogFile) : LogFileProgram (List Archive) := do
  let dir := parentPath lf.path
  let rgx ← attempt (.regex (filename lf.path) (archiveExtension lf.compress))
  let listing ← perform (.directory_iterator dir)
  let nums ← findArchives dir rgx listing.names
  if listing.failed then
    .raise
  else
    pure ((nums.insertionSort (· ≥ ·)).map fun num => ⟨lf.path, num, lf.compress⟩)

/-- One round of the loop of `RollArchives`. -/
def moveArchive (keep : UInt32) (archive : Archive) : LogFileProgram Unit :=
  if (archive.num + 1) % 2 ^ 64 ≥ keep.toNat then do
    let _ ← attempt (.remove archive)
    pure ()
  else
    attempt (.rename archive archive.next)

/-- The loop of `RollArchives`. -/
def moveArchives (keep : UInt32) : List Archive → LogFileProgram Unit
  | [] => pure ()
  | archive :: archives => do
    moveArchive keep archive
    moveArchives keep archives

/-- `RollArchives`. -/
def rollArchives (lf : LogFile) : LogFileProgram Unit := do
  let archives ← getArchives lf
  moveArchives lf.keep archives

/-- `RollCurrent`. -/
def rollCurrent (lf : LogFile) : LogFileProgram Unit := do
  let dst := rolledString lf.path
  attempt (.renameCurrent lf.path dst)
  perform (.system lf.path lf.compress dst)

/-- `Roll`. -/
def roll (lf : LogFile) : LogFileProgram LogFile := do
  rollArchives lf
  rollCurrent lf
  let t ← perform .rollTime
  pure { lf with rollInterval := lf.rollInterval.setToCurrent plat.calendar t }

/-- `EnsureParentDirectory`. -/
def ensureParentDirectory (lf : LogFile) : LogFileProgram Bool := do
  let dir := parentPath lf.path
  if ← attempt (.exists dir) then
    attempt (.is_directory dir)
  else
    attempt (.create_directories dir)

/-- The end of `OpenNoLock`. -/
def openFile (lf : LogFile) : LogFileProgram (Bool × LogFile) := do
  if ← ensureParentDirectory lf then
    match ← perform (.open lf.path) with
    | some st =>
      let _ ← perform (.chmod lf.path)
      let _ ← perform (.chown lf.path)
      pure (true, { lf with ofs := some st })
    | none => pure (false, lf)
  else
    pure (false, lf)

/-- `OpenNoLock`. -/
def openNoLock (lf : LogFile) : LogFileProgram (Bool × LogFile) := do
  if lf.ofs.isSome then
    pure (true, lf)
  else if ← needRollBeforeOpen lf then
    let lf ← roll plat lf
    openFile lf
  else
    openFile lf

/-- The criterion of the size. -/
def tooLarge (lf : LogFile) (st : OfStream) : LogFileProgram Bool := do
  if lf.rollSize > 0 then
    let pos ← perform (.tellp st)
    pure (decide (pos ≥ lf.rollSize))
  else
    pure false

/-- `RollCriteriaMet`. -/
def rollCriteriaMet (lf : LogFile) (st : OfStream) (msg : Message) : LogFileProgram Bool := do
  if ← tooLarge lf st then
    pure true
  else if (msg.header.timestamp.usecs.toNat / 1000000 : Int) ≥
      lf.rollInterval.endTime % 2 ^ 64 then
    let t ← perform .time
    pure (decide (t ≥ lf.rollInterval.endTime))
  else
    pure false

/-- The end of `Process`. -/
def writeRecord (lf : LogFile) (msg : Message) : LogFileProgram (Bool × LogFile) :=
  match lf.ofs with
  | none => pure (false, lf)
  | some st =>
    if st.good then do
      let (rc, st) ← perform (.write st (LogFile.record plat lf.format msg))
      pure (rc, { lf with ofs := some st })
    else
      pure (false, lf)

/-- `Process`. -/
def process (lf : LogFile) (msg : Message) : LogFileProgram (Bool × LogFile) :=
  match lf.ofs with
  | none => pure (false, lf)
  | some st => do
    if ← rollCriteriaMet lf st msg then
      perform (.close st)
      let lf ← roll plat { lf with ofs := none }
      let (_, lf) ← openNoLock plat lf
      writeRecord plat lf msg
    else
      writeRecord plat lf msg

end LogFileProgram

namespace LogFilesProgram

open Program

variable (plat : Platform) (driver : MessageFilterDriver) (regexReplace : Str → Str → Str)

/-- The body of the loop of `LogFiles::Process`: one path. -/
def processPath (lfs : LogFiles) (msg : Message) (path : Str) (cfg : LogFileConfig) :
    LogFileProgram (Bool × LogFiles) :=
  match lfs.logFiles.lookup path with
  | some lf => do
    let (rc, lf) ← LogFileProgram.process plat lf msg
    pure (rc, { lfs with logFiles := lfs.logFiles.insert path lf })
  | none => do
    let t ← perform .rollTime
    let (_, lf) ← LogFileProgram.openNoLock plat (.of plat path cfg t)
    let (rc, lf) ← LogFileProgram.process plat lf msg
    pure (rc, { lfs with logFiles := lfs.logFiles.insert path lf })

/-- The loop of `LogFiles::Process`. -/
def processPaths (msg : Message) :
    List (Str × LogFileConfig) → LogFiles → LogFileProgram (Bool × LogFiles)
  | [], lfs => pure (true, lfs)
  | (path, cfg) :: logPaths, lfs => do
    let (rc, lfs) ← processPath plat lfs msg path cfg
    let (rest, lfs) ← processPaths msg logPaths lfs
    pure (rc && rest, lfs)

/-- `LogFiles::Process`. -/
def process (lfs : LogFiles) (msg : Message) : LogFileProgram (Bool × LogFiles) :=
  let (cache, logPaths) := LogFiles.logPathConfigs driver regexReplace
    lfs.filesConfig.logDirectory msg lfs.filteredLogConfigs lfs.logPathCache []
  processPaths plat msg logPaths { lfs with logPathCache := cache }

/-- `FileLogger::Run`, from its start to its end, with the messages it takes from its queue. -/
def run : List Message → LogFiles → LogFileProgram LogFiles
  | [], lfs => pure lfs
  | msg :: msgs, lfs => do
    let (_, lfs) ← process plat driver regexReplace lfs msg
    run msgs lfs

end LogFilesProgram

/-! ### Calls answered from a disk -/

/-- The results of the calls of one call of a `LogFile`, and what they do to the disk and to the
    compressors running. -/
def LogFileCall.handle (plat : Platform) (env : Env) :
    ⦃ρ : Type⦄ → LogFileCall ρ → Disk × List Job → ρ × Disk × List Job
  | _, .stat path, s =>
    let k := LogFile.key plat path
    match s.1.find k with
    | some node => (some (s.1.nodes node).mtime, s)
    | none => (if s.1.IsDirectory k then some env.directoryTime else none, s)
  | _, .exists path, s =>
    (if path.isEmpty then some false else env.ensureParentDirectory.map fun _ => true, s)
  | _, .is_directory path, s =>
    (if path.isEmpty then some false else env.ensureParentDirectory, s)
  | _, .create_directories path, s =>
    (if path.isEmpty then none else env.ensureParentDirectory, s)
  | _, .regex f ext, s => (archiveRegex plat f ext, s)
  | _, .directory_iterator path, s =>
    if path.isEmpty ∨ env.fails .list then (⟨[], true⟩, s)
    else (⟨s.1.listing (LogFile.key plat path), false⟩, s)
  | _, .is_regular_file _, s => (some true, s)
  | _, .stoull digits, s => (Mclog.stoull digits, s)
  | _, .remove archive, s =>
    let k := LogFile.key plat archive.string
    if env.fails (.remove archive.num) ∨ s.1.IsDirectory k then (none, s)
    else (some (s.1.find k).isSome, s.1.remove k, s.2)
  | _, .rename archive next, s =>
    match s.1.rename (LogFile.key plat archive.string) (LogFile.key plat next.string) with
    | some disk => if env.fails (.rename archive.num) then (none, s) else (some (), disk, s.2)
    | none => (none, s)
  | _, .renameCurrent path dst, s =>
    match s.1.rename (LogFile.key plat path) (LogFile.key plat dst) with
    | some disk => if env.fails .renameCurrent then (none, s) else (some (), disk, s.2)
    | none => (none, s)
  | _, .system path compress dst, s =>
    let files := if env.fails .system then [] else compressorArguments plat dst
    ((), s.1, s.2 ++ files.map fun file => ⟨path, file, compress, .started⟩)
  | _, .time, s => (env.time, s)
  | _, .rollTime, s => (env.rollTime, s)
  | _, .open path, s =>
    let k := LogFile.key plat path
    if env.fails .open ∨ s.1.IsDirectory k then
      (none, s)
    else
      match s.1.find k with
      | some node => (some { node }, s)
      | none => (some { node := s.1.next }, s.1.create k ⟨[], env.writeTime⟩, s.2)
  | _, .chmod _, s => (true, s)
  | _, .chown _, s => (true, s)
  | _, .tellp _, s => (env.tellp, s)
  | _, .close st, s =>
    let rest := st.pending.take env.flushed
    ((), if rest.isEmpty then s else (LogFile.append env s.1 st.node rest, s.2))
  | _, .write st bytes, s =>
    if env.fails .write then
      ((false, { st with good := false, pending := bytes.drop env.written }),
        LogFile.append env s.1 st.node (bytes.take env.written), s.2)
    else
      ((true, st), LogFile.append env s.1 st.node bytes, s.2)

end Mclog
