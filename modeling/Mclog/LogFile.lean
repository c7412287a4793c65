import Mclog.General.FileStore
import Mclog.General.LexicalPath
import Mclog.General.Machine
import Mclog.Message
import Mclog.RollInterval

/-!
# Log files

`LogFile` appends messages to a file and rolls it: the file becomes `path.0`, which a compressor
started in the background turns into the archive `path.0.<ext>`, and older archives move up by one
number.  The disk is a file store, names being resolved lexically.  A compressor is a process that
takes its three steps at any time: it opens `path.0`, creates the archive, and unlinks `path.0`.

A call is given an `Env`, with the results of the system calls it makes.  An exception leaves
everything done before it done.
-/

namespace Mclog

open General

/-! ### Names -/

/-- What the host provides: the stream encodings, the calendar, how a timestamp prints, the working
    directory, regular expressions, the shell and compressors. -/
structure Platform where
  io : StreamIO
  calendar : Calendar
  timestampText : Timestamp → Str
  cwd : List Str
  /-- `std::regex` of a file name and the archive pattern for an extension after it, and
      `regex_match`, which gives the sub-expression.  `none` when the name is no regular
      expression. -/
  regex : Str → Str → Option (Str → Option Str)
  /-- The arguments that the shell makes of a path in a command. -/
  shell : Str → List Str
  /-- What a compressor makes of a file. -/
  pack : Str → Str → Str

/-- The absolute name of a path, component by component. -/
def resolve (cwd : List Str) (path : Str) : List Str :=
  let start : Location UInt8 :=
    if path.head? = some slash then .root else { (Location.root : Location UInt8) with names := cwd }
  (start.walk dot (path.splitOn slash)).names

/-- `filename()`: what follows the last separator. -/
def filename (path : Str) : Str := (path.reverse.takeWhile fun c => c ≠ slash).reverse

/-- `parent_path()`, with the separator. -/
def parentPath (path : Str) : Str := path.take (path.length - (filename path).length)

/-- `sg_compressionExt`. -/
def sg_compressionExt : List (Str × Str) :=
  [(str "bzip2", str "bz2"), (str "gzip", str "gz")]

/-- `CompressCommand`. -/
def compressCommand (compressConfig : Str) : Str :=
  match sg_compressionExt.lookup compressConfig with
  | some _ => compressConfig
  | none => str "bzip2"

/-- `ArchiveExtension`. -/
def archiveExtension (compressConfig : Str) : Str :=
  match sg_compressionExt.lookup compressConfig with
  | some ext => ext
  | none => str "bz2"

/-- `Archive::String`. -/
def archiveString (base : Str) (num : Nat) (compress : Str) : Str :=
  base ++ dot :: decimal num ++ dot :: archiveExtension compress

/-- The name the live file gets when it is rolled. -/
def rolledString (path : Str) : Str := path ++ str ".0"

/-- A character that the shell takes as it is. -/
def isWordChar (c : UInt8) : Bool := isalnum c || c ∈ str "_-./,:=@%+"

/-- The arguments a compressor gets for a path: the path itself, if it is a plain word and no
    option. -/
def compressorArguments (plat : Platform) (path : Str) : List Str :=
  if path.all isWordChar ∧ path.head? ≠ some hyphen then [path] else plat.shell path

/-- A character that stands for itself in a regular expression, or `'.'`. -/
def isPlain (c : UInt8) : Bool := isalnum c || c == hyphen || c == underscore || c == dot

/-- `regex_match` of plain characters: `'.'` matches all but line terminators. -/
def matchesPlain (pattern s : Str) : Bool :=
  pattern.length == s.length &&
    (pattern.zip s).all fun p => if p.1 = dot then p.2 ≠ 10 && p.2 ≠ 13 else p.1 == p.2

/-- `\.([0-9]+)\.<ext>`: its sub-expression. -/
def archiveDigits (ext s : Str) : Option Str :=
  match s with
  | c :: rest =>
    let digits := rest.takeWhile isdigit
    if c = dot ∧ digits ≠ [] ∧ rest.drop digits.length = dot :: ext then some digits else none
  | [] => none

/-- `rgx` of `GetArchives` and `regex_match` with it: the file name, which is not escaped, followed
    by `\.([0-9]+)\.<ext>`. -/
def archiveRegex (plat : Platform) (f ext : Str) : Option (Str → Option Str) :=
  if f.all isPlain then
    some fun fname =>
      if matchesPlain f (fname.take f.length) then archiveDigits ext (fname.drop f.length) else none
  else
    plat.regex f ext

/-! ### The disk and the compressors -/

/-- Files, with their bytes. -/
abbrev Disk := FileStore Str Str

/-- Where a compressor is: it has been started, has opened its file, or has created the archive. -/
inductive JobPhase where
  | started
  | opened (node : Nat)
  | created
deriving DecidableEq

/-- A compressor of a file, started for the log file at `path`. -/
structure Job where
  path : Str
  file : Str
  compress : Str
  phase : JobPhase
deriving DecidableEq

/-- What a roll, or a step of a compressor, did to the disk. -/
structure RollRecord where
  path : Str
  compress : Str
  before : Disk
  after : Disk

/-- The disk, the compressors running, and what rolls and compressors have done so far. -/
structure World where
  disk : Disk
  jobs : List Job := []
  rolls : List RollRecord := []
  compressions : List RollRecord := []

/-- The system calls of one call that can fail for reasons of their own. -/
inductive FileOp where
  | list
  | remove (num : Nat)
  | rename (num : Nat)
  | renameCurrent
  | system
  | open
  | write
deriving DecidableEq

/-- The results of the system calls of one call. -/
structure Env where
  fails : FileOp → Bool := fun _ => false
  /-- `EnsureParentDirectory`; `none` is an exception. -/
  ensureParentDirectory : Option Bool := some true
  /-- `_ofs.tellp()`. -/
  tellp : Int := 0
  /-- `time` in `RollCriteriaMet`. -/
  time : Int := 0
  /-- `time` when the roll interval is set. -/
  rollTime : Int := 0
  /-- The time a file is created or written. -/
  writeTime : Int := 0
  /-- The modification time of a directory that stands at the path. -/
  directoryTime : Int := 0
  /-- How many bytes of a write that fails are written. -/
  written : Nat := 0
  /-- How many of the bytes left of a failed write are written when the file is closed. -/
  flushed : Nat := 0

/-- The `i`-th compressor takes a step.  It gives up when it cannot open its file, and does not
    overwrite one. -/
def World.compressorStep (plat : Platform) (w : World) (i : Nat) : World :=
  match w.jobs[i]? with
  | none => w
  | some job =>
    let src := resolve plat.cwd job.file
    let dst := resolve plat.cwd (job.file ++ dot :: archiveExtension job.compress)
    match job.phase with
    | .started =>
      match w.disk.find src with
      | some node => { w with jobs := w.jobs.set i { job with phase := .opened node } }
      | none => { w with jobs := w.jobs.eraseIdx i }
    | .opened node =>
      if w.disk.Present dst then
        { w with jobs := w.jobs.eraseIdx i }
      else
        let disk := w.disk.create dst
          { w.disk.nodes node with
            data := plat.pack (compressCommand job.compress) (w.disk.nodes node).data }
        { w with
          disk
          jobs := w.jobs.set i { job with phase := .created }
          compressions := w.compressions ++ [⟨job.path, job.compress, w.disk, disk⟩] }
    | .created =>
      let disk := w.disk.remove src
      { w with
        disk
        jobs := w.jobs.eraseIdx i
        compressions := w.compressions ++ [⟨job.path, job.compress, w.disk, disk⟩] }

/-! ### The log file -/

/-- `std::ofstream`, open for appending: its node, whether no write has failed, and what a failed
    write left to be written. -/
structure OfStream where
  node : Nat
  good : Bool := true
  pending : Str := []
deriving DecidableEq

/-- `LogFile`. -/
structure LogFile where
  path : Str
  keep : UInt32
  ofs : Option OfStream
  rollInterval : RollInterval
  rollSize : Int
  compress : Str
  format : FileFormat
deriving DecidableEq

namespace LogFile

/-- The constructor and `Compression`, with the reading of the clock. -/
def of (plat : Platform) (path : Str) (cfg : LogFileConfig) (t : Int) : LogFile where
  path := path
  keep := cfg.keep
  ofs := none
  rollInterval := .of plat.calendar cfg.period t
  rollSize := cfg.size
  compress := if (sg_compressionExt.lookup cfg.compress).isSome then cfg.compress else str "bzip2"
  format := cfg.format

section

variable (plat : Platform) (env : Env)

/-- The file at a path. -/
def key (path : Str) : List Str := resolve plat.cwd path

/-- `NeedRollBeforeOpen`. -/
def needRollBeforeOpen (lf : LogFile) (disk : Disk) : Bool :=
  let k := key plat lf.path
  match disk.find k with
  | some node => lf.rollInterval.startTime > (disk.nodes node).mtime
  | none => disk.IsDirectory k && lf.rollInterval.startTime > env.directoryTime

/-- `RollCriteriaMet`.  The seconds of a timestamp are unsigned, so the end time is made so. -/
def rollCriteriaMet (lf : LogFile) (msg : Message) : Bool :=
  if lf.rollSize > 0 ∧ lf.ofs.isSome ∧ env.tellp ≥ lf.rollSize then
    true
  else if (msg.header.timestamp.usecs.toNat / 1000000 : Int) ≥ lf.rollInterval.endTime % 2 ^ 64 then
    env.time ≥ lf.rollInterval.endTime
  else
    false

/-- `GetArchives`: the numbers of the archives, highest first.  `none` is an exception. -/
def getArchives (lf : LogFile) (disk : Disk) : Option (List Nat) :=
  let dir := parentPath lf.path
  if dir.isEmpty ∨ env.fails .list then
    none
  else do
    let sm ← archiveRegex plat (filename lf.path) (archiveExtension lf.compress)
    let nums ← ((disk.listing (key plat dir)).filterMap sm).mapM stoull
    pure (nums.insertionSort (· ≥ ·))

/-- The loop of `RollArchives`: whether it completes, and the disk after it.  Sums of `size_t`
    wrap. -/
def moveArchives (lf : LogFile) : List Nat → Disk → Bool × Disk
  | [], disk => (true, disk)
  | num :: nums, disk =>
    let next := (num + 1) % 2 ^ 64
    let archive := key plat (archiveString lf.path num lf.compress)
    if next ≥ lf.keep.toNat then
      if env.fails (.remove num) ∨ disk.IsDirectory archive then (false, disk)
      else moveArchives lf nums (disk.remove archive)
    else
      match disk.rename archive (key plat (archiveString lf.path next lf.compress)) with
      | some disk' => if env.fails (.rename num) then (false, disk) else moveArchives lf nums disk'
      | none => (false, disk)

/-- `RollArchives`. -/
def rollArchives (lf : LogFile) (disk : Disk) : Bool × Disk :=
  match lf.getArchives plat env disk with
  | some archives => lf.moveArchives plat env archives disk
  | none => (false, disk)

/-- `RollCurrent`: whether it completes, and the world after it. -/
def rollCurrent (lf : LogFile) (w : World) : Bool × World :=
  match w.disk.rename (key plat lf.path) (key plat (rolledString lf.path)) with
  | some disk =>
    if env.fails .renameCurrent then
      (false, w)
    else
      -- `system("<compress> <dst> > /dev/null 2>&1 &")`
      let files := if env.fails .system then [] else compressorArguments plat (rolledString lf.path)
      let started := files.map fun file => ⟨lf.path, file, lf.compress, .started⟩
      (true, { w with disk, jobs := w.jobs ++ started })
  | none => (false, w)

/-- The disk changes of `Roll`, on record. -/
def rollFiles (lf : LogFile) (w : World) : Bool × World :=
  let (completed, disk) := lf.rollArchives plat env w.disk
  let (completed, w') :=
    if completed then lf.rollCurrent plat env { w with disk } else (false, { w with disk })
  (completed, { w' with rolls := w.rolls ++ [⟨lf.path, lf.compress, w.disk, w'.disk⟩] })

/-- `Roll`: whether it completes. -/
def roll (lf : LogFile) (w : World) : Bool × LogFile × World :=
  let (completed, w) := lf.rollFiles plat env w
  if completed then
    (true,
      { lf with rollInterval := lf.rollInterval.setToCurrent plat.calendar env.rollTime }, w)
  else
    (false, lf, w)

/-- The end of `OpenNoLock`: its result, where `none` is an exception. -/
def openFile (lf : LogFile) (w : World) : Option Bool × LogFile × World :=
  match if (parentPath lf.path).isEmpty then none else env.ensureParentDirectory with
  | none => (none, lf, w)
  | some false => (some false, lf, w)
  | some true =>
    let k := key plat lf.path
    if env.fails .open ∨ w.disk.IsDirectory k then
      (some false, lf, w)
    else
      match w.disk.find k with
      | some node => (some true, { lf with ofs := some { node } }, w)
      | none =>
        (some true, { lf with ofs := some { node := w.disk.next } },
          { w with disk := w.disk.create k ⟨[], env.writeTime⟩ })

/-- `OpenNoLock`. -/
def openNoLock (lf : LogFile) (w : World) : Option Bool × LogFile × World :=
  if lf.ofs.isSome then
    (some true, lf, w)
  else if lf.needRollBeforeOpen plat env w.disk then
    match lf.roll plat env w with
    | (true, lf, w) => lf.openFile plat env w
    | (false, lf, w) => (none, lf, w)
  else
    lf.openFile plat env w

/-- A node with bytes appended. -/
def append (disk : Disk) (node : Nat) (bytes : Str) : Disk :=
  disk.setNode node ⟨(disk.nodes node).data ++ bytes, env.writeTime⟩

/-- `Close`. -/
def close (lf : LogFile) (w : World) : LogFile × World :=
  match lf.ofs with
  | none => (lf, w)
  | some st =>
    let rest := st.pending.take env.flushed
    ({ lf with ofs := none },
      if rest.isEmpty then w else { w with disk := append env w.disk st.node rest })

/-- `operator<<` of a severity. -/
def severityText (severity : Severity) : Str :=
  match severity.code with
  | 0 => str "[M]"
  | 1 => str "[A]"
  | 2 => str "[C]"
  | 3 => str "[E]"
  | 4 => str "[W]"
  | 5 => str "[N]"
  | 6 => str "[I]"
  | 7 => str "[D]"
  | _ => str "[U]"

/-- `operator<<` of a message. -/
def messageText (msg : Message) : Str :=
  let hdr := msg.header
  plat.timestampText hdr.timestamp ++ str " " ++ facilityName hdr.facility ++ str " " ++
    hdr.origin.hostname.value ++ str " " ++ hdr.origin.appname.value ++ str "[" ++
    decimal hdr.origin.procid.toNat ++ str "]: " ++ severityText hdr.severity ++ str " " ++
    msg.message.value ++ [10]

/-- What a message is in a file of the format. -/
def record (format : FileFormat) (msg : Message) : Str :=
  match format with
  | .binary => msg.write plat.io
  | .text => messageText plat msg

/-- The end of `Process`: the message is written and flushed. -/
def writeRecord (lf : LogFile) (w : World) (msg : Message) : Bool × LogFile × World :=
  match lf.ofs with
  | none => (false, lf, w)
  | some st =>
    let bytes := record plat lf.format msg
    if ¬ st.good then
      (false, lf, w)
    else if env.fails .write then
      (false,
        { lf with ofs := some { st with good := false, pending := bytes.drop env.written } },
        { w with disk := append env w.disk st.node (bytes.take env.written) })
    else
      (true, lf, { w with disk := append env w.disk st.node bytes })

/-- `Process`: its result, where `none` is an exception. -/
def process (lf : LogFile) (w : World) (msg : Message) : Option Bool × LogFile × World :=
  if lf.ofs.isSome then
    if lf.rollCriteriaMet env msg then
      let (lf, w) := lf.close env w
      match lf.roll plat env w with
      | (true, lf, w) =>
        match lf.openNoLock plat env w with
        | (some _, lf, w) =>
          let (rc, lf, w) := lf.writeRecord plat env w msg
          (some rc, lf, w)
        | (none, lf, w) => (none, lf, w)
      | (false, lf, w) => (none, lf, w)
    else
      let (rc, lf, w) := lf.writeRecord plat env w msg
      (some rc, lf, w)
  else
    (some false, lf, w)

end

end LogFile

/-- What happens to a log file: a call, or a step of a compressor. -/
inductive LogFileEvent where
  | open (env : Env)
  | process (env : Env) (msg : Message)
  | close (env : Env)
  | compressor (i : Nat)

/-- What happens to the log files of a path: a call of the one there is, or a step of a compressor; or
    it is destroyed, and a new one constructed. -/
inductive LifetimeEvent where
  | call (e : LogFileEvent)
  | restart (env : Env) (cfg : LogFileConfig) (t : Int)

namespace LogFile

/-- A log file and its world as a machine.  It emits the record of a message that `Process` returns
    true for, and aborts on an exception. -/
def machine (plat : Platform) : Machine (LogFile × World) LogFileEvent Str := fun s e =>
  match e with
  | .open env =>
    match s.1.openNoLock plat env s.2 with
    | (some _, s') => some (s', [])
    | (none, _) => none
  | .process env msg =>
    match s.1.process plat env s.2 msg with
    | (some rc, s') => some (s', if rc then [record plat s.1.format msg] else [])
    | (none, _) => none
  | .close env => some (s.1.close env s.2, [])
  | .compressor i => some ((s.1, s.2.compressorStep plat i), [])

/-- The log files of a path, one after another, and their world as a machine.  It emits the setting
    `keep` that each roll is made under. -/
def lifetimes (plat : Platform) : Machine (LogFile × World) LifetimeEvent UInt32 := fun s e =>
  match e with
  | .call e =>
    (machine plat s e).map fun p =>
      (p.1, (p.1.2.rolls.drop s.2.rolls.length).map fun _ => s.1.keep)
  | .restart env cfg t =>
    let (lf, w) := s.1.close env s.2
    some ((of plat lf.path cfg t, w), [])

/-- The contents the live file had at each roll, oldest first. -/
def closedSegments (plat : Platform) (path : Str) (w : World) : List Str :=
  w.rolls.map fun r => (r.before.read (key plat path)).getD []

/-- What the live file holds; nothing, if there is none. -/
def liveContent (plat : Platform) (path : Str) (w : World) : Str :=
  (w.disk.read (key plat path)).getD []

end LogFile

end Mclog
