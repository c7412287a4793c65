import Mclog.Equiv.LogFileCalls
import Mclog.Equiv.LogFiles

/-!
# File errors that escape

Whatever the results of the calls that a log file makes, `Open` and `Process` return unless one of
them throws, and `FileLogger::Run` does not end by an exception either: errors reported by a result
do no harm.  A call that throws always ends them all, because nothing catches (`returns_iff`).
-/

namespace Mclog

open General Program

namespace LogFileProgram

variable {plat : Platform} {lf : LogFile}

/-- A call that throws, if it has no result. -/
theorem throwsOn_attempt {α : Type} {op : LogFileCall (Option α)}
    (h : ∀ r, LogFileCall.Throws op r ↔ r = none) :
    ThrowsOn LogFileCall.Throws False (attempt op) := by
  intro r
  cases r with
  | none => exact Or.inr ((h none).mpr rfl)
  | some a =>
    rintro (hfalse | hthrows)
    · exact hfalse
    · cases (h (some a)).mp hthrows

theorem throwsOn_needRollBeforeOpen (lf : LogFile) :
    ThrowsOn LogFileCall.Throws False (needRollBeforeOpen lf) := by
  refine (throwsOn_perform fun r h => h).then ?_
  intro mtime
  cases mtime with
  | none => exact throwsOn_pure _
  | some mtime => exact throwsOn_pure _

theorem throwsOn_findArchives (dir : Str) (rgx : Str → Option Str) (names : List Str) :
    ThrowsOn LogFileCall.Throws False (findArchives dir rgx names) := by
  induction names with
  | nil => exact throwsOn_pure _
  | cons fname names ih =>
    rw [findArchives]
    refine (throwsOn_attempt fun r => Iff.rfl).then ?_
    intro regular
    cases regular with
    | false => exact ih
    | true =>
      cases rgx fname with
      | none => exact ih
      | some digits =>
        refine (throwsOn_attempt fun r => Iff.rfl).then fun num => ?_
        exact ih.then fun nums => throwsOn_pure _

/-- An iteration that fails throws after the loop. -/
theorem throwsOn_getArchives (lf : LogFile) :
    ThrowsOn LogFileCall.Throws False (getArchives lf) := by
  refine (throwsOn_attempt fun r => Iff.rfl).then ?_
  intro rgx listing
  apply (throwsOn_findArchives (parentPath lf.path) rgx listing.names).then
  intro nums
  by_cases hfailed : listing.failed = true
  · rw [if_pos hfailed]
    exact Or.inr hfailed
  · rw [if_neg hfailed]
    rintro (h | h)
    · exact h
    · exact hfailed h

theorem throwsOn_moveArchives (keep : UInt32) (archives : List Archive) :
    ThrowsOn LogFileCall.Throws False (moveArchives keep archives) := by
  induction archives with
  | nil => exact throwsOn_pure _
  | cons archive archives ih =>
    have hmove : ThrowsOn LogFileCall.Throws False (moveArchive keep archive) := by
      unfold moveArchive
      split_ifs
      · exact (throwsOn_attempt fun r => Iff.rfl).then fun _ => throwsOn_pure _
      · exact throwsOn_attempt fun r => Iff.rfl
    exact hmove.then fun _ => ih

theorem throwsOn_roll (plat : Platform) (lf : LogFile) :
    ThrowsOn LogFileCall.Throws False (roll plat lf) := by
  have harchives : ThrowsOn LogFileCall.Throws False (rollArchives lf) :=
    (throwsOn_getArchives lf).then fun archives => throwsOn_moveArchives lf.keep archives
  have hcurrent : ThrowsOn LogFileCall.Throws False (rollCurrent lf) :=
    (throwsOn_attempt fun r => Iff.rfl).then fun _ => throwsOn_perform fun r h => h
  refine harchives.then fun _ => hcurrent.then fun _ => ?_
  exact (throwsOn_perform fun r h => h).then fun t => throwsOn_pure _

theorem throwsOn_openFile (lf : LogFile) :
    ThrowsOn LogFileCall.Throws False (openFile lf) := by
  have hensure : ThrowsOn LogFileCall.Throws False (ensureParentDirectory lf) := by
    refine (throwsOn_attempt fun r => Iff.rfl).then ?_
    intro there
    cases there with
    | false => exact throwsOn_attempt fun r => Iff.rfl
    | true => exact throwsOn_attempt fun r => Iff.rfl
  refine hensure.then ?_
  intro ok
  cases ok with
  | false => exact throwsOn_pure _
  | true =>
    refine (throwsOn_perform fun r h => h).then ?_
    intro st
    cases st with
    | none => exact throwsOn_pure _
    | some st =>
      refine (throwsOn_perform fun r h => h).then fun _ => ?_
      exact (throwsOn_perform fun r h => h).then fun _ => throwsOn_pure _

theorem throwsOn_openNoLock (plat : Platform) (lf : LogFile) :
    ThrowsOn LogFileCall.Throws False (openNoLock plat lf) := by
  unfold openNoLock
  split_ifs
  · exact throwsOn_pure _
  · refine (throwsOn_needRollBeforeOpen lf).then ?_
    intro need
    cases need with
    | false => exact throwsOn_openFile lf
    | true => exact (throwsOn_roll plat lf).then fun lf => throwsOn_openFile lf

theorem throwsOn_rollCriteriaMet (lf : LogFile) (st : OfStream) (msg : Message) :
    ThrowsOn LogFileCall.Throws False (rollCriteriaMet lf st msg) := by
  have hlarge : ThrowsOn LogFileCall.Throws False (tooLarge lf st) := by
    unfold tooLarge
    split_ifs
    · exact (throwsOn_perform fun r h => h).then fun pos => throwsOn_pure _
    · exact throwsOn_pure _
  refine hlarge.then ?_
  intro large
  cases large with
  | true => exact throwsOn_pure _
  | false =>
    simp only [Bool.false_eq_true, if_false]
    split_ifs
    · exact (throwsOn_perform fun r h => h).then fun t => throwsOn_pure _
    · exact throwsOn_pure _

theorem throwsOn_writeRecord (plat : Platform) (lf : LogFile) (msg : Message) :
    ThrowsOn LogFileCall.Throws False (writeRecord plat lf msg) := by
  unfold writeRecord
  split
  · exact throwsOn_pure _
  · split_ifs
    · exact (throwsOn_perform fun r h => h).then fun written => throwsOn_pure _
    · exact throwsOn_pure _

theorem throwsOn_process (plat : Platform) (lf : LogFile) (msg : Message) :
    ThrowsOn LogFileCall.Throws False (process plat lf msg) := by
  unfold process
  split
  · exact throwsOn_pure _
  · rename_i st hst
    refine (throwsOn_rollCriteriaMet lf st msg).then ?_
    intro met
    cases met with
    | false => exact throwsOn_writeRecord plat lf msg
    | true =>
      refine (throwsOn_perform fun r h => h).then fun _ => ?_
      refine (throwsOn_roll plat _).then fun lf => ?_
      exact (throwsOn_openNoLock plat lf).then fun opened => throwsOn_writeRecord plat opened.2 msg

end LogFileProgram

/-! ### The thread of the file logger -/

namespace LogFilesProgram

variable {plat : Platform}

theorem throwsOn_processPath (plat : Platform) (lfs : LogFiles) (msg : Message) (path : Str)
    (cfg : LogFileConfig) :
    ThrowsOn LogFileCall.Throws False (processPath plat lfs msg path cfg) := by
  unfold processPath
  split
  · rename_i lf hlookup
    exact (LogFileProgram.throwsOn_process plat lf msg).then fun _ => throwsOn_pure _
  · refine (throwsOn_perform fun r h => h).then fun t => ?_
    refine (LogFileProgram.throwsOn_openNoLock plat _).then fun opened => ?_
    exact (LogFileProgram.throwsOn_process plat opened.2 msg).then fun _ => throwsOn_pure _

theorem throwsOn_processPaths (msg : Message) (logPaths : List (Str × LogFileConfig))
    (lfs : LogFiles) :
    ThrowsOn LogFileCall.Throws False (processPaths plat msg logPaths lfs) := by
  induction logPaths generalizing lfs with
  | nil => exact throwsOn_pure _
  | cons entry logPaths ih =>
    obtain ⟨path, cfg⟩ := entry
    refine (throwsOn_processPath plat lfs msg path cfg).then fun first => ?_
    exact (ih first.2).then fun _ => throwsOn_pure _

theorem throwsOn_run (driver : MessageFilterDriver) (regexReplace : Str → Str → Str)
    (msgs : List Message) (lfs : LogFiles) :
    ThrowsOn LogFileCall.Throws False (run plat driver regexReplace msgs lfs) := by
  induction msgs generalizing lfs with
  | nil => exact throwsOn_pure _
  | cons msg msgs ih => exact (throwsOn_processPaths msg _ _).then fun processed => ih processed.2

end LogFilesProgram

/-! ### Runs -/

open LogFileCall (Admits handle)
open LogFile (plainPlatform appLog messageAt)
open LogFiles (anyDriver appFiles)

/-- No call of a run ends with an exception. -/
def NoneThrows (trace : List (CallResult LogFileCall)) : Prop :=
  ∀ c ∈ trace, ¬ LogFileCall.Throws c.op c.result

theorem isSome_iff_noneThrows {α : Type} {plat : Platform} {p : LogFileProgram α}
    {trace : List (CallResult LogFileCall)} {result : Option α}
    (hp : ThrowsOn LogFileCall.Throws False p) (hrun : Runs (Admits plat) p trace result) :
    result.isSome ↔ NoneThrows trace := by
  rw [runs_iff hp hrun]
  exact and_iff_right not_false

/-- Every state of the disk and every choice of failures answers the calls with admitted results. -/
theorem admits_handle (plat : Platform) (env : Env) {ρ : Type} (op : LogFileCall ρ)
    (s : Disk × List Job) : Admits plat op (handle plat env op s).1 := by
  cases op <;> first | rfl | trivial

/-- What the functions of `LogFile` compute are runs. -/
theorem runs_of_disk (plat : Platform) (env : Env) (lf : LogFile) (w : World) (msg : Message) :
    (∃ trace, Runs (Admits plat) (LogFileProgram.openNoLock plat lf) trace
      ((lf.openNoLock plat env w).1.map fun rc => (rc, (lf.openNoLock plat env w).2.1))) ∧
    ∃ trace, Runs (Admits plat) (LogFileProgram.process plat lf msg) trace
      ((lf.process plat env w msg).1.map fun rc => (rc, (lf.process plat env w msg).2.1)) := by
  constructor
  · have hruns := runs_exec (handle plat env) (admits_handle plat env)
      (LogFileProgram.openNoLock plat lf) w.files
    rw [LogFileProgram.exec_openNoLock] at hruns
    exact hruns
  · have hruns := runs_exec (handle plat env) (admits_handle plat env)
      (LogFileProgram.process plat lf msg) w.files
    rw [LogFileProgram.exec_process] at hruns
    exact hruns

/-- **File errors escape exactly when a call throws.**  For every log file and message, and whatever
    results the calls of the file system have, `Open` and `Process` return if no call ends with an
    exception, and throw otherwise; and so does the thread of the `FileLogger`, for any messages. -/
theorem returns_iff (plat : Platform) (driver : MessageFilterDriver)
    (regexReplace : Str → Str → Str) :
    (∀ lf trace result, Runs (Admits plat) (LogFileProgram.openNoLock plat lf) trace result →
      (result.isSome ↔ NoneThrows trace)) ∧
    (∀ lf msg trace result, Runs (Admits plat) (LogFileProgram.process plat lf msg) trace result →
      (result.isSome ↔ NoneThrows trace)) ∧
    ∀ lfs msgs trace result,
      Runs (Admits plat) (LogFilesProgram.run plat driver regexReplace msgs lfs) trace result →
        (result.isSome ↔ NoneThrows trace) := by
  refine ⟨?_, ?_, ?_⟩
  · intro lf trace result hrun
    exact isSome_iff_noneThrows (LogFileProgram.throwsOn_openNoLock plat lf) hrun
  · intro lf msg trace result hrun
    exact isSome_iff_noneThrows (LogFileProgram.throwsOn_process plat lf msg) hrun
  · intro lfs msgs trace result hrun
    exact isSome_iff_noneThrows (LogFilesProgram.throwsOn_run driver regexReplace msgs lfs) hrun

/-- `Open` when the directory of the log is missing and cannot be made. -/
def missingDirectory : List (CallResult LogFileCall) :=
  [⟨.stat (str "/log/app"), none⟩, ⟨.exists (str "/log/"), some false⟩,
   ⟨.create_directories (str "/log/"), none⟩]

/-- `Process` when the log is full, and somebody has removed it. -/
def removedLog : List (CallResult LogFileCall) :=
  [⟨.tellp { node := 0 }, 29⟩, ⟨.close { node := 0 }, ()⟩,
   ⟨.regex (str "app") (str "bz2"), archiveRegex plainPlatform (str "app") (str "bz2")⟩,
   ⟨.directory_iterator (str "/log/"), ⟨[], false⟩⟩,
   ⟨.renameCurrent (str "/log/app") (str "/log/app.0"), none⟩]

/-- A log whose directory can be used, but neither opened nor given permissions. -/
theorem returns_iff_unwritable :
    ∃ result, Runs (Admits plainPlatform) (LogFileProgram.openNoLock plainPlatform appLog)
      [⟨.stat (str "/log/app"), none⟩, ⟨.exists (str "/log/"), some true⟩,
       ⟨.is_directory (str "/log/"), some true⟩, ⟨.open (str "/log/app"), none⟩] result ∧
      result.isSome := by
  have hrun : Runs (Admits plainPlatform) (LogFileProgram.openNoLock plainPlatform appLog)
      [⟨.stat (str "/log/app"), none⟩, ⟨.exists (str "/log/"), some true⟩,
       ⟨.is_directory (str "/log/"), some true⟩, ⟨.open (str "/log/app"), none⟩]
      (some (false, appLog)) := by
    iterate 4 apply Runs.call trivial
    exact .ret _
  refine ⟨_, hrun, ?_⟩
  refine ((returns_iff plainPlatform anyDriver literalRegexReplace).1 _ _ _ hrun).mpr ?_
  intro c hc
  simp only [List.mem_cons, List.not_mem_nil, or_false] at hc
  rcases hc with rfl | rfl | rfl | rfl <;> simp [LogFileCall.Throws]

/-- Errors that end `Open`, `Process` and the thread of the `FileLogger`: a directory that cannot be
    made, and a log that somebody has removed. -/
theorem file_errors_escape :
    Runs (Admits plainPlatform) (LogFileProgram.openNoLock plainPlatform appLog) missingDirectory
      none ∧
    Runs (Admits plainPlatform)
      (LogFileProgram.process plainPlatform { appLog with ofs := some { node := 0 } } (messageAt 2))
      removedLog none ∧
    Runs (Admits plainPlatform)
      (LogFilesProgram.run plainPlatform anyDriver literalRegexReplace [messageAt 1]
        (.configure anyDriver appFiles))
      (⟨.rollTime, 0⟩ :: missingDirectory) none := by
  refine ⟨?_, ?_, ?_⟩
  · iterate 3 apply Runs.call trivial
    exact .raise
  · iterate 2 apply Runs.call trivial
    apply Runs.call rfl
    iterate 2 apply Runs.call trivial
    exact .raise
  · iterate 4 apply Runs.call trivial
    exact .raise

end Mclog
