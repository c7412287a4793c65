import Mclog.Equiv.Routing
import Mclog.Logger

/-!
# When logging blocks on itself

A thread in `Logger::Log` holds `_sinksMtx` while a sink processes the message, so it blocks for ever
when the sink logs with a severity that the logger lets through (`machine_eq_none_iff`).  The queues
and streams do not log.  A log file does when it rolls (`processLogged_eq_nil_iff`), and a `LogFiles`
also when it opens a log file, which it does for the first message to each path.  So a call for which
no sink is due for either does not block (`nothingLogged_of_not_due`).
-/

namespace Mclog

open General

namespace LogFile

variable (plat : Platform) (env : Env) (modes : OpenModes) (lf : LogFile) (w : World)
  (msg : Message)

/-- **A log file that processes a message logs exactly when it rolls.** -/
theorem processLogged_eq_nil_iff :
    lf.processLogged plat env modes w msg = [] ↔
      (lf.ofs.isSome = true → lf.rollCriteriaMet env msg = true →
        ((lf.close env w).1.roll plat env (lf.close env w).2).1 = false) := by
  unfold processLogged
  by_cases hdue : lf.ofs.isSome = true ∧ lf.rollCriteriaMet env msg = true
  · rw [if_pos hdue]
    simp only [rollLogged]
    cases hroll : ((lf.close env w).1.roll plat env (lf.close env w).2).1 with
    | true => simp [hdue]
    | false => simp
  · rw [if_neg hdue]
    simp only [true_iff]
    intro hopen hmet
    exact absurd ⟨hopen, hmet⟩ hdue

/-- The file is open, and the message is one that it rolls for. -/
def Due : Prop := lf.ofs.isSome = true ∧ lf.rollCriteriaMet env msg = true

variable {plat env modes lf w msg}

theorem processLogged_of_not_due (h : ¬lf.Due env msg) :
    lf.processLogged plat env modes w msg = [] := by
  rw [processLogged_eq_nil_iff]
  intro hopen hmet
  exact absurd ⟨hopen, hmet⟩ h

end LogFile

namespace LogFiles

section

variable (driver : MessageFilterDriver) (regexReplace : Str → Str → Str)

/-- A path of the message has no log file yet, or one that is due for a roll. -/
def Due (lfs : LogFiles) (call : SinkCall) (msg : Message) : Prop :=
  ∃ r ∈ (routes driver regexReplace lfs msg).2, ∀ lf, lfs.logFiles.lookup r.1 = some lf →
    lf.Due (call.processEnv r.1) msg

variable {plat : Platform} {driver regexReplace}

/-- Log files that are there and not due for a roll log nothing. -/
theorem pathsLogged_of_not_due {call : SinkCall} {msg : Message}
    {logPaths : List (Str × LogFileConfig)} (hnodup : (logPaths.map Prod.fst).Nodup)
    {lfs : LogFiles} {w : World}
    (h : ∀ r ∈ logPaths, ∃ lf, lfs.logFiles.lookup r.1 = some lf ∧
      ¬lf.Due (call.processEnv r.1) msg) :
    ∀ c ∈ pathsLogged plat call msg logPaths lfs w, c.2 = [] := by
  induction logPaths generalizing lfs w with
  | nil => exact List.forall_mem_nil _
  | cons r logPaths ih =>
    obtain ⟨path, cfg⟩ := r
    obtain ⟨hnot, hnodup'⟩ := List.nodup_cons.mp hnodup
    obtain ⟨lf, hlookup, hdue⟩ := h (path, cfg) List.mem_cons_self
    intro c hc
    rcases List.mem_append.mp hc with hc | hc
    · unfold pathLogged at hc
      simp only [hlookup, List.map_singleton, List.mem_singleton] at hc
      rw [hc]
      exact LogFile.processLogged_of_not_due hdue
    · -- The log files of the other paths are as they were.
      unfold processPath at hc
      simp only [hlookup] at hc
      generalize lf.process plat ((call.delivery msg).processEnv path) w (call.delivery msg).msg = p
        at hc
      obtain ⟨rc, lf', w'⟩ := p
      cases rc with
      | none => cases hc
      | some rc =>
        refine ih hnodup' (fun r' hr' => ?_) c hc
        have hne : r'.1 ≠ path := by
          intro heq
          apply hnot
          show path ∈ _
          rw [← heq]
          exact List.mem_map_of_mem hr'
        rw [AList.lookup_insert_ne hne]
        exact h r' (List.mem_cons_of_mem _ hr')

theorem processLogged_of_not_due {lfs : LogFiles} {call : SinkCall} {msg : Message}
    (h : ¬lfs.Due driver regexReplace call msg) (w : World) :
    (lfs.processLogged plat driver regexReplace w call msg).flatMap Prod.snd = [] := by
  obtain ⟨hnodup, -⟩ := logPathConfigs_spec driver regexReplace lfs.filesConfig.logDirectory msg
    lfs.filteredLogConfigs lfs.logPathCache [] List.nodup_nil
  rw [List.flatMap_eq_nil_iff]
  apply pathsLogged_of_not_due hnodup
  intro r hr
  have hthere := not_exists.mp h r
  push Not at hthere
  exact hthere hr

end

end LogFiles

section

variable (driver : MessageFilterDriver) (regexReplace : Str → Str → Str)

/-- A log file of the sink is due for a roll, or has to be opened. -/
def Sink.Due (call : SinkCall) (msg : Message) : Sink → Prop
  | .logFile lf => lf.Due (call.processEnv lf.path) msg
  | .logFiles lfs => lfs.Due driver regexReplace call msg
  | _ => False

variable {driver regexReplace}

theorem Sink.logged_of_not_due {plat : Platform} {call : SinkCall} {msg : Message} {sink : Sink}
    (h : ¬sink.Due driver regexReplace call msg) (w : World) :
    sink.logged plat driver regexReplace w call msg = [] := by
  cases sink with
  | logFile lf => exact LogFile.processLogged_of_not_due h
  | logFiles lfs => exact LogFiles.processLogged_of_not_due h w
  | fileLogger | loopbackSender | multicastSender | ostreamSink | syslogSink => rfl

end

namespace Logger

variable (lg : Logger)

/-! ### The locks of a sink -/

theorem balanced_mclog (severity : Severity) : LockAction.Balanced (lg.mclog severity) := by
  unfold mclog
  split_ifs
  · exact .nil
  · exact .guarded _ .nil

/-- With `_sinksMtx` held, `MCLOG` blocks unless `Log` returns early. -/
theorem run_mclog_eq_none {held : List Mutex} (hheld : .sinksMtx ∈ held) (severity : Severity) :
    LockAction.run held (lg.mclog severity) = none ↔ ¬ lg.ReturnsEarly severity := by
  unfold mclog
  split_ifs with hearly
  · simp [hearly, LockAction.run]
  · rw [LockAction.run_guarded_eq_none _ _ .nil]
    simp [hearly, hheld]

theorem balanced_flatMap_mclog (severities : List Severity) :
    LockAction.Balanced (severities.flatMap lg.mclog) :=
  .flatMap _ fun severity _ => lg.balanced_mclog severity

theorem run_flatMap_mclog_eq_none {held : List Mutex} (hheld : .sinksMtx ∈ held)
    (severities : List Severity) :
    LockAction.run held (severities.flatMap lg.mclog) = none ↔
      ∃ severity ∈ severities, ¬ lg.ReturnsEarly severity := by
  rw [LockAction.run_flatMap_eq_none _ _ fun severity _ => lg.balanced_mclog severity]
  simp only [lg.run_mclog_eq_none hheld]

section

variable (plat : Platform) (driver : MessageFilterDriver) (regexReplace : Str → Str → Str)

theorem balanced_actions (i : Nat) (w : World) (call : SinkCall) (msg : Message) (sink : Sink) :
    LockAction.Balanced (sink.actions plat driver regexReplace i lg.mclog w call msg) := by
  cases sink with
  | logFile lf => exact .guarded _ (lg.balanced_flatMap_mclog _)
  | logFiles lfs => exact .guarded _ (.flatMap _ fun c _ => .guarded _ (lg.balanced_flatMap_mclog _))
  | ostreamSink => exact .guarded _ .nil
  | fileLogger => exact .nil
  | loopbackSender => exact .nil
  | multicastSender => exact .nil
  | syslogSink => exact .nil

/-- **A sink blocks exactly when it logs** with a severity that the logger lets through. -/
theorem run_actions_eq_none {held : List Mutex} (hsinksMtx : .sinksMtx ∈ held) (i : Nat)
    (hsink : .sink i ∉ held) (hlogFile : ∀ path, .logFile i path ∉ held) (w : World)
    (call : SinkCall) (msg : Message) (sink : Sink) :
    LockAction.run held (sink.actions plat driver regexReplace i lg.mclog w call msg) = none ↔
      ∃ severity ∈ sink.logged plat driver regexReplace w call msg,
        ¬ lg.ReturnsEarly severity := by
  have hinside : ∀ m : Mutex, .sinksMtx ∈ m :: held := fun m => List.mem_cons_of_mem _ hsinksMtx
  cases sink with
  | logFile lf =>
    simp only [Sink.actions, Sink.logged]
    rw [LockAction.run_guarded_eq_none _ _ (lg.balanced_flatMap_mclog _),
      lg.run_flatMap_mclog_eq_none (hinside _)]
    simp [hsink]
  | logFiles lfs =>
    simp only [Sink.actions, Sink.logged]
    have hbalanced : ∀ c ∈ lfs.processLogged plat driver regexReplace w call msg,
        LockAction.Balanced (LockAction.guarded (.logFile i c.1) (c.2.flatMap lg.mclog)) :=
      fun c _ => .guarded _ (lg.balanced_flatMap_mclog _)
    rw [LockAction.run_guarded_eq_none _ _ (.flatMap _ hbalanced),
      LockAction.run_flatMap_eq_none _ _ hbalanced]
    -- The log files' own mutexes are free.
    have hone : ∀ c : Str × List Severity,
        LockAction.run (.sink i :: held) (LockAction.guarded (.logFile i c.1)
          (c.2.flatMap lg.mclog)) = none ↔ ∃ severity ∈ c.2, ¬ lg.ReturnsEarly severity := by
      intro c
      rw [LockAction.run_guarded_eq_none _ _ (lg.balanced_flatMap_mclog _),
        lg.run_flatMap_mclog_eq_none (List.mem_cons_of_mem _ (hinside _))]
      simp [hlogFile]
    simp only [hone, hsink, false_or, List.mem_flatMap]
    constructor
    · rintro ⟨c, hc, severity, hseverity, hloud⟩
      exact ⟨severity, ⟨c, hc, hseverity⟩, hloud⟩
    · rintro ⟨severity, ⟨c, hc, hseverity⟩, hloud⟩
      exact ⟨c, hc, severity, hseverity, hloud⟩
  | ostreamSink =>
    simp only [Sink.actions, Sink.logged]
    rw [LockAction.run_guarded_eq_none _ _ .nil]
    simp [hsink, LockAction.run]
  | fileLogger => simp [Sink.actions, Sink.logged, LockAction.run]
  | loopbackSender => simp [Sink.actions, Sink.logged, LockAction.run]
  | multicastSender => simp [Sink.actions, Sink.logged, LockAction.run]
  | syslogSink => simp [Sink.actions, Sink.logged, LockAction.run]

/-! ### The logger -/

/-- A call of `Log` returns early, or no sink that it hands the message to logs with a severity that
    the logger lets through. -/
def NothingLogged (s : SinkState) (c : LogCall) : Prop :=
  lg.ReturnsEarly c.severity ∨
    ∀ t ∈ lg.turns plat driver regexReplace s c,
      ∀ severity ∈ t.sink.logged plat driver regexReplace t.world t.call (lg.logmsg c),
        lg.ReturnsEarly severity

instance (s : SinkState) (c : LogCall) :
    Decidable (lg.NothingLogged plat driver regexReplace s c) := by
  unfold NothingLogged
  infer_instance

/-- The turns of different objects find them as they were before the call. -/
theorem processSinks_turns {msg : Message} {calls : Nat → SinkCall} {sinks : List Nat}
    (hnodup : sinks.Nodup) (k : Nat) (s : SinkState) {t : Turn}
    (ht : t ∈ (processSinks plat driver regexReplace msg calls sinks k s).1) :
    ∃ j i, sinks[j]? = some i ∧ t.sink = s.objects i ∧ t.call = calls (k + j) := by
  induction sinks generalizing k s with
  | nil => cases ht
  | cons i sinks ih =>
    obtain ⟨hnot, hnodup'⟩ := List.nodup_cons.mp hnodup
    unfold processSinks at ht
    dsimp only at ht
    have hfirst : ∃ j i', (i :: sinks)[j]? = some i' ∧
        (⟨i, s.objects i, s.world, calls k⟩ : Turn).sink = s.objects i' ∧
          (⟨i, s.objects i, s.world, calls k⟩ : Turn).call = calls (k + j) := ⟨0, i, rfl, rfl, rfl⟩
    generalize (s.objects i).process plat driver regexReplace s.world (calls k) msg = p at ht
    obtain ⟨rc, sink, w⟩ := p
    cases rc with
    | none =>
      rw [List.mem_singleton.mp ht]
      exact hfirst
    | some rc =>
      rcases List.mem_cons.mp ht with rfl | ht
      · exact hfirst
      · obtain ⟨j, i', hi', hsink, hcall⟩ := ih hnodup' (k + 1) _ ht
        refine ⟨j + 1, i', hi', ?_, ?_⟩
        · -- The first turn was that of another object, which left this one alone.
          have hne : i' ≠ i := by
            rintro rfl
            exact hnot (List.mem_of_getElem? hi')
          rw [hsink]
          exact Function.update_of_ne hne _ _
        · rw [hcall, Nat.add_right_comm, Nat.add_assoc]

/-- **No sink is due.**  If no object is a sink twice, and before the call no sink has a log file that
    is due for a roll or has to be opened for the message, then nothing is logged. -/
theorem nothingLogged_of_not_due {s : SinkState} {c : LogCall} (hnodup : lg.sinks.Nodup)
    (h : ∀ j i, lg.sinks[j]? = some i →
      ¬(s.objects i).Due driver regexReplace (c.calls j) (lg.logmsg c)) :
    lg.NothingLogged plat driver regexReplace s c := by
  refine Or.inr fun t ht severity hseverity => ?_
  obtain ⟨j, i, hi, hsink, hcall⟩ := processSinks_turns plat driver regexReplace hnodup 0 s ht
  rw [Nat.zero_add] at hcall
  rw [hsink, hcall, Sink.logged_of_not_due (h j i hi)] at hseverity
  cases hseverity

/-- **When a call blocks**: exactly when it gets to the sinks, and one of them logs. -/
theorem machine_eq_none_iff (s : SinkState) (c : LogCall) :
    lg.machine plat driver regexReplace s c = none ↔
      ¬ lg.NothingLogged plat driver regexReplace s c := by
  have hmachine : lg.machine plat driver regexReplace s c = none ↔
      LockAction.run (c.held.map .other) (lg.log plat driver regexReplace s c).1 = none := by
    simp [machine]
  rw [hmachine, NothingLogged, not_or]
  by_cases hearly : lg.ReturnsEarly c.severity
  · have hnone : (lg.log plat driver regexReplace s c).1 = [] := by
      unfold log
      rcases hearly with hsilent | hclosed
      · rw [if_pos hsilent]
      · rw [if_pos hclosed]
        split_ifs <;> rfl
    simp [hnone, hearly, LockAction.run]
  · have hlocked : (lg.log plat driver regexReplace s c).1 = LockAction.guarded .sinksMtx
        ((lg.turns plat driver regexReplace s c).flatMap fun t => t.sink.actions plat driver
          regexReplace t.i lg.mclog t.world t.call (lg.logmsg c)) := by
      unfold ReturnsEarly at hearly
      rw [not_or] at hearly
      unfold log
      rw [if_neg hearly.1, if_neg hearly.2]
      rfl
    have hbalanced : ∀ t ∈ lg.turns plat driver regexReplace s c, LockAction.Balanced
        (t.sink.actions plat driver regexReplace t.i lg.mclog t.world t.call (lg.logmsg c)) :=
      fun t _ => lg.balanced_actions plat driver regexReplace _ _ _ _ _
    rw [hlocked, LockAction.run_guarded_eq_none _ _ (.flatMap _ hbalanced),
      LockAction.run_flatMap_eq_none _ _ hbalanced]
    have hturn : ∀ t : Turn, LockAction.run (.sinksMtx :: c.held.map .other)
        (t.sink.actions plat driver regexReplace t.i lg.mclog t.world t.call (lg.logmsg c)) =
          none ↔ ∃ severity ∈ t.sink.logged plat driver regexReplace t.world t.call (lg.logmsg c),
            ¬ lg.ReturnsEarly severity :=
      fun t => lg.run_actions_eq_none plat driver regexReplace (by simp) t.i (by simp)
        (fun path => by simp) t.world t.call (lg.logmsg c) t.sink
    have hheld : Mutex.sinksMtx ∉ c.held.map Mutex.other := by simp
    simp only [hturn, hheld, false_or, hearly, not_false_eq_true, true_and]
    push Not
    rfl

/-- **Logging does not block on itself while no sink logs.**  Take a logger with any sinks, in any
    state, and calls of `Log` with any messages and any results of system calls such that no sink
    they get to logs with a severity that the logger lets through.  None of them blocks, and in the
    state they lead to a further call blocks exactly when some sink does. -/
theorem log_blocks_iff (start : SinkState) (calls : List LogCall)
    (h : (lg.machine plat driver regexReplace).Meets (lg.NothingLogged plat driver regexReplace)
      start calls) :
    ∃ s out, (lg.machine plat driver regexReplace).run start calls = some (s, out) ∧
      ∀ c, lg.machine plat driver regexReplace s c = none ↔
        ¬ lg.NothingLogged plat driver regexReplace s c := by
  have hstep : ∀ s c, True → lg.NothingLogged plat driver regexReplace s c →
      ∃ s' out, lg.machine plat driver regexReplace s c = some (s', out) ∧ True := by
    intro s c _ hnothing
    cases hm : lg.machine plat driver regexReplace s c with
    | none => exact absurd hnothing ((lg.machine_eq_none_iff plat driver regexReplace s c).mp hm)
    | some r => exact ⟨r.1, r.2, rfl, trivial⟩
  obtain ⟨s, out, hrun, -⟩ := (lg.machine plat driver regexReplace).run_invariant (I := fun _ => True)
    hstep calls start trivial h
  exact ⟨s, out, hrun, lg.machine_eq_none_iff plat driver regexReplace s⟩

end

/-! ### A log file that rolls -/

/-- A logger with one sink that logs messages of all severities. -/
def oneSinkLogger : Logger where
  origin := ⟨⟨str "host", length_host_le⟩, ⟨str "app", length_app_le⟩, 1⟩
  facility := .user
  minimumSeverity := .debug
  sinks := [0]

/-- A message at the given severity, when the log file has the given size. -/
def callAt (severity : Severity) (tellp : Int) : LogCall where
  severity := severity
  text := ⟨str "text", length_text_le⟩
  timestamp := ⟨1⟩
  calls _ := { processEnv := fun _ => { tellp } }

/-- The logger's sink is a log file that has been opened and rolls before every message but the
    first. -/
def openLogFile : SinkState :=
  let (_, lf, w) := LogFile.appLog.openNoLock LogFile.plainPlatform {} { disk := LogFile.emptyDisk }
  ⟨fun _ => .logFile lf, w⟩

/-- The logger's sink is a `LogFiles` that has opened no log file. -/
def freshLogFiles : SinkState :=
  ⟨fun _ => .logFiles (LogFiles.configure LogFiles.anyDriver LogFiles.appFiles),
    { disk := LogFile.emptyDisk }⟩

/-- A logger with a log file that does not roll. -/
theorem log_blocks_iff_openLogFile :
    ∃ s out, (oneSinkLogger.machine LogFile.plainPlatform LogFiles.anyDriver
        literalRegexReplace).run openLogFile [callAt .info 0] = some (s, out) ∧
      ∀ c, oneSinkLogger.machine LogFile.plainPlatform LogFiles.anyDriver literalRegexReplace s c =
          none ↔
        ¬ oneSinkLogger.NothingLogged LogFile.plainPlatform LogFiles.anyDriver literalRegexReplace
          s c :=
  oneSinkLogger.log_blocks_iff LogFile.plainPlatform LogFiles.anyDriver literalRegexReplace
    openLogFile [callAt .info 0] (by decide)

/-- **A log file that rolls blocks its thread.**  The second message to an open log file makes it
    roll, and the thread that logs it locks `_sinksMtx` again.  With a `LogFiles` as the sink the
    first message does, since it opens a log file. -/
theorem rolling_logFile_blocks :
    ((oneSinkLogger.machine LogFile.plainPlatform LogFiles.anyDriver literalRegexReplace).run
        openLogFile [callAt .info 0]).map (·.2) = some [some true] ∧
      (oneSinkLogger.machine LogFile.plainPlatform LogFiles.anyDriver literalRegexReplace).run
        openLogFile [callAt .info 0, callAt .info 29] = none ∧
      (oneSinkLogger.machine LogFile.plainPlatform LogFiles.anyDriver literalRegexReplace).run
        freshLogFiles [callAt .info 0] = none := by
  refine ⟨by decide, ?_, ?_⟩
  · have hnone : ((oneSinkLogger.machine LogFile.plainPlatform LogFiles.anyDriver
        literalRegexReplace).run openLogFile [callAt .info 0, callAt .info 29]).isNone = true := by
      decide
    exact Option.isNone_iff_eq_none.mp hnone
  · have hnone : ((oneSinkLogger.machine LogFile.plainPlatform LogFiles.anyDriver
        literalRegexReplace).run freshLogFiles [callAt .info 0]).isNone = true := by
      decide
    exact Option.isNone_iff_eq_none.mp hnone

end Logger

end Mclog
