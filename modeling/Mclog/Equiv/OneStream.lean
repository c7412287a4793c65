import Mclog.Equiv.LogPathCache
import Mclog.Equiv.Recovery

/-!
# One stream for each file

`LogFiles` keeps a log file for every path that `LogPath` has returned, and compares paths as
strings.  The paths returned are those of the first calls with their cache key (`isPathOf_run`), and
such a path is what the entry's pattern and the message's names spell (`freshLogPath_eq_spelling`).
So a file gets one log file over every run exactly when no two of these calls spell it differently
(`oneStreamEach_iff`).
-/

namespace Mclog

open General LogFile

/-! ### Spellings -/

/-- The path that names spell for a pattern: the pattern with the names inserted, under the log
    directory if it does not start at the root.  Without a pattern it is made of host and
    application. -/
def spelling (logDirectory pathPattern hostname appname facility : Str) : Str :=
  if pathPattern = [] then
    str "logs/" ++ hostname ++ slash :: appname
  else
    let text := substitute (emitted hostname) (emitted appname) facility pathPattern
    if text.head? = some slash then text else logDirectory ++ slash :: text

/-- The path spelled for a message and an entry. -/
def spelled (logDirectory : Str) (c : Message × LogFileConfig) : Str :=
  spelling logDirectory c.2.pathPattern c.1.header.origin.hostname.value
    c.1.header.origin.appname.value (facilityName c.1.header.facility)

section

variable {regexReplace : Str → Str → Str} (logDirectory : Str)

/-- What `LogPath` computes for a received message is the path spelled for it. -/
theorem freshLogPath_eq_spelling (hfmt : FormatsConditionals regexReplace) {io : StreamIO}
    {msg : Message} (hmsg : msg.Received io) (cfg : LogFileConfig) :
    freshLogPath regexReplace logDirectory msg cfg.pathPattern = spelled logDirectory (msg, cfg) := by
  obtain ⟨bs, rest, hread⟩ := hmsg
  have hacc := Message.acceptable_of_read io hread
  by_cases hempty : cfg.pathPattern = []
  · simp [freshLogPath, spelled, spelling, hempty]
  have hne : cfg.pathPattern.isEmpty = false := by simpa using hempty
  simp only [freshLogPath, spelled, spelling, hne, Bool.false_eq_true, if_false, if_neg hempty]
  by_cases hp : percent ∈ cfg.pathPattern
  · rw [if_neg (not_not.mpr hp), hfmt _ _ _ _ hacc.hostname hacc.appname]
    exact ite_not _ _ _
  · rw [if_pos hp, substitute_of_notMem _ _ _ _ hp]

/-- `LogPath` never computes a path without a directory. -/
theorem slash_mem_freshLogPath (msg : Message) (pathPattern : Str) :
    slash ∈ freshLogPath regexReplace logDirectory msg pathPattern := by
  unfold freshLogPath
  dsimp only
  split_ifs with hempty hpercent hrc hslash
  · simp
  · simp
  · exact List.mem_of_mem_head? (not_not.mp hrc)
  · exact List.mem_of_mem_head? hslash
  · simp

end

namespace LogFiles

/-! ### The calls that fill the cache -/

section

variable (calls more : List (Message × LogFileConfig)) (c : Message × LogFileConfig)

/-- The key under which the path of a call is looked up. -/
def keyOf (c : Message × LogFileConfig) : LogPathCacheKey :=
  LogPathCacheKey.of c.1 c.2.pathPattern

/-- The first call with its key. -/
def FirstOfKey : Prop := calls.find? (fun d => keyOf d = keyOf c) = some c

instance : Decidable (FirstOfKey calls c) := by
  unfold FirstOfKey
  infer_instance

variable {calls more c}

theorem FirstOfKey.mem (h : FirstOfKey calls c) : c ∈ calls := List.mem_of_find?_eq_some h

/-- A first call stays the first. -/
theorem FirstOfKey.append (h : FirstOfKey calls c) : FirstOfKey (calls ++ more) c := by
  show (calls ++ more).find? _ = some c
  rw [List.find?_append, show calls.find? _ = some c from h, Option.some_or]

/-- A first call of a longer sequence is one of the calls there were, or a new one with a new
    key. -/
theorem FirstOfKey.of_append (h : FirstOfKey (calls ++ more) c) :
    FirstOfKey calls c ∨ c ∈ more ∧ calls.find? (fun d => keyOf d = keyOf c) = none := by
  have happend : (calls ++ more).find? (fun d => keyOf d = keyOf c) = some c := h
  rw [List.find?_append] at happend
  cases hfind : calls.find? (fun d => keyOf d = keyOf c) with
  | some d =>
    rw [hfind, Option.some_or] at happend
    left
    show calls.find? _ = some c
    rw [hfind, happend]
  | none =>
    rw [hfind, Option.none_or] at happend
    exact Or.inr ⟨List.mem_of_find?_eq_some happend, rfl⟩

end

section

variable (driver : MessageFilterDriver) (regexReplace : Str → Str → Str) (logDirectory : Str)
variable {calls : List (Message × LogFileConfig)} {cache : LogPathCache}
variable {cfgs : List LogFileConfig} {msg : Message} {cfg : LogFileConfig}

theorem mem_selections_iff {c : Message × LogFileConfig} :
    c ∈ selections driver cfgs msg ↔
      c.2 ∈ cfgs ∧ driver.accepts c.2.filter msg = true ∧ c.1 = msg := by
  simp only [selections, List.mem_map, List.mem_filter]
  constructor
  · rintro ⟨cfg, ⟨hcfg, haccepts⟩, rfl⟩
    exact ⟨hcfg, haccepts, rfl⟩
  · rintro ⟨hcfg, haccepts, rfl⟩
    exact ⟨c.2, ⟨hcfg, haccepts⟩, rfl⟩

/-- The path for a selected entry is that of a first call, with the calls for the message among
    them. -/
theorem pathFor_eq_first (hcache : CacheOf regexReplace logDirectory calls cache)
    (hcfg : cfg ∈ cfgs) (haccepts : driver.accepts cfg.filter msg = true) :
    ∃ c, FirstOfKey (calls ++ selections driver cfgs msg) c ∧
      pathFor regexReplace logDirectory cache msg cfg =
        freshLogPath regexReplace logDirectory c.1 c.2.pathPattern := by
  obtain ⟨first, hfirst, hpath, -⟩ := logPath_spec regexReplace logDirectory hcache (msg, cfg)
  have hpath : pathFor regexReplace logDirectory cache msg cfg =
      freshLogPath regexReplace logDirectory first.1 first.2.pathPattern := hpath
  have hfirst : (calls ++ [(msg, cfg)]).find? (fun d => keyOf d = keyOf (msg, cfg)) =
      some first := hfirst
  rw [List.find?_append] at hfirst
  cases hfind : calls.find? (fun d => keyOf d = keyOf (msg, cfg)) with
  | some d =>
    rw [hfind, Option.some_or, Option.some.injEq] at hfirst
    subst hfirst
    have hkey : keyOf d = keyOf (msg, cfg) := by simpa using List.find?_some hfind
    have hd : FirstOfKey calls d := by
      rw [FirstOfKey, hkey]
      exact hfind
    exact ⟨d, hd.append, hpath⟩
  | none =>
    rw [hfind, Option.none_or] at hfirst
    obtain rfl : first = (msg, cfg) := by simpa [eq_comm] using hfirst
    -- An entry before this one may have its pattern: then its call is the first.
    have hsome : ((selections driver cfgs msg).find?
        (fun d => keyOf d = keyOf (msg, cfg))).isSome = true := by
      rw [List.find?_isSome]
      exact ⟨(msg, cfg), (mem_selections_iff driver).mpr ⟨hcfg, haccepts, rfl⟩, by simp⟩
    obtain ⟨d, hd⟩ := Option.isSome_iff_exists.mp hsome
    have hkey : keyOf d = keyOf (msg, cfg) := by simpa using List.find?_some hd
    have hmsg : d.1 = msg := ((mem_selections_iff driver).mp (List.mem_of_find?_eq_some hd)).2.2
    have hpattern : d.2.pathPattern = cfg.pathPattern := congrArg LogPathCacheKey.pathPattern hkey
    refine ⟨d, ?_, by rw [hpath, hmsg, hpattern]⟩
    show (calls ++ selections driver cfgs msg).find? _ = some d
    rw [hkey, List.find?_append, hfind, Option.none_or, hd]

/-- The path for a call with a new key is computed for it. -/
theorem pathFor_of_new (hcache : CacheOf regexReplace logDirectory calls cache)
    (hnew : calls.find? (fun d => keyOf d = keyOf (msg, cfg)) = none) :
    pathFor regexReplace logDirectory cache msg cfg =
      freshLogPath regexReplace logDirectory msg cfg.pathPattern := by
  have hlookup : cache.lookup (LogPathCacheKey.of msg cfg.pathPattern) = none := by
    rw [hcache, Option.map_eq_none_iff]
    exact hnew
  rw [pathFor_eq, logPathFromCache, hlookup]
  exact if_pos rfl

end

/-! ### The log files there are -/

section

variable (plat : Platform)

/-- One path of `Process` adds a log file for it, however its calls end. -/
theorem mem_processPath (lfs : LogFiles) (w : World) (d : Delivery) (path path' : Str)
    (cfg : LogFileConfig) :
    path' ∈ (lfs.processPath plat w d path cfg).2.1.logFiles ↔
      path' = path ∨ path' ∈ lfs.logFiles := by
  unfold processPath
  split
  · exact AList.mem_insert _
  · split <;> exact AList.mem_insert _

/-- `Process` adds log files for its paths only. -/
theorem mem_of_mem_processPaths (d : Delivery) {logPaths : List (Str × LogFileConfig)}
    {lfs : LogFiles} {w : World} {path : Str}
    (h : path ∈ (processPaths plat d logPaths lfs w).2.1.logFiles) :
    path ∈ logPaths.map Prod.fst ∨ path ∈ lfs.logFiles := by
  induction logPaths generalizing lfs w with
  | nil => exact Or.inr h
  | cons e logPaths ih =>
    obtain ⟨path₁, cfg⟩ := e
    have hpath := mem_processPath plat lfs w d path₁ path cfg
    have hfirst : path ∈ (lfs.processPath plat w d path₁ cfg).2.1.logFiles →
        path ∈ ((path₁, cfg) :: logPaths).map Prod.fst ∨ path ∈ lfs.logFiles := by
      intro hin
      rcases hpath.mp hin with rfl | hin
      · exact Or.inl (by simp)
      · exact Or.inr hin
    simp only [processPaths] at h
    generalize lfs.processPath plat w d path₁ cfg = r at h hfirst
    obtain ⟨rc, lfs₁, w₁⟩ := r
    cases rc with
    | none => exact hfirst h
    | some rc =>
      rcases ih h with hin | hin
      · exact Or.inl (by simp only [List.map_cons]; exact List.mem_cons_of_mem _ hin)
      · exact hfirst hin

end

/-- The path of a first call. -/
def IsPathOf (regexReplace : Str → Str → Str) (logDirectory : Str)
    (calls : List (Message × LogFileConfig)) (path : Str) : Prop :=
  ∃ c, FirstOfKey calls c ∧ path = freshLogPath regexReplace logDirectory c.1 c.2.pathPattern

/-- The `LogPath` calls made for messages. -/
def callsFor (driver : MessageFilterDriver) (filesConfig : FilesConfig) (msgs : List Message) :
    List (Message × LogFileConfig) :=
  msgs.flatMap (selections driver (configure driver filesConfig).filteredLogConfigs)

section

variable (plat : Platform) (driver : MessageFilterDriver) (regexReplace : Str → Str → Str)
variable (filesConfig : FilesConfig)

theorem callsFor_append (msgs msgs' : List Message) :
    callsFor driver filesConfig (msgs ++ msgs') =
      callsFor driver filesConfig msgs ++ callsFor driver filesConfig msgs' :=
  List.flatMap_append

/-- The messages processed in one event after others. -/
theorem processed_append (events events' : List LogFilesEvent) :
    processed (events ++ events') = processed events ++ processed events' :=
  List.filterMap_append

/-- **The log files of a run** are at paths of first calls. -/
theorem isPathOf_run (w : World) (events : List LogFilesEvent) (path : Str)
    (h : path ∈ (run plat driver regexReplace (configure driver filesConfig, w) events).1.logFiles) :
    IsPathOf regexReplace filesConfig.logDirectory
      (callsFor driver filesConfig (processed events)) path := by
  induction events using List.reverseRecOn with
  | nil => exact absurd h (AList.notMem_empty path)
  | append_singleton events e ih =>
    obtain ⟨hconfig, hconfigs, hcache⟩ :=
      run_cacheOf plat driver regexReplace filesConfig w events
    rw [run_append_singleton] at h
    rw [processed_append, callsFor_append]
    generalize run plat driver regexReplace (configure driver filesConfig, w) events = s at *
    have hbefore : path ∈ s.1.logFiles → IsPathOf regexReplace filesConfig.logDirectory
        (callsFor driver filesConfig (processed events) ++
          callsFor driver filesConfig (processed [e])) path := by
      intro hin
      obtain ⟨c, hc, hpath⟩ := ih hin
      exact ⟨c, hc.append, hpath⟩
    cases e with
    | compressor i => exact hbefore h
    | process d =>
      rcases mem_of_mem_processPaths plat d h with hin | hin
      · rw [(logPathConfigs_spec driver regexReplace _ _ _ _ [] List.nodup_nil).2] at hin
        rcases hin with hin | ⟨cfg, hcfg, haccepts, rfl⟩
        · exact absurd hin List.not_mem_nil
        · rw [hconfig]
          rw [hconfigs] at hcfg
          obtain ⟨c, hc, hpath⟩ :=
            pathFor_eq_first driver regexReplace filesConfig.logDirectory hcache hcfg haccepts
          have hcalls : callsFor driver filesConfig (processed [.process d]) = selections driver
              (configure driver filesConfig).filteredLogConfigs d.msg := by
            simp [callsFor, processed]
          rw [hcalls]
          exact ⟨c, hc, hpath⟩
      · exact hbefore hin

end

/-! ### A run that makes all of them -/

section

variable (plat : Platform) (driver : MessageFilterDriver) (regexReplace : Str → Str → Str)
variable (filesConfig : FilesConfig)

/-- A message whose log files cannot be opened, for want of their directories. -/
def unopenable (msg : Message) : Delivery where
  msg := msg
  openEnv _ := { ensureParentDirectory := some false }

/-- Nothing has been written, and no log file is open. -/
def NothingOpen (s : LogFiles × World) : Prop :=
  s.2.disk = emptyDisk ∧ ∀ path lf, s.1.logFiles.lookup path = some lf → lf.ofs = none

/-- A file that is not on the disk need not be rolled before it is opened. -/
theorem needRollBeforeOpen_emptyDisk (env : Env) (lf : LogFile) :
    lf.needRollBeforeOpen plat env emptyDisk = false := by
  have hdir : ¬ emptyDisk.IsDirectory (key plat lf.path) := by
    rintro ⟨k, hk, -⟩
    exact absurd hk (AList.notMem_empty k)
  have hnone : emptyDisk.find (key plat lf.path) = none := rfl
  simp only [needRollBeforeOpen, hnone]
  rw [decide_eq_false hdir, Bool.false_and]

/-- One path of `Process`, when its log file cannot be opened. -/
theorem processPath_unopenable {s : LogFiles × World} (h : NothingOpen s) (msg : Message)
    {path : Str} (hpath : slash ∈ path) (cfg : LogFileConfig) :
    ∃ s', s.1.processPath plat s.2 (unopenable msg) path cfg = (some false, s') ∧
      NothingOpen s' := by
  obtain ⟨lfs, w⟩ := s
  obtain ⟨hdisk, hclosed⟩ := h
  have hdisk : w.disk = emptyDisk := hdisk
  -- Whatever log file is put at the path is closed.
  have hinsert : ∀ lf : LogFile, lf.ofs = none →
      NothingOpen ({ lfs with logFiles := lfs.logFiles.insert path lf }, w) := by
    intro lf hlf
    refine ⟨hdisk, fun path' lf' hlookup => ?_⟩
    by_cases heq : path' = path
    · subst heq
      obtain rfl : lf = lf' := by simpa using hlookup
      exact hlf
    · exact hclosed path' lf' (by simpa [AList.lookup_insert_ne heq] using hlookup)
  have hprocess : ∀ env (lf : LogFile), lf.ofs = none →
      lf.process plat env w msg = (some false, lf, w) := by
    intro env lf hlf
    unfold LogFile.process
    rw [hlf]
    rfl
  unfold processPath
  cases hlookup : lfs.logFiles.lookup path with
  | some lf =>
    have hlf : lf.ofs = none := hclosed path lf hlookup
    refine ⟨_, ?_, hinsert lf hlf⟩
    simp only [unopenable, hprocess _ lf hlf]
  | none =>
    have hparent : (parentPath path).isEmpty = false := by
      rcases path_cases path with ⟨hno, -⟩ | ⟨q, hq, -⟩
      · exact absurd hpath hno
      · rw [hq]
        simp
    have hopen : (LogFile.of plat path cfg 0).openNoLock plat { ensureParentDirectory := some false }
        w = (some false, LogFile.of plat path cfg 0, w) := by
      unfold openNoLock
      rw [hdisk, needRollBeforeOpen_emptyDisk]
      simp [LogFile.of, openFile, hparent]
    refine ⟨_, ?_, hinsert (LogFile.of plat path cfg 0) rfl⟩
    simp only [unopenable, hopen, hprocess _ (LogFile.of plat path cfg 0) rfl]

/-- `Process` goes through all its paths, when none of its log files can be opened. -/
theorem mem_processPaths_unopenable (msg : Message) {logPaths : List (Str × LogFileConfig)}
    (hslash : ∀ path ∈ logPaths.map Prod.fst, slash ∈ path) {s : LogFiles × World}
    (h : NothingOpen s) :
    let s' := (processPaths plat (unopenable msg) logPaths s.1 s.2).2
    NothingOpen s' ∧ ∀ path, path ∈ logPaths.map Prod.fst ∨ path ∈ s.1.logFiles →
      path ∈ s'.1.logFiles := by
  induction logPaths generalizing s with
  | nil => exact ⟨h, fun path hin => hin.resolve_left List.not_mem_nil⟩
  | cons e logPaths ih =>
    obtain ⟨path, cfg⟩ := e
    obtain ⟨s₁, hfirst, hopen₁⟩ := processPath_unopenable plat h msg (hslash path (by simp)) cfg
    obtain ⟨hopen', hmem⟩ := ih (fun path' hin => hslash path' (by simp [hin])) hopen₁
    have hkeys := fun path' => mem_processPath plat s.1 s.2 (unopenable msg) path path' cfg
    simp only [hfirst] at hkeys
    simp only [processPaths, hfirst]
    refine ⟨hopen', fun path' hin => hmem path' ?_⟩
    rw [hkeys]
    simp only [List.map_cons, List.mem_cons] at hin
    tauto

/-- **Every first call** has its log file in a run where no log file can be opened. -/
theorem mem_run_unopenable (msgs : List Message) :
    let s := run plat driver regexReplace (configure driver filesConfig, { disk := emptyDisk })
      (msgs.map fun msg => .process (unopenable msg))
    NothingOpen s ∧ ∀ path, IsPathOf regexReplace filesConfig.logDirectory
      (callsFor driver filesConfig msgs) path → path ∈ s.1.logFiles := by
  induction msgs using List.reverseRecOn with
  | nil =>
    refine ⟨⟨rfl, fun path lf hlookup => absurd hlookup (by simp [run, configure])⟩, ?_⟩
    rintro path ⟨c, hc, -⟩
    exact absurd hc.mem List.not_mem_nil
  | append_singleton msgs msg ih =>
    obtain ⟨hconfig, hconfigs, hcache⟩ := run_cacheOf plat driver regexReplace filesConfig
      { disk := emptyDisk } (msgs.map fun msg => .process (unopenable msg))
    have hprocessed : processed (msgs.map fun msg => .process (unopenable msg)) = msgs := by
      simp [processed, unopenable]
    rw [hprocessed] at hcache
    have hcalls : callsFor driver filesConfig [msg] =
        selections driver (configure driver filesConfig).filteredLogConfigs msg := by
      simp [callsFor]
    simp only [List.map_append, List.map_cons, List.map_nil, run_append_singleton]
    rw [callsFor_append, hcalls]
    generalize run plat driver regexReplace (configure driver filesConfig, { disk := emptyDisk })
      (msgs.map fun msg => .process (unopenable msg)) = s at *
    obtain ⟨hopen, hmem⟩ := ih
    have hroutes := (logPathConfigs_spec driver regexReplace s.1.filesConfig.logDirectory msg
      s.1.filteredLogConfigs s.1.logPathCache [] List.nodup_nil).2
    have hslash : ∀ path ∈ (routes driver regexReplace s.1 msg).2.map Prod.fst, slash ∈ path := by
      intro path hin
      rcases (hroutes path).mp hin with hin | ⟨cfg, hcfg, haccepts, rfl⟩
      · exact absurd hin List.not_mem_nil
      · rw [hconfigs] at hcfg
        rw [hconfig]
        obtain ⟨c, -, hpath⟩ :=
          pathFor_eq_first driver regexReplace filesConfig.logDirectory hcache hcfg haccepts
        rw [hpath]
        exact slash_mem_freshLogPath _ _ _
    have hopen' : NothingOpen ((routes driver regexReplace s.1 msg).1, s.2) := hopen
    obtain ⟨hopen'', hkeys⟩ := mem_processPaths_unopenable plat msg hslash hopen'
    refine ⟨hopen'', ?_⟩
    rintro path ⟨c, hc, hpath⟩
    apply hkeys
    rcases hc.of_append with hc | ⟨hin, hnew⟩
    · exact Or.inr (hmem path ⟨c, hc, hpath⟩)
    · obtain ⟨hcfg, haccepts, rfl⟩ := (mem_selections_iff driver).mp hin
      refine Or.inl ((hroutes path).mpr (Or.inr ⟨c.2, hconfigs ▸ hcfg, haccepts, ?_⟩))
      rw [hconfig, pathFor_of_new regexReplace filesConfig.logDirectory hcache hnew]
      exact hpath

end

/-! ### One log file for each file -/

/-- No two log files denote one file: those at different paths have paths of different normal
    forms. -/
def OneStreamEach (lfs : LogFiles) : Prop :=
  ∀ path path' lf lf', lfs.logFiles.lookup path = some lf → lfs.logFiles.lookup path' = some lf' →
    locate slash dot lf.path = locate slash dot lf'.path → path = path'

/-- Of the calls for the messages, no two that are the first with their keys spell one file
    differently. -/
def SpelledOnce (driver : MessageFilterDriver) (filesConfig : FilesConfig) (msgs : List Message) :
    Prop :=
  ∀ c ∈ callsFor driver filesConfig msgs, ∀ c' ∈ callsFor driver filesConfig msgs,
    FirstOfKey (callsFor driver filesConfig msgs) c →
    FirstOfKey (callsFor driver filesConfig msgs) c' →
    locate slash dot (spelled filesConfig.logDirectory c) =
      locate slash dot (spelled filesConfig.logDirectory c') →
    spelled filesConfig.logDirectory c = spelled filesConfig.logDirectory c'

instance (driver : MessageFilterDriver) (filesConfig : FilesConfig) (msgs : List Message) :
    Decidable (SpelledOnce driver filesConfig msgs) := by
  unfold SpelledOnce
  infer_instance

section

variable (plat : Platform) (driver : MessageFilterDriver) {regexReplace : Str → Str → Str}

/-- **One file, one stream, exactly when** no two calls that are the first with their keys spell a
    file differently: then, and only then, no two log files denote one file in any state that is
    reached while the messages are processed. -/
theorem oneStreamEach_iff (hfmt : FormatsConditionals regexReplace) (io : StreamIO)
    (filesConfig : FilesConfig) (msgs : List Message) (hrecv : ∀ m ∈ msgs, m.Received io) :
    (∀ w events, processed events <+: msgs →
        OneStreamEach (run plat driver regexReplace (configure driver filesConfig, w) events).1) ↔
      SpelledOnce driver filesConfig msgs := by
  have hspelled : ∀ c ∈ callsFor driver filesConfig msgs,
      freshLogPath regexReplace filesConfig.logDirectory c.1 c.2.pathPattern =
        spelled filesConfig.logDirectory c := by
    intro c hc
    obtain ⟨m, hm, hsel⟩ := List.mem_flatMap.mp hc
    obtain ⟨-, -, rfl⟩ := (mem_selections_iff driver).mp hsel
    exact freshLogPath_eq_spelling filesConfig.logDirectory hfmt (hrecv _ hm) c.2
  constructor
  · intro hone c hc c' hc' hfirst hfirst' hlocate
    -- The run that makes a log file for each of the two.
    obtain ⟨-, hmem⟩ := mem_run_unopenable plat driver regexReplace filesConfig msgs
    have hprocessed : processed (msgs.map fun msg => .process (unopenable msg)) = msgs := by
      simp [processed, unopenable]
    have hkeyed := @keyed_run plat driver regexReplace filesConfig { disk := emptyDisk }
      (msgs.map fun msg => .process (unopenable msg))
    obtain ⟨lf, hlf⟩ := AList.lookup_isSome.mpr (hmem _ ⟨c, hfirst, rfl⟩) |>
      Option.isSome_iff_exists.mp
    obtain ⟨lf', hlf'⟩ := AList.lookup_isSome.mpr (hmem _ ⟨c', hfirst', rfl⟩) |>
      Option.isSome_iff_exists.mp
    have hpath := hone _ _ (by rw [hprocessed]) _ _ lf lf' hlf hlf' (by
      rw [hkeyed _ _ hlf, hkeyed _ _ hlf', hspelled c hc, hspelled c' hc']
      exact hlocate)
    rwa [hspelled c hc, hspelled c' hc'] at hpath
  · intro honce w events hevents path path' lf lf' hlf hlf' hlocate
    obtain ⟨more, rfl⟩ := hevents
    have hkeyed := @keyed_run plat driver regexReplace filesConfig w events
    rw [hkeyed path lf hlf, hkeyed path' lf' hlf'] at hlocate
    have hcall : ∀ path lf, (run plat driver regexReplace
        (configure driver filesConfig, w) events).1.logFiles.lookup path = some lf →
        ∃ c, FirstOfKey (callsFor driver filesConfig (processed events ++ more)) c ∧
          path = spelled filesConfig.logDirectory c := by
      intro path lf hlf
      have hin := AList.lookup_isSome.mp (by rw [hlf]; rfl)
      obtain ⟨c, hc, hpath⟩ := isPathOf_run plat driver regexReplace filesConfig w events path hin
      have hfirst : FirstOfKey (callsFor driver filesConfig (processed events ++ more)) c := by
        rw [callsFor_append]
        exact hc.append
      exact ⟨c, hfirst, hpath.trans (hspelled c hfirst.mem)⟩
    obtain ⟨c, hc, rfl⟩ := hcall path lf hlf
    obtain ⟨c', hc', rfl⟩ := hcall path' lf' hlf'
    exact honce c hc.mem c' hc'.mem hc hc' hlocate

end

/-- A log file for every host, and one for an application. -/
def hostFiles : FilesConfig where
  logDirectory := str "/log"
  logs := [{ pathPattern := str "%H/app" }, { pathPattern := str "app" }]

/-- A message from a host with an ordinary name. -/
theorem oneStreamEach_iff_host :
    (∀ w events, processed events <+: [messageWith .user .info] →
        OneStreamEach (run plainPlatform anyDriver formattingRegexReplace
          (configure anyDriver hostFiles, w) events).1) ∧
      SpelledOnce anyDriver hostFiles [messageWith .user .info] := by
  have honce : SpelledOnce anyDriver hostFiles [messageWith .user .info] := by decide
  refine ⟨(oneStreamEach_iff plainPlatform anyDriver formatsConditionals_formattingRegexReplace
    prefixedStreams hostFiles [messageWith .user .info] ?_).mpr honce, honce⟩
  intro m hm
  obtain rfl : m = messageWith .user .info := by simpa using hm
  exact received_of_acceptable (by decide)

/-- **A file with two streams.**  The decoder delivers a message whose hostname is `.`.  Its two
    paths, `/log/./app` and `/log/app`, are those of two log files, and the one file has the record
    twice. -/
theorem two_streams_for_dot :
    let msg := messageFrom ⟨str ".", by decide⟩ ⟨str "app", by decide⟩
    let s := run plainPlatform anyDriver formattingRegexReplace
      (configure anyDriver hostFiles, { disk := emptyDisk }) [.process { msg }]
    FormatsConditionals formattingRegexReplace ∧
      Message.read prefixedStreams (msg.write prefixedStreams) = some (msg, []) ∧
      s.2.disk.read [str "log", str "app"] =
        some (record plainPlatform .text msg ++ record plainPlatform .text msg) ∧
      ¬ OneStreamEach s.1 := by
  intro msg s
  have hread := Message.read_write_of_acceptable prefixedStreams (m := msg) (by decide) []
  rw [List.append_nil] at hread
  refine ⟨formatsConditionals_formattingRegexReplace, hread, by decide, fun hone => ?_⟩
  have hlf : (s.1.logFiles.lookup (str "/log/./app")).map LogFile.path =
      some (str "/log/./app") := by decide
  have hlf' : (s.1.logFiles.lookup (str "/log/app")).map LogFile.path = some (str "/log/app") := by
    decide
  obtain ⟨lf, hlookup, hpath⟩ := Option.map_eq_some_iff.mp hlf
  obtain ⟨lf', hlookup', hpath'⟩ := Option.map_eq_some_iff.mp hlf'
  have hsame : str "/log/./app" = str "/log/app" := by
    refine hone _ _ lf lf' hlookup hlookup' ?_
    rw [hpath, hpath']
    decide
  exact absurd hsame (by decide)

end LogFiles

end Mclog
