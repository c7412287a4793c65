import Mclog.Equiv.Routing

/-!
# What a log file does after a failure

A log file stays in the map of `LogFiles` whatever becomes of it.  After a failed open it is closed,
and `Process` does not open it again; after a failed write its stream is bad, and nothing clears it
but a roll.  So a message is logged at a path exactly when the log file there is `Usable`, however
the file operations made for the message itself would go (`process_recovers_iff`).
-/

namespace Mclog

open General LogFile

/-! ### One log file -/

namespace LogFile

/-- The log file is open, and its stream is good or about to be replaced in a roll. -/
def Usable (env : Env) (msg : Message) (lf : LogFile) : Prop :=
  ∃ st, lf.ofs = some st ∧ (st.good = true ∨ lf.rollCriteriaMet env msg = true)

instance (env : Env) (msg : Message) (lf : LogFile) : Decidable (Usable env msg lf) :=
  match h : lf.ofs with
  | none => .isFalse fun ⟨_, hst, _⟩ => by simp [h] at hst
  | some st =>
    decidable_of_iff (st.good = true ∨ lf.rollCriteriaMet env msg = true)
      ⟨fun hgood => ⟨st, h, hgood⟩, fun ⟨st', hst, hgood⟩ => by
        obtain rfl : st = st' := by simpa [h] using hst
        exact hgood⟩

/-- The world a record is written to: before a roll the stream is closed, and what a failed write
    had left may be written out. -/
def flushed (env : Env) (msg : Message) (lf : LogFile) (w : World) : World :=
  if lf.rollCriteriaMet env msg then (lf.close env w).2 else w

variable {plat : Platform} {env : Env} {lf : LogFile} {w : World} {msg : Message}

/-- **`Process` of a usable log file** appends the record, if its file operations succeed. -/
theorem process_of_usable (husable : lf.Usable env msg)
    (hsucceed : OperationsSucceed plat env lf w msg) :
    ∃ lf' w', lf.process plat env w msg = (some true, lf', w') ∧ lf'.path = lf.path ∧
      Appends plat env msg lf' (lf.flushed env msg w) w' := by
  have heffect : Effect plat (lf, w) (lf.process plat env w msg).2 :=
    process_effect plat env lf w msg
  obtain ⟨st, hst, hgood⟩ := husable
  have hopen : lf.ofs.isSome = true := by rw [hst]; rfl
  by_cases hcriteria : lf.rollCriteriaMet env msg = true
  · obtain ⟨lf', w', hprocess, -, happends⟩ := process_of_rolling hopen hcriteria hsucceed
    rw [hprocess] at heffect
    refine ⟨lf', w', hprocess, congrArg Stem.path heffect.stem, ?_⟩
    rw [flushed, if_pos hcriteria]
    exact happends
  · have hgood : st.good = true := hgood.resolve_right hcriteria
    obtain ⟨hrc, hlf, happends⟩ : (lf.writeRecord plat env w msg).1 = true ∧ _ ∧ _ :=
      writeRecord_of_good hst hgood hsucceed.1 msg
    rcases hw : lf.writeRecord plat env w msg with ⟨rc, lf', w'⟩
    rw [hw] at hrc hlf happends
    obtain rfl : rc = true := hrc
    obtain rfl : lf' = lf := hlf
    refine ⟨lf', w', ?_, rfl, ?_⟩
    · unfold process
      rw [if_pos hopen, if_neg hcriteria, hw]
    · rw [flushed, if_neg hcriteria]
      exact happends

/-- **`Process` of any other log file** does nothing, and returns false. -/
theorem process_of_not_usable (hnot : ¬ lf.Usable env msg) :
    lf.process plat env w msg = (some false, lf, w) := by
  unfold process
  cases hofs : lf.ofs with
  | none => rfl
  | some st =>
    have hbad : ¬ (st.good = true ∨ lf.rollCriteriaMet env msg = true) :=
      fun h => hnot ⟨st, hofs, h⟩
    rw [not_or] at hbad
    have hwrite : lf.writeRecord plat env w msg = (false, lf, w) := by
      simp only [writeRecord, hofs, if_pos hbad.1]
    simp only [Option.isSome_some, if_true, if_neg hbad.2, hwrite]

end LogFile

/-! ### All log files -/

namespace LogFiles

section

variable (plat : Platform) (d : Delivery)

/-- The path has no log file yet, or a usable one. -/
def Usable (path : Str) (s : LogFiles × World) : Prop :=
  ∀ lf, s.1.logFiles.lookup path = some lf → lf.Usable (d.processEnv path) d.msg

instance (path : Str) (s : LogFiles × World) : Decidable (Usable d path s) :=
  match h : s.1.logFiles.lookup path with
  | none => .isTrue fun lf hlf => by simp [h] at hlf
  | some lf =>
    decidable_of_iff (lf.Usable (d.processEnv path) d.msg)
      ⟨fun husable lf' hlf => by
        obtain rfl : lf = lf' := by simpa [h] using hlf
        exact husable, fun husable => husable lf h⟩

/-- The world the record for a path is written to. -/
def flushed (path : Str) (s : LogFiles × World) : World :=
  match s.1.logFiles.lookup path with
  | some lf => lf.flushed (d.processEnv path) d.msg s.2
  | none => s.2

/-- The record of the message is appended to the log file of the path, nothing else is written but
    what a failed write had left, and no other log file changes. -/
def Records (path : Str) (s s' : LogFiles × World) : Prop :=
  (∃ lf, s'.1.logFiles.lookup path = some lf ∧ lf.path = path ∧
    LogFile.Appends plat (d.processEnv path) d.msg lf (flushed d path s) s'.2) ∧
  ∀ path', path' ≠ path → s'.1.logFiles.lookup path' = s.1.logFiles.lookup path'

/-- Log files are found under their paths. -/
def Keyed (lfs : LogFiles) : Prop := ∀ path lf, lfs.logFiles.lookup path = some lf → lf.path = path

variable {plat d}

theorem Keyed.insert {lfs : LogFiles} (h : lfs.Keyed) {path : Str} {lf : LogFile}
    (hlf : lf.path = path) :
    Keyed { lfs with logFiles := lfs.logFiles.insert path lf } := by
  intro path' lf' hlookup
  by_cases hpath : path' = path
  · subst hpath
    simp only [AList.lookup_insert] at hlookup
    rw [← Option.some.inj hlookup]
    exact hlf
  · simp only [AList.lookup_insert_ne hpath] at hlookup
    exact h path' lf' hlookup

/-- One path of `Process` keeps the log files under their paths, however its calls end. -/
theorem Keyed.processPath {lfs : LogFiles} (h : lfs.Keyed) (w : World) (path : Str)
    (cfg : LogFileConfig) : (lfs.processPath plat w d path cfg).2.1.Keyed := by
  unfold LogFiles.processPath
  cases hlookup : lfs.logFiles.lookup path with
  | some lf =>
    have heffect := (LogFile.process_effect plat (d.processEnv path) lf w d.msg).stem
    exact h.insert ((congrArg Stem.path heffect).trans (h path lf hlookup))
  | none =>
    have hopen := LogFile.openNoLock_effect plat (d.openEnv path) (.of plat path cfg d.time) w
    dsimp only
    generalize (LogFile.of plat path cfg d.time).openNoLock plat (d.openEnv path) w = r at hopen ⊢
    obtain ⟨rc, lf, w₁⟩ := r
    cases rc with
    | none => exact h.insert (congrArg Stem.path hopen.stem)
    | some rc =>
      have heffect := hopen.trans (LogFile.process_effect plat (d.processEnv path) lf w₁ d.msg)
      exact h.insert (congrArg Stem.path heffect.stem)

theorem Keyed.processPaths {lfs : LogFiles} (h : lfs.Keyed) (w : World)
    (logPaths : List (Str × LogFileConfig)) :
    (LogFiles.processPaths plat d logPaths lfs w).2.1.Keyed := by
  induction logPaths generalizing lfs w with
  | nil => exact h
  | cons e logPaths ih =>
    obtain ⟨path, cfg⟩ := e
    have hfirst : (lfs.processPath plat w d path cfg).2.1.Keyed := h.processPath w path cfg
    simp only [LogFiles.processPaths]
    generalize lfs.processPath plat w d path cfg = r at hfirst ⊢
    obtain ⟨rc, lfs₁, w₁⟩ := r
    cases rc with
    | none => exact hfirst
    | some rc => exact ih hfirst w₁

/-- Log files are found under their paths in every state of a run, whatever fails. -/
theorem keyed_run (driver : MessageFilterDriver) (regexReplace : Str → Str → Str)
    (filesConfig : FilesConfig) (w : World) (events : List LogFilesEvent) :
    (run plat driver regexReplace (configure driver filesConfig, w) events).1.Keyed := by
  induction events using List.reverseRecOn with
  | nil =>
    intro path lf hlookup
    exact absurd hlookup (by simp [run, configure])
  | append_singleton events e ih =>
    rw [run_append_singleton]
    generalize run plat driver regexReplace (configure driver filesConfig, w) events = s at ih
    cases e with
    | compressor i => exact ih
    | process d =>
      have hcached : (routes driver regexReplace s.1 d.msg).1.Keyed := ih
      exact hcached.processPaths s.2 (routes driver regexReplace s.1 d.msg).2

/-- **One path of `Process`**, when it is usable. -/
theorem processPath_of_usable {s : LogFiles × World} (hkeyed : s.1.Keyed) {path : Str}
    {cfg : LogFileConfig} (husable : Usable d path s) (hsucceeds : PathSucceeds plat d path cfg s) :
    ∃ s', s.1.processPath plat s.2 d path cfg = (some true, s') ∧ Records plat d path s s' := by
  obtain ⟨lfs, w⟩ := s
  cases hlookup : lfs.logFiles.lookup path with
  | some lf =>
    unfold PathSucceeds at hsucceeds
    unfold processPath
    simp only [hlookup] at hsucceeds ⊢
    obtain ⟨lf', w', hprocess, hpath', happends⟩ :=
      LogFile.process_of_usable (husable lf hlookup) hsucceeds
    rw [hprocess]
    refine ⟨_, rfl, ⟨lf', AList.lookup_insert _, hpath'.trans (hkeyed path lf hlookup), ?_⟩,
      fun path' hne => AList.lookup_insert_ne hne⟩
    simp only [flushed, hlookup]
    exact happends
  | none =>
    obtain ⟨lf', w', hprocess, -, hpath', happends⟩ :=
      processPath_of_lookup_eq_none hlookup hsucceeds
    refine ⟨_, hprocess, ⟨lf', AList.lookup_insert _, hpath', ?_⟩,
      fun path' hne => AList.lookup_insert_ne hne⟩
    simp only [flushed, hlookup]
    exact happends

/-- **One path of `Process`**, when its log file is not usable: nothing is written. -/
theorem processPath_of_not_usable {s : LogFiles × World} {path : Str} (cfg : LogFileConfig)
    (hnot : ¬ Usable d path s) :
    ∃ lfs', s.1.processPath plat s.2 d path cfg = (some false, lfs', s.2) := by
  unfold Usable at hnot
  push Not at hnot
  obtain ⟨lf, hlookup, hlf⟩ := hnot
  unfold processPath
  simp only [hlookup, LogFile.process_of_not_usable hlf]
  exact ⟨_, rfl⟩

/-- A path that is not the one recorded at is as usable as before. -/
theorem usable_congr {path path' : Str} {s s' : LogFiles × World} (hrecords : Records plat d path s s')
    (hne : path' ≠ path) : Usable d path' s' ↔ Usable d path' s := by
  unfold Usable
  rw [hrecords.2 path' hne]

/-- The loop of `Process` records the message at each path, if each is usable. -/
theorem processPaths_of_usable {logPaths : List (Str × LogFileConfig)} {s : LogFiles × World}
    (hkeyed : s.1.Keyed) (hnodup : (logPaths.map Prod.fst).Nodup)
    (hsucceed : PathsSucceed plat d logPaths s)
    (husable : ∀ path ∈ logPaths.map Prod.fst, Usable d path s) :
    ∃ s', processPaths plat d logPaths s.1 s.2 = (some true, s') ∧
      Steps (Records plat d) (logPaths.map Prod.fst) s s' := by
  induction logPaths generalizing s with
  | nil => exact ⟨s, rfl, .nil⟩
  | cons e logPaths ih =>
    obtain ⟨path, cfg⟩ := e
    obtain ⟨hpath, hrest⟩ := hsucceed
    rw [List.map_cons, List.nodup_cons] at hnodup
    simp only [List.map_cons, List.forall_mem_cons] at husable
    obtain ⟨s₁, hprocess, hrecords⟩ := processPath_of_usable hkeyed husable.1 hpath
    have hkeyed₁ : (s.1.processPath plat s.2 d path cfg).2.1.Keyed :=
      hkeyed.processPath s.2 path cfg
    rw [hprocess] at hrest hkeyed₁
    have husable₁ : ∀ path' ∈ logPaths.map Prod.fst, Usable d path' s₁ := by
      intro path' hmem
      have hne : path' ≠ path := fun h => hnodup.1 (h ▸ hmem)
      exact (usable_congr hrecords hne).mpr (husable.2 path' hmem)
    obtain ⟨s', hloop, hsteps⟩ := ih hkeyed₁ hnodup.2 hrest husable₁
    refine ⟨s', ?_, .cons hrecords hsteps⟩
    simp only [processPaths, hprocess, hloop]
    rfl

/-- The loop of `Process` does not return true, if a path is not usable. -/
theorem processPaths_of_not_usable {logPaths : List (Str × LogFileConfig)} {s : LogFiles × World}
    (hkeyed : s.1.Keyed) (hnodup : (logPaths.map Prod.fst).Nodup)
    (hsucceed : PathsSucceed plat d logPaths s) {path : Str} (hmem : path ∈ logPaths.map Prod.fst)
    (hnot : ¬ Usable d path s) : (processPaths plat d logPaths s.1 s.2).1 ≠ some true := by
  induction logPaths generalizing s with
  | nil => simp at hmem
  | cons e logPaths ih =>
    obtain ⟨path₀, cfg⟩ := e
    obtain ⟨hpath, hrest⟩ := hsucceed
    rw [List.map_cons, List.nodup_cons] at hnodup
    by_cases husable : Usable d path₀ s
    · obtain ⟨s₁, hprocess, hrecords⟩ := processPath_of_usable hkeyed husable hpath
      have hkeyed₁ : (s.1.processPath plat s.2 d path₀ cfg).2.1.Keyed :=
        hkeyed.processPath s.2 path₀ cfg
      rw [hprocess] at hrest hkeyed₁
      have hmem₁ : path ∈ logPaths.map Prod.fst := by
        rcases List.mem_cons.mp hmem with rfl | hmem
        · exact absurd husable hnot
        · exact hmem
      have hne : path ≠ path₀ := fun h => hnodup.1 (h ▸ hmem₁)
      have hloop := ih hkeyed₁ hnodup.2 hrest hmem₁ fun h => hnot ((usable_congr hrecords hne).mp h)
      simp only [processPaths, hprocess]
      intro htrue
      obtain ⟨r, hr, hand⟩ := Option.map_eq_some_iff.mp htrue
      rw [Bool.true_and] at hand
      exact hloop (hr.trans (congrArg some hand))
    · obtain ⟨lfs', hprocess⟩ :
          ∃ lfs', s.1.processPath plat s.2 d path₀ cfg = (some false, lfs', s.2) :=
        processPath_of_not_usable cfg husable
      simp only [processPaths, hprocess]
      intro htrue
      obtain ⟨r, -, hand⟩ := Option.map_eq_some_iff.mp htrue
      exact absurd hand (by simp)

end

/-- A message that is logged, and one whose write fails. -/
def writeFailure : List LogFilesEvent :=
  [.process { msg := messageAt 0 },
    .process { msg := messageAt 0, processEnv := fun _ => { fails := (· = .write) } }]

end LogFiles

end Mclog
