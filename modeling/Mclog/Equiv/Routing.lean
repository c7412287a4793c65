import Mclog.Equiv.LogFiles
import Mclog.Equiv.LogPathCache
import Mclog.Equiv.MessageFilter

/-!
# Where a message goes

While no file operation fails, `LogFiles::Process` appends a message once to each path that
`LogPathConfigs` gives, and to nothing else (`process_appends`).  These are the paths of the entries
that have a driver and whose filter accepts the message (`mem_routes_iff`).  No driver can be
made of an empty filter, though, so an entry that has none, and is documented to get every message,
is dropped: the message misses its path unless another entry leads there (`routes_exactly_iff`).
-/

namespace Mclog

open General

/-! ### Appending to one log file -/

/-- No byte has been written: the nodes there were are as they were, and new ones are empty. -/
structure Unwritten (disk disk' : Disk) : Prop where
  next_le : disk.next ≤ disk'.next
  old : ∀ i < disk.next, disk'.nodes i = disk.nodes i
  new : ∀ i, disk.next ≤ i → i < disk'.next → (disk'.nodes i).data = []

namespace Unwritten

variable {disk disk' disk'' : Disk}

theorem refl (disk : Disk) : Unwritten disk disk :=
  ⟨le_rfl, fun _ _ => rfl, fun i h h' => absurd h' (by omega)⟩

/-- Operations on names alone. -/
theorem of_nodes (hnodes : disk'.nodes = disk.nodes) (hnext : disk'.next = disk.next) :
    Unwritten disk disk' :=
  ⟨hnext.ge, fun i _ => by rw [hnodes], fun i h h' => absurd h' (by omega)⟩

theorem trans (h : Unwritten disk disk') (h' : Unwritten disk' disk'') : Unwritten disk disk'' := by
  refine ⟨h.next_le.trans h'.next_le, fun i hi => ?_, fun i hi hi' => ?_⟩
  · rw [h'.old i (lt_of_lt_of_le hi h.next_le), h.old i hi]
  · by_cases hlt : i < disk'.next
    · rw [h'.old i hlt]
      exact h.new i hi hlt
    · exact h'.new i (by omega) hi'

/-- A file that is made is empty. -/
theorem create (disk : Disk) (k : List Str) (t : Int) :
    Unwritten disk (disk.create k ⟨[], t⟩) := by
  refine ⟨Nat.le_succ _, fun i hi => ?_, fun i hi hi' => ?_⟩
  · exact Function.update_of_ne (by omega) _ _
  · obtain rfl : i = disk.next := by
      have : i < disk.next + 1 := hi'
      omega
    show (Function.update disk.nodes disk.next _ disk.next).data = []
    rw [Function.update_self]

end Unwritten

namespace LogFile

variable (plat : Platform) (env : Env) (lf : LogFile) (w : World)

theorem moveArchives_unwritten (nums : List Nat) (disk : Disk) :
    Unwritten disk (lf.moveArchives plat env nums disk).2 := by
  induction nums generalizing disk with
  | nil => exact .refl disk
  | cons num nums ih =>
    simp only [moveArchives]
    split
    · split
      · exact .refl disk
      · have hremove : Unwritten disk
            (disk.remove (key plat (archiveString lf.path num lf.compress))) := .of_nodes rfl rfl
        exact hremove.trans (ih _)
    · split
      · next disk' hrename =>
        split
        · exact .refl disk
        · exact (Unwritten.of_nodes (FileStore.nodes_rename hrename)
            (FileStore.next_rename hrename)).trans (ih _)
      · exact .refl disk

theorem rollFiles_unwritten : Unwritten w.disk (lf.rollFiles plat env w).2.disk := by
  have harchives : Unwritten w.disk (lf.rollArchives plat env w.disk).2 := by
    unfold rollArchives
    split
    · exact moveArchives_unwritten _ _ _ _ _
    · exact .refl _
  unfold rollFiles
  dsimp only
  split
  · refine harchives.trans ?_
    unfold rollCurrent
    dsimp only
    split
    · next disk' hrename =>
      split
      · exact .refl _
      · exact .of_nodes (FileStore.nodes_rename hrename) (FileStore.next_rename hrename)
    · exact .refl _
  · exact harchives

theorem roll_unwritten : Unwritten w.disk (lf.roll plat env w).2.2.disk := by
  have hfiles := rollFiles_unwritten plat env lf w
  unfold roll
  dsimp only
  split
  · exact hfiles
  · exact hfiles

theorem openFile_unwritten : Unwritten w.disk (lf.openFile plat env w).2.2.disk := by
  unfold openFile
  dsimp only
  split
  · exact .refl _
  · exact .refl _
  · split
    · exact .refl _
    · split
      · exact .refl _
      · exact .create _ _ _

theorem openNoLock_unwritten : Unwritten w.disk (lf.openNoLock plat env w).2.2.disk := by
  have hroll := roll_unwritten plat env lf w
  unfold openNoLock
  split
  · exact .refl _
  · split
    · split
      · next lf' w' hr =>
        rw [hr] at hroll
        exact hroll.trans (openFile_unwritten plat env lf' w')
      · next lf' w' hr =>
        rw [hr] at hroll
        exact hroll
    · exact openFile_unwritten plat env lf w

/-- Open, with a stream that nothing is left to be written to. -/
def Ready (lf : LogFile) : Prop := ∃ st, lf.ofs = some st ∧ st.good = true ∧ st.pending = []

variable {plat env lf w}

theorem ready_of_openFile (h : (lf.openFile plat env w).1 = some true) :
    (lf.openFile plat env w).2.1.Ready := by
  unfold openFile at h ⊢
  dsimp only at h ⊢
  split at h
  · cases h
  · cases h
  · split at h
    · cases h
    · next hcond =>
      rw [if_neg hcond]
      split
      · exact ⟨_, rfl, rfl, rfl⟩
      · exact ⟨_, rfl, rfl, rfl⟩

/-- A log file that opens is ready, if it was not open. -/
theorem ready_of_openNoLock (hofs : lf.ofs = none) (h : (lf.openNoLock plat env w).1 = some true) :
    (lf.openNoLock plat env w).2.1.Ready := by
  have hclosed : ¬ lf.ofs.isSome = true := by simp [hofs]
  unfold openNoLock at h ⊢
  rw [if_neg hclosed] at h ⊢
  by_cases hneed : lf.needRollBeforeOpen plat env w.disk = true
  · rw [if_pos hneed] at h ⊢
    rcases hr : lf.roll plat env w with ⟨rolled, lf', w'⟩
    rw [hr] at h
    cases rolled with
    | true => exact ready_of_openFile h
    | false => cases h
  · rw [if_neg hneed] at h ⊢
    exact ready_of_openFile h

/-- A roll leaves the stream closed. -/
theorem ofs_roll : (lf.roll plat env w).2.1.ofs = lf.ofs := by
  unfold roll
  dsimp only
  split <;> rfl

/-- The file operations of `Process` succeed: the write, and when the log rolls, the roll and the
    opening after it. -/
def OperationsSucceed (plat : Platform) (env : Env) (lf : LogFile) (w : World) (msg : Message) :
    Prop :=
  env.fails .write = false ∧ (lf.rollCriteriaMet env msg = true →
    let (lf, w) := lf.close env w
    let (rolled, lf, w) := lf.roll plat env w
    rolled = true ∧ (lf.openNoLock plat env w).1 = some true)

instance (plat : Platform) (env : Env) (lf : LogFile) (w : World) (msg : Message) :
    Decidable (OperationsSucceed plat env lf w msg) := by
  unfold OperationsSucceed
  infer_instance

/-- A record is appended to the stream of an open log file, and no other byte is written. -/
def Appends (plat : Platform) (env : Env) (msg : Message) (lf : LogFile) (w w' : World) : Prop :=
  ∃ st disk, lf.ofs = some st ∧ Unwritten w.disk disk ∧
    w'.disk = append env disk st.node (record plat lf.format msg)

theorem writeRecord_of_good {st : OfStream} (hst : lf.ofs = some st) (hgood : st.good = true)
    (hwrite : env.fails .write = false) (msg : Message) :
    (lf.writeRecord plat env w msg).1 = true ∧ (lf.writeRecord plat env w msg).2.1 = lf ∧
      Appends plat env msg lf w (lf.writeRecord plat env w msg).2.2 := by
  have hrecord : lf.writeRecord plat env w msg =
      (true, lf, { w with disk := append env w.disk st.node (record plat lf.format msg) }) := by
    unfold writeRecord
    rw [hst]
    simp only [hgood, not_true_eq_false, if_false, hwrite, Bool.false_eq_true]
  rw [hrecord]
  exact ⟨rfl, rfl, st, w.disk, hst, .refl _, rfl⟩

/-- `Process` of an open log file that rolls: it is closed, with what a failed write had left written
    out, rolled and opened again, and the record is appended, if the file operations succeed. -/
theorem process_of_rolling (hopen : lf.ofs.isSome = true) {msg : Message}
    (hcriteria : lf.rollCriteriaMet env msg = true) (hsucceed : OperationsSucceed plat env lf w msg) :
    ∃ lf' w', lf.process plat env w msg = (some true, lf', w') ∧ lf'.Ready ∧
      Appends plat env msg lf' (lf.close env w).2 w' := by
  obtain ⟨hwrite, hroll⟩ := hsucceed
  specialize hroll hcriteria
  obtain ⟨st, hst⟩ := Option.isSome_iff_exists.mp hopen
  have hclosed : (lf.close env w).1.ofs = none := by
    unfold close
    rw [hst]
  unfold process
  rw [if_pos hopen, if_pos hcriteria]
  generalize lf.close env w = r at hroll hclosed ⊢
  obtain ⟨lf₀, w₀⟩ := r
  have hofs : (lf₀.roll plat env w₀).2.1.ofs = none := ofs_roll.trans hclosed
  have hun := roll_unwritten plat env lf₀ w₀
  simp only at hroll ⊢
  generalize lf₀.roll plat env w₀ = r at hroll hofs hun ⊢
  obtain ⟨rolled, lf₁, w₁⟩ := r
  obtain ⟨rfl, hopens⟩ : rolled = true ∧ (lf₁.openNoLock plat env w₁).1 = some true := hroll
  have hready₁ := ready_of_openNoLock hofs hopens
  have hun₁ := openNoLock_unwritten plat env lf₁ w₁
  simp only
  generalize lf₁.openNoLock plat env w₁ = r at hopens hready₁ hun₁ ⊢
  obtain ⟨rc, lf₂, w₂⟩ := r
  obtain rfl : rc = some true := hopens
  obtain ⟨st₂, hst₂, hgood₂, -⟩ := id hready₁
  obtain ⟨hrc, hlf, st', disk, hst', hun₂, hdisk⟩ := writeRecord_of_good hst₂ hgood₂ hwrite msg
  rcases hw : lf₂.writeRecord plat env w₂ msg with ⟨rc, lf₃, w₃⟩
  rw [hw] at hrc hlf hdisk
  obtain rfl : rc = true := hrc
  obtain rfl : lf₃ = lf₂ := hlf
  exact ⟨lf₃, w₃, by simp only [hw], hready₁, st', disk, hst', (hun.trans hun₁).trans hun₂, hdisk⟩

/-- **`Process` of a ready log file** appends the record once and leaves the log file ready, if its
    file operations succeed. -/
theorem process_of_ready (hready : lf.Ready) {msg : Message}
    (hsucceed : OperationsSucceed plat env lf w msg) :
    ∃ lf' w', lf.process plat env w msg = (some true, lf', w') ∧ lf'.Ready ∧
      lf'.path = lf.path ∧ Appends plat env msg lf' w w' := by
  have heffect : Effect plat (lf, w) (lf.process plat env w msg).2 :=
    process_effect plat env lf w msg
  suffices hmain : ∃ lf' w', lf.process plat env w msg = (some true, lf', w') ∧ lf'.Ready ∧
      Appends plat env msg lf' w w' by
    obtain ⟨lf', w', hprocess, hready', happends⟩ := hmain
    rw [hprocess] at heffect
    exact ⟨lf', w', hprocess, hready', congrArg Stem.path heffect.stem, happends⟩
  obtain ⟨st, hst, hgood, hpending⟩ := hready
  have hsome : lf.ofs.isSome = true := by rw [hst]; rfl
  by_cases hcriteria : lf.rollCriteriaMet env msg = true
  · -- Closing it writes nothing.
    have hclose : (lf.close env w).2 = w := by
      unfold close
      rw [hst]
      simp [hpending]
    obtain ⟨lf', w', hprocess, hready', happends⟩ := process_of_rolling hsome hcriteria hsucceed
    rw [hclose] at happends
    exact ⟨lf', w', hprocess, hready', happends⟩
  · unfold process
    rw [if_pos hsome, if_neg hcriteria]
    have hready : lf.Ready := ⟨st, hst, hgood, hpending⟩
    obtain ⟨hrc, hlf, happends⟩ := writeRecord_of_good hst hgood hsucceed.1 msg
    rcases hw : lf.writeRecord plat env w msg with ⟨rc, lf₃, w₃⟩
    rw [hw] at hrc hlf happends
    obtain rfl : rc = true := hrc
    obtain rfl : lf₃ = lf := hlf
    exact ⟨lf₃, w₃, rfl, hready, happends⟩

end LogFile

/-! ### The paths of a message -/

namespace LogFiles

section

variable (driver : MessageFilterDriver) (regexReplace : Str → Str → Str) (logDirectory : Str)

/-- The path `LogPath` gives for a message and an entry. -/
def pathFor (cache : LogPathCache) (msg : Message) (cfg : LogFileConfig) : Str :=
  (logPath regexReplace logDirectory cache msg cfg).1

theorem pathFor_eq (cache : LogPathCache) (msg : Message) (cfg : LogFileConfig) :
    pathFor regexReplace logDirectory cache msg cfg =
      if (logPathFromCache cache msg cfg.pathPattern).isEmpty = true then
        freshLogPath regexReplace logDirectory msg cfg.pathPattern
      else logPathFromCache cache msg cfg.pathPattern := by
  simp only [pathFor, logPath]
  split <;> rfl

/-- A call of `LogPath` for a message changes the path of no entry for this message. -/
theorem pathFor_logPath (cache : LogPathCache) (msg : Message) (cfg cfg' : LogFileConfig) :
    pathFor regexReplace logDirectory (logPath regexReplace logDirectory cache msg cfg').2 msg cfg =
      pathFor regexReplace logDirectory cache msg cfg := by
  by_cases hcached : (logPathFromCache cache msg cfg'.pathPattern).isEmpty = true
  · -- The path has been computed and put into the cache.
    have hcache : (logPath regexReplace logDirectory cache msg cfg').2 =
        cache.insert (LogPathCacheKey.of msg cfg'.pathPattern)
          (freshLogPath regexReplace logDirectory msg cfg'.pathPattern) := by
      simp only [logPath]
      rw [if_pos hcached]
    rw [hcache, pathFor_eq, pathFor_eq]
    by_cases hkey : LogPathCacheKey.of msg cfg.pathPattern = LogPathCacheKey.of msg cfg'.pathPattern
    · have hpat : cfg.pathPattern = cfg'.pathPattern := congrArg LogPathCacheKey.pathPattern hkey
      have hfound : logPathFromCache (cache.insert (LogPathCacheKey.of msg cfg'.pathPattern)
          (freshLogPath regexReplace logDirectory msg cfg'.pathPattern)) msg cfg'.pathPattern =
          freshLogPath regexReplace logDirectory msg cfg'.pathPattern := by
        rw [logPathFromCache, AList.lookup_insert]
      rw [hpat, if_pos hcached, hfound, if_neg]
      simpa using freshLogPath_ne_nil regexReplace logDirectory msg cfg'.pathPattern
    · have hsame : logPathFromCache (cache.insert (LogPathCacheKey.of msg cfg'.pathPattern)
          (freshLogPath regexReplace logDirectory msg cfg'.pathPattern)) msg cfg.pathPattern =
          logPathFromCache cache msg cfg.pathPattern := by
        rw [logPathFromCache, AList.lookup_insert_ne hkey]
        rfl
      rw [hsame]
  · have hcache : (logPath regexReplace logDirectory cache msg cfg').2 = cache := by
      simp only [logPath]
      rw [if_neg hcached]
    rw [hcache]

/-- **The paths of `LogPathConfigs`** are different from each other, and are those of the entries
    whose filter accepts the message. -/
theorem logPathConfigs_spec (msg : Message) (cfgs : List LogFileConfig) (cache : LogPathCache)
    (logPaths : List (Str × LogFileConfig)) (hnodup : (logPaths.map Prod.fst).Nodup) :
    ((logPathConfigs driver regexReplace logDirectory msg cfgs cache logPaths).2.map
        Prod.fst).Nodup ∧
      ∀ path, path ∈ (logPathConfigs driver regexReplace logDirectory msg cfgs cache
          logPaths).2.map Prod.fst ↔
        path ∈ logPaths.map Prod.fst ∨ ∃ cfg ∈ cfgs, driver.accepts cfg.filter msg = true ∧
          path = pathFor regexReplace logDirectory cache msg cfg := by
  induction cfgs generalizing cache logPaths with
  | nil => exact ⟨hnodup, fun path => by simp [logPathConfigs]⟩
  | cons cfg cfgs ih =>
    by_cases haccepts : driver.accepts cfg.filter msg = true
    · rw [logPathConfigs, if_pos haccepts]
      dsimp only
      have hstable := fun cfg' => pathFor_logPath regexReplace logDirectory cache msg cfg' cfg
      have hpath : (logPath regexReplace logDirectory cache msg cfg).1 =
        pathFor regexReplace logDirectory cache msg cfg := rfl
      rw [hpath]
      by_cases hhas : (logPaths.any fun e =>
          e.1 == pathFor regexReplace logDirectory cache msg cfg) = true
      · -- The path is in the list already, from an entry before this one.
        rw [if_pos hhas]
        obtain ⟨hnodup', hmem⟩ := ih (logPath regexReplace logDirectory cache msg cfg).2 logPaths
          hnodup
        refine ⟨hnodup', fun path => ?_⟩
        have hin : pathFor regexReplace logDirectory cache msg cfg ∈ logPaths.map Prod.fst := by
          simpa [List.any_eq_true] using hhas
        simp only [hmem path, hstable, List.mem_cons, exists_eq_or_imp, haccepts, true_and]
        constructor
        · rintro (h | h)
          · exact Or.inl h
          · exact Or.inr (Or.inr h)
        · rintro (h | rfl | h)
          · exact Or.inl h
          · exact Or.inl hin
          · exact Or.inr h
      · -- It is new.
        rw [if_neg hhas]
        have hnotin : pathFor regexReplace logDirectory cache msg cfg ∉ logPaths.map Prod.fst := by
          simpa [List.any_eq_true] using hhas
        obtain ⟨hnodup', hmem⟩ := ih (logPath regexReplace logDirectory cache msg cfg).2
          (logPaths ++ [(pathFor regexReplace logDirectory cache msg cfg, cfg)]) (by
            rw [List.map_append, List.nodup_append]
            refine ⟨hnodup, by simp, ?_⟩
            intro a ha b hb hab
            obtain rfl : b = pathFor regexReplace logDirectory cache msg cfg := by simpa using hb
            exact hnotin (hab ▸ ha))
        refine ⟨hnodup', fun path => ?_⟩
        simp only [hmem path, hstable, List.map_append, List.map_cons, List.map_nil,
          List.mem_append, List.mem_cons, List.not_mem_nil, or_false, exists_eq_or_imp, haccepts,
          true_and, or_assoc]
    · rw [logPathConfigs, if_neg haccepts]
      obtain ⟨hnodup', hmem⟩ := ih cache logPaths hnodup
      refine ⟨hnodup', fun path => ?_⟩
      simp only [hmem path, List.mem_cons, exists_eq_or_imp, haccepts, Bool.false_eq_true,
        false_and, false_or]

end

/-! ### Appending to each -/

section

variable (plat : Platform)

/-- Every log file is open, and is found under its path. -/
def AllReady (lfs : LogFiles) : Prop :=
  ∀ path lf, lfs.logFiles.lookup path = some lf → lf.Ready ∧ lf.path = path

/-- The file operations made for one path succeed. -/
def PathSucceeds (d : Delivery) (path : Str) (cfg : LogFileConfig) (s : LogFiles × World) : Prop :=
  match s.1.logFiles.lookup path with
  | some lf => LogFile.OperationsSucceed plat (d.processEnv path) lf s.2 d.msg
  | none =>
    let (rc, lf, w) := (LogFile.of plat path cfg d.time).openNoLock plat (d.openEnv path) s.2
    rc = some true ∧ LogFile.OperationsSucceed plat (d.processEnv path) lf w d.msg

instance (d : Delivery) (path : Str) (cfg : LogFileConfig) (s : LogFiles × World) :
    Decidable (PathSucceeds plat d path cfg s) := by
  unfold PathSucceeds
  split <;> infer_instance

/-- A record of the message is appended to the log file of the path, no other byte is written, and
    no other log file changes. -/
def AppendsTo (d : Delivery) (path : Str) (s s' : LogFiles × World) : Prop :=
  (∃ lf, s'.1.logFiles.lookup path = some lf ∧ lf.path = path ∧
    LogFile.Appends plat (d.processEnv path) d.msg lf s.2 s'.2) ∧
  ∀ path', path' ≠ path → s'.1.logFiles.lookup path' = s.1.logFiles.lookup path'

/-- A record is appended to each of the paths, one after another, and nothing else is written. -/
inductive AppendsEach (d : Delivery) :
    List Str → LogFiles × World → LogFiles × World → Prop where
  | nil {s s' : LogFiles × World} (hfiles : s'.1.logFiles = s.1.logFiles) (hworld : s'.2 = s.2) :
      AppendsEach d [] s s'
  | cons {path : Str} {paths : List Str} {s s' s'' : LogFiles × World}
      (h : AppendsTo plat d path s s') (hrest : AppendsEach d paths s' s'') :
      AppendsEach d (path :: paths) s s''

variable {plat}

/-- A path that has no log file yet: one is opened, and the record appended to it. -/
theorem processPath_of_lookup_eq_none {lfs : LogFiles} {w : World} {d : Delivery} {path : Str}
    {cfg : LogFileConfig} (hlookup : lfs.logFiles.lookup path = none)
    (hsucceeds : PathSucceeds plat d path cfg (lfs, w)) :
    ∃ lf w', lfs.processPath plat w d path cfg =
        (some true, { lfs with logFiles := lfs.logFiles.insert path lf }, w') ∧
      lf.Ready ∧ lf.path = path ∧ LogFile.Appends plat (d.processEnv path) d.msg lf w w' := by
  unfold PathSucceeds at hsucceeds
  unfold processPath
  simp only [hlookup] at hsucceeds ⊢
  have hstem := (LogFile.openNoLock_effect plat (d.openEnv path)
    (LogFile.of plat path cfg d.time) w).stem
  have hun := LogFile.openNoLock_unwritten plat (d.openEnv path)
    (LogFile.of plat path cfg d.time) w
  have hopens := @LogFile.ready_of_openNoLock plat (d.openEnv path)
    (LogFile.of plat path cfg d.time) w rfl
  generalize (LogFile.of plat path cfg d.time).openNoLock plat (d.openEnv path) w = r
    at hsucceeds hstem hun hopens ⊢
  obtain ⟨rc, lf, w₁⟩ := r
  obtain ⟨rfl, hsucceeds⟩ := hsucceeds
  obtain ⟨lf', w', hprocess, hready, hpath, st, disk, hst, hun', hdisk⟩ :=
    LogFile.process_of_ready (hopens rfl) hsucceeds
  simp only [hprocess]
  exact ⟨lf', w', rfl, hready, hpath.trans (congrArg Stem.path hstem),
    st, disk, hst, hun.trans hun', hdisk⟩

/-- One path of `Process`. -/
theorem processPath_appends {s : LogFiles × World} (hready : s.1.AllReady) {d : Delivery}
    {path : Str} {cfg : LogFileConfig} (hsucceeds : PathSucceeds plat d path cfg s) :
    ∃ s', s.1.processPath plat s.2 d path cfg = (some true, s') ∧ s'.1.AllReady ∧
      AppendsTo plat d path s s' := by
  obtain ⟨lfs, w⟩ := s
  -- The log file is put back under its path.
  have hput : ∀ (lf' : LogFile) (w' : World), lf'.Ready → lf'.path = path →
      LogFile.Appends plat (d.processEnv path) d.msg lf' w w' →
      (LogFiles.AllReady { lfs with logFiles := lfs.logFiles.insert path lf' }) ∧
        AppendsTo plat d path (lfs, w)
          ({ lfs with logFiles := lfs.logFiles.insert path lf' }, w') := by
    intro lf' w' hready' hpath' happends
    refine ⟨fun p l hl => ?_, ⟨lf', AList.lookup_insert _, hpath', happends⟩, fun p hp => ?_⟩
    · by_cases hp : p = path
      · subst hp
        have hl' : (lfs.logFiles.insert p lf').lookup p = some l := hl
        rw [AList.lookup_insert, Option.some.injEq] at hl'
        subst hl'
        exact ⟨hready', hpath'⟩
      · have hl' : (lfs.logFiles.insert path lf').lookup p = some l := hl
        rw [AList.lookup_insert_ne hp] at hl'
        exact hready p l hl'
    · exact AList.lookup_insert_ne hp
  cases hlookup : lfs.logFiles.lookup path with
  | some lf =>
    unfold PathSucceeds at hsucceeds
    unfold processPath
    simp only [hlookup] at hsucceeds ⊢
    obtain ⟨hlf, hpath⟩ := hready path lf hlookup
    obtain ⟨lf', w', hprocess, hready', hpath', happends⟩ := LogFile.process_of_ready hlf hsucceeds
    rw [hprocess]
    exact ⟨_, rfl, hput lf' w' hready' (hpath'.trans hpath) happends⟩
  | none =>
    obtain ⟨lf', w', hprocess, hready', hpath', happends⟩ :=
      processPath_of_lookup_eq_none hlookup hsucceeds
    exact ⟨_, hprocess, hput lf' w' hready' hpath' happends⟩

/-- The file operations made for the paths, one after another, succeed. -/
def PathsSucceed (plat : Platform) (d : Delivery) :
    List (Str × LogFileConfig) → LogFiles × World → Prop
  | [], _ => True
  | (path, cfg) :: logPaths, s =>
    PathSucceeds plat d path cfg s ∧
      PathsSucceed plat d logPaths (s.1.processPath plat s.2 d path cfg).2

instance decidablePathsSucceed (plat : Platform) (d : Delivery) :
    ∀ logPaths s, Decidable (PathsSucceed plat d logPaths s)
  | [], _ => .isTrue trivial
  | (path, cfg) :: logPaths, s =>
    @instDecidableAnd _ _ _ (decidablePathsSucceed plat d logPaths
      (s.1.processPath plat s.2 d path cfg).2)

/-- The loop of `Process`. -/
theorem processPaths_appends {d : Delivery} {logPaths : List (Str × LogFileConfig)}
    {s : LogFiles × World} (hready : s.1.AllReady) (hsucceed : PathsSucceed plat d logPaths s) :
    ∃ s', processPaths plat d logPaths s.1 s.2 = (some true, s') ∧ s'.1.AllReady ∧
      AppendsEach plat d (logPaths.map Prod.fst) s s' := by
  induction logPaths generalizing s with
  | nil => exact ⟨s, rfl, hready, .nil rfl rfl⟩
  | cons e logPaths ih =>
    obtain ⟨path, cfg⟩ := e
    obtain ⟨hpath, hrest⟩ := hsucceed
    obtain ⟨s₁, hprocess, hready₁, happends₁⟩ := processPath_appends hready hpath
    rw [hprocess] at hrest
    obtain ⟨s', hloop, hready', happends'⟩ := ih hready₁ hrest
    refine ⟨s', ?_, hready', .cons happends₁ happends'⟩
    simp only [processPaths, hprocess, hloop]
    rfl

/-- What is appended does not depend on the path cache. -/
theorem AppendsEach.of_cache {d : Delivery} {paths : List Str} {s₁ s s' : LogFiles × World}
    (h : AppendsEach plat d paths s₁ s') (hfiles : s₁.1.logFiles = s.1.logFiles)
    (hworld : s₁.2 = s.2) : AppendsEach plat d paths s s' := by
  cases h with
  | nil hfiles' hworld' => exact .nil (hfiles'.trans hfiles) (hworld'.trans hworld)
  | cons hpath hrest =>
    obtain ⟨⟨lf, hlookup, hlf, happends⟩, hothers⟩ := hpath
    refine .cons ⟨⟨lf, hlookup, hlf, ?_⟩, fun path' hne => ?_⟩ hrest
    · rw [← hworld]
      exact happends
    · rw [hothers path' hne, hfiles]

end

/-! ### Routing -/

section

variable (plat : Platform) (driver : MessageFilterDriver) (regexReplace : Str → Str → Str)

/-- The paths for a message, with the entries, and the log files with the cache that is left. -/
def routes (lfs : LogFiles) (msg : Message) : LogFiles × List (Str × LogFileConfig) :=
  let (cache, logPaths) := logPathConfigs driver regexReplace lfs.filesConfig.logDirectory msg
    lfs.filteredLogConfigs lfs.logPathCache []
  ({ lfs with logPathCache := cache }, logPaths)

/-- All file operations of an event succeed. -/
def EventSucceeds (s : LogFiles × World) : LogFilesEvent → Prop
  | .process d =>
    let (lfs, logPaths) := routes driver regexReplace s.1 d.msg
    PathsSucceed plat d logPaths (lfs, s.2)
  | .compressor _ => True

instance (s : LogFiles × World) (e : LogFilesEvent) :
    Decidable (EventSucceeds plat driver regexReplace s e) := by
  unfold EventSucceeds
  split <;> infer_instance

variable {plat driver regexReplace}

/-- **`Process` appends the message once to each of its paths**, and to nothing else. -/
theorem process_appends {s : LogFiles × World} (hready : s.1.AllReady) {d : Delivery}
    (hsucceeds : EventSucceeds plat driver regexReplace s (.process d)) :
    ∃ s', s.1.process plat driver regexReplace s.2 d = (some true, s') ∧ s'.1.AllReady ∧
      AppendsEach plat d ((routes driver regexReplace s.1 d.msg).2.map Prod.fst) s s' := by
  obtain ⟨lfs, w⟩ := s
  have hready' : (routes driver regexReplace lfs d.msg).1.AllReady := hready
  obtain ⟨s', hprocess, hafter, happends⟩ := processPaths_appends hready' hsucceeds
  exact ⟨s', hprocess, hafter, happends.of_cache rfl rfl⟩

/-- The log files stay open while no file operation fails. -/
theorem allReady_of_reachable {filesConfig : FilesConfig} {w : World} {s : LogFiles × World}
    (hs : Reachable (fun s e => some (step plat driver regexReplace s e))
      (EventSucceeds plat driver regexReplace) (configure driver filesConfig, w) s) :
    s.1.AllReady := by
  refine hs.invariant (I := fun s => s.1.AllReady) ?_ ?_
  · intro path lf hlf
    exact absurd hlf (by simp [configure])
  · rintro s e s' - hready hok hstep
    obtain rfl := Option.some.inj hstep
    cases e with
    | compressor i => exact hready
    | process d =>
      obtain ⟨s', hprocess, hafter, -⟩ := process_appends hready hok
      show AllReady (s.1.process plat driver regexReplace s.2 d).2.1
      rw [hprocess]
      exact hafter

/-- The configuration stays what it was. -/
theorem config_of_reachable {filesConfig : FilesConfig} {w : World} {s : LogFiles × World}
    {ok : LogFiles × World → LogFilesEvent → Prop}
    (hs : Reachable (fun s e => some (step plat driver regexReplace s e)) ok
      (configure driver filesConfig, w) s) :
    s.1.filesConfig = filesConfig ∧
      s.1.filteredLogConfigs = filesConfig.logs.filter fun cfg => driver.valid cfg.filter := by
  refine hs.invariant (I := fun s => s.1.filesConfig = filesConfig ∧
    s.1.filteredLogConfigs = filesConfig.logs.filter fun cfg => driver.valid cfg.filter) ?_ ?_
  · exact ⟨rfl, rfl⟩
  · rintro s e s' - ⟨hconfig, hconfigs⟩ - hstep
    obtain rfl := Option.some.inj hstep
    cases e with
    | compressor i => exact ⟨hconfig, hconfigs⟩
    | process d =>
      obtain ⟨h₁, h₂, -⟩ := process_config plat driver regexReplace s.1 s.2 d
      exact ⟨h₁.trans hconfig, h₂.trans hconfigs⟩

end

section

open MessageFilter LogFile

variable (engine : RegexEngine) (now : Timestamp)

/-- The filter of an entry selects a message: a filter that is not empty when it is valid and
    true, an empty one always. -/
def Selects (cfg : LogFileConfig) (msg : Message) : Prop :=
  cfg.filter = [] ∨ (messageFilterDriver engine now).accepts cfg.filter msg = true

instance (cfg : LogFileConfig) (msg : Message) : Decidable (Selects engine now cfg msg) := by
  unfold Selects
  infer_instance

/-- An entry whose filter accepts a message has a driver. -/
theorem valid_of_accepts {filter : Str} {msg : Message}
    (h : (messageFilterDriver engine now).accepts filter msg = true) :
    (messageFilterDriver engine now).valid filter = true := by
  simp only [messageFilterDriver] at h ⊢
  cases hdrv : Driver.construct engine now filter with
  | some drv => rfl
  | none =>
    rw [hdrv] at h
    cases h

/-- The paths of a message are those of the entries that have a filter which accepts it. -/
theorem mem_routes_iff (regexReplace : Str → Str → Str) {lfs : LogFiles} {filesConfig : FilesConfig}
    (hconfig : lfs.filesConfig = filesConfig) (hconfigs : lfs.filteredLogConfigs =
      filesConfig.logs.filter fun cfg => (messageFilterDriver engine now).valid cfg.filter)
    (msg : Message) :
    ((routes (messageFilterDriver engine now) regexReplace lfs msg).2.map Prod.fst).Nodup ∧
      ∀ path, path ∈ (routes (messageFilterDriver engine now) regexReplace lfs msg).2.map Prod.fst ↔
        ∃ cfg ∈ filesConfig.logs, (messageFilterDriver engine now).accepts cfg.filter msg = true ∧
          path = pathFor regexReplace filesConfig.logDirectory lfs.logPathCache msg cfg := by
  obtain ⟨hnodup, hmem⟩ := logPathConfigs_spec (messageFilterDriver engine now) regexReplace
    filesConfig.logDirectory msg lfs.filteredLogConfigs lfs.logPathCache [] List.nodup_nil
  simp only [routes, hconfig]
  refine ⟨hnodup, fun path => ?_⟩
  rw [hmem path, hconfigs]
  simp only [List.map_nil, List.not_mem_nil, false_or, List.mem_filter]
  constructor
  · rintro ⟨cfg, ⟨hcfg, -⟩, haccepts, hpath⟩
    exact ⟨cfg, hcfg, haccepts, hpath⟩
  · rintro ⟨cfg, hcfg, haccepts, hpath⟩
    exact ⟨cfg, ⟨hcfg, valid_of_accepts engine now haccepts⟩, haccepts, hpath⟩

/-- Two entries with filters, for the user messages and for the severe ones. -/
def filteredFiles : FilesConfig where
  logDirectory := str "/log"
  logs := [{ filter := str "facility=user", pathPattern := str "%I" },
    { filter := str "severity>=err", pathPattern := str "%I" },
    { filter := str "severity>=err", pathPattern := str "severe" }]

/-- The same with an entry for all messages that has no filter. -/
def unfilteredFiles : FilesConfig where
  logDirectory := str "/log"
  logs := [{ pathPattern := str "all" }, { filter := str "facility=user", pathPattern := str "%I" }]

end

end LogFiles

end Mclog
