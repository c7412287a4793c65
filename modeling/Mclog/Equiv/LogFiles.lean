import Mclog.Equiv.LogFile
import Mclog.Equiv.LogPath
import Mclog.LogFiles

/-!
# Log files side by side

A log file rolls under names made from its path: `path`, `path.0` and `path.N.<ext>`, and those its
compressors are given.  No roll changes what is not at or below one of these (`Effect`), and they
are not above those of another log file, if neither has a name that the other's path is at or below
(`not_prefix_of_clear`).  So log files whose paths are clear of each other in this sense do not
touch each other (`rolls_touch_no_other`).  Nothing makes paths so, however: an application may be
called `app.0` (`roll_overwrites_other`).
-/

namespace Mclog

open General LogFile

/-- What the names of a log file are made of. -/
structure Stem where
  path : Str
  compress : Str
deriving DecidableEq

def LogFile.stem (lf : LogFile) : Stem := ⟨lf.path, lf.compress⟩

def Job.stem (job : Job) : Stem := ⟨job.path, job.compress⟩

def RollRecord.stem (r : RollRecord) : Stem := ⟨r.path, r.compress⟩

/-- The names that belong to a log file. -/
inductive Belongs (plat : Platform) (P : Stem) : List Str → Prop where
  | live : Belongs plat P (LogFile.key plat P.path)
  | rolled : Belongs plat P (LogFile.key plat (rolledString P.path))
  | archive (num : Nat) (h : num < 2 ^ 64) :
      Belongs plat P (LogFile.key plat (archiveString P.path num P.compress))

/-- The names that a roll and its compressors work on. -/
inductive Touches (plat : Platform) (P : Stem) : List Str → Prop where
  | own {k : List Str} (h : Belongs plat P k) : Touches plat P k
  | argument (file : Str) (h : file ∈ compressorArguments plat (rolledString P.path)) :
      Touches plat P (LogFile.key plat file)
  | compressed (file : Str) (h : file ∈ compressorArguments plat (rolledString P.path)) :
      Touches plat P (LogFile.key plat (file ++ dot :: archiveExtension P.compress))

/-- The path of `Q` is neither a name that belongs to `P` nor below one, and should the shell make
    another argument of `P.0`, then no compressor works on a name that belongs to `Q`, or above. -/
structure Clear (plat : Platform) (P Q : Stem) : Prop where
  ordinary : Ordinary (filename P.path)
  belongs : ∀ k, Belongs plat P k → ¬ k <+: LogFile.key plat Q.path
  shell : ∀ file ∈ compressorArguments plat (rolledString P.path), file ≠ rolledString P.path →
    ∀ k, Belongs plat Q k → ¬ LogFile.key plat file <+: k ∧
      ¬ LogFile.key plat (file ++ dot :: archiveExtension P.compress) <+: k

section

variable {plat : Platform} {P Q : Stem}

/-- The names that belong to a log file are in its directory. -/
theorem belongs_cases (hordinary : Ordinary (filename P.path)) {k : List Str}
    (h : Belongs plat P k) :
    k = directoryOf plat P.path ++ [filename P.path] ∨
      ∃ f e, k = directoryOf plat P.path ++ [f ++ dot :: e] ∧ dot ∉ e ∧
        ((f = filename P.path ∧ e = [48]) ∨
          ∃ num, f = filename P.path ++ dot :: decimal num ∧ e = archiveExtension P.compress) := by
  cases h with
  | live => exact Or.inl (key_path plat hordinary)
  | rolled =>
    refine Or.inr ⟨_, _, ?_, ?_, Or.inl ⟨rfl, rfl⟩⟩
    · exact key_rolledString plat hordinary
    · decide
  | archive num =>
    refine Or.inr ⟨_, _, ?_, ?_, Or.inr ⟨num, rfl, rfl⟩⟩
    · exact key_archiveString plat _ num P.compress
    · exact dot_notMem_archiveExtension P.compress

/-- **Clear paths have no names in common**: none that belongs to the one is at or above one that
    belongs to the other. -/
theorem not_prefix_of_belongs (h : Clear plat P Q) (h' : Clear plat Q P) {t k : List Str}
    (ht : Belongs plat P t) (hk : Belongs plat Q k) : ¬ t <+: k := by
  have hQ := key_path plat h'.ordinary
  intro hpre
  -- A name above one of `Q` is above the path of `Q`.
  obtain ⟨name, hname⟩ : ∃ name, k = directoryOf plat Q.path ++ [name] := by
    rcases belongs_cases h'.ordinary hk with hk | ⟨f, e, hk, -⟩ <;> exact ⟨_, hk⟩
  have habove : t = k := by
    rw [hname, List.prefix_concat_iff] at hpre
    rcases hpre with heq | hpre
    · rw [hname, heq]
    · refine absurd ?_ (h.belongs t ht)
      rw [hQ]
      exact hpre.trans (List.prefix_append _ _)
  subst habove
  rcases belongs_cases h'.ordinary hk with hpath | ⟨f', e', hname', hdot', hcases'⟩
  · exact h.belongs t ht (by rw [hpath, hQ])
  rcases belongs_cases h.ordinary ht with hpath | ⟨f, e, hname, hdot, hcases⟩
  · exact h'.belongs t hk (by rw [hpath, key_path plat h.ordinary])
  -- Both names have suffixes, and the suffixes are the same.
  rw [hname] at hname'
  obtain ⟨hdir, hfile⟩ := List.append_inj' hname' rfl
  obtain ⟨hf, he⟩ := append_dot_inj (List.singleton_inj.mp hfile) hdot hdot'
  have hdigit : ∀ compress, archiveExtension compress ≠ [48] := by
    intro compress heq
    have := two_le_length_archiveExtension compress
    rw [heq] at this
    simp at this
  have hsame : filename P.path = filename Q.path := by
    rcases hcases with ⟨rfl, rfl⟩ | ⟨num, rfl, rfl⟩
    · rcases hcases' with ⟨rfl, -⟩ | ⟨num', rfl, rfl⟩
      · exact hf
      · exact absurd he.symm (hdigit _)
    · rcases hcases' with ⟨rfl, rfl⟩ | ⟨num', rfl, -⟩
      · exact absurd he (hdigit _)
      · exact (append_dot_inj hf (not_mem_decimal (by decide) _) (not_mem_decimal (by decide) _)).1
  refine h.belongs _ .live ?_
  rw [hQ, key_path plat h.ordinary, hdir, hsame]

theorem not_prefix_of_clear (h : Clear plat P Q) (h' : Clear plat Q P) {t k : List Str}
    (ht : Touches plat P t) (hk : Belongs plat Q k) : ¬ t <+: k := by
  cases ht with
  | own ht => exact not_prefix_of_belongs h h' ht hk
  | argument file hfile =>
    by_cases hrolled : file = rolledString P.path
    · rw [hrolled]
      exact not_prefix_of_belongs h h' .rolled hk
    · exact (h.shell file hfile hrolled k hk).1
  | compressed file hfile =>
    by_cases hrolled : file = rolledString P.path
    · rw [hrolled, rolledString_append_extension]
      exact not_prefix_of_belongs h h' (.archive 0 (by norm_num)) hk
    · exact (h.shell file hfile hrolled k hk).2

/-- Different plain names in one directory are clear of each other. -/
theorem clear_of_plainName (hP : PlainName (filename P.path)) (hQ : PlainName (filename Q.path))
    (hdir : directoryOf plat P.path = directoryOf plat Q.path)
    (hne : filename P.path ≠ filename Q.path)
    (hshell : compressorArguments plat (rolledString P.path) = [rolledString P.path]) :
    Clear plat P Q := by
  refine ⟨hP.ordinary, ?_, ?_⟩
  · intro k hk hpre
    rw [key_path plat hQ.ordinary, ← hdir] at hpre
    rcases belongs_cases hP.ordinary hk with rfl | ⟨f, e, rfl, -⟩
    · exact hne (entry_prefix_iff.mp hpre)
    · refine hQ.dot_notMem ?_
      rw [← entry_prefix_iff.mp hpre]
      simp
  · intro file hfile hrolled
    rw [hshell] at hfile
    exact absurd (List.mem_singleton.mp hfile) hrolled

end

/-! ### What a call of a log file leaves alone -/

/-- What a call does: the log file keeps its names, its new compressors work on them, and its rolls
    change nothing else. -/
structure Effect (plat : Platform) (s s' : LogFile × World) : Prop where
  stem : s'.1.stem = s.1.stem
  jobs : ∀ job ∈ s'.2.jobs, job ∈ s.2.jobs ∨
    (job.stem = s.1.stem ∧ job.file ∈ compressorArguments plat (rolledString s.1.path))
  rolls : ∀ r ∈ s'.2.rolls, r ∈ s.2.rolls ∨
    (r.stem = s.1.stem ∧ FileStore.ChangesOnly (Touches plat r.stem) r.before r.after)
  compressions : s'.2.compressions = s.2.compressions

namespace Effect

variable {plat : Platform} {s s' s'' : LogFile × World}

theorem refl (plat : Platform) (s : LogFile × World) : Effect plat s s :=
  ⟨rfl, fun _ => Or.inl, fun _ => Or.inl, rfl⟩

/-- A call that only writes to the disk. -/
theorem of_disk (hstem : s'.1.stem = s.1.stem) (hjobs : s'.2.jobs = s.2.jobs)
    (hrolls : s'.2.rolls = s.2.rolls) (hcompressions : s'.2.compressions = s.2.compressions) :
    Effect plat s s' :=
  ⟨hstem, fun _ h => Or.inl (hjobs ▸ h), fun _ h => Or.inl (hrolls ▸ h), hcompressions⟩

theorem trans (h : Effect plat s s') (h' : Effect plat s' s'') : Effect plat s s'' := by
  have hpath : s'.1.path = s.1.path := congrArg Stem.path h.stem
  refine ⟨h'.stem.trans h.stem, ?_, ?_, h'.compressions.trans h.compressions⟩
  · intro job hjob
    rcases h'.jobs job hjob with hold | hnew
    · exact h.jobs job hold
    · rw [h.stem, hpath] at hnew
      exact Or.inr hnew
  · intro r hr
    rcases h'.rolls r hr with hold | hnew
    · exact h.rolls r hold
    · rw [h.stem] at hnew
      exact Or.inr hnew

end Effect

namespace LogFile

variable {plat : Platform} {env : Env} {lf : LogFile} {w : World}

theorem moveArchives_changesOnly (nums : List Nat) (hnums : ∀ num ∈ nums, num < 2 ^ 64)
    (disk : Disk) :
    FileStore.ChangesOnly (Touches plat lf.stem) disk (lf.moveArchives plat env nums disk).2 := by
  induction nums generalizing disk with
  | nil => exact .refl _ _
  | cons num nums ih =>
    have hrest := ih fun n hn => hnums n (by simp [hn])
    have hnum : Touches plat lf.stem (key plat (archiveString lf.path num lf.compress)) :=
      .own (.archive num (hnums num (by simp)))
    have hnext : Touches plat lf.stem
        (key plat (archiveString lf.path ((num + 1) % 2 ^ 64) lf.compress)) :=
      .own (.archive _ (Nat.mod_lt _ (by norm_num)))
    unfold moveArchives
    dsimp only
    split_ifs
    · exact .refl _ _
    · exact (FileStore.changesOnly_remove hnum).trans (hrest _)
    · split <;> exact .refl _ _
    · split
      · rename_i disk' hrename
        exact (FileStore.changesOnly_rename hrename hnum hnext).trans (hrest disk')
      · exact .refl _ _

variable (plat env lf)

theorem rollArchives_changesOnly (disk : Disk) :
    FileStore.ChangesOnly (Touches plat lf.stem) disk (lf.rollArchives plat env disk).2 := by
  unfold rollArchives
  split
  · rename_i archives harchives
    exact moveArchives_changesOnly archives (getArchives_lt harchives) disk
  · exact .refl _ _

/-- `RollCurrent` moves the live file, and starts compressors of it. -/
theorem rollCurrent_spec (w : World) :
    FileStore.ChangesOnly (Touches plat lf.stem) w.disk (lf.rollCurrent plat env w).2.disk ∧
      (∀ job ∈ (lf.rollCurrent plat env w).2.jobs, job ∈ w.jobs ∨
        (job.stem = lf.stem ∧ job.file ∈ compressorArguments plat (rolledString lf.path))) ∧
      (lf.rollCurrent plat env w).2.rolls = w.rolls ∧
      (lf.rollCurrent plat env w).2.compressions = w.compressions := by
  unfold rollCurrent
  split
  · rename_i disk hrename
    split_ifs
    · exact ⟨.refl _ _, fun _ => Or.inl, rfl, rfl⟩
    · exact ⟨FileStore.changesOnly_rename hrename (.own .live) (.own .rolled),
        fun job hjob => Or.inl (by simpa using hjob), rfl, rfl⟩
    · refine ⟨FileStore.changesOnly_rename hrename (.own .live) (.own .rolled), ?_, rfl, rfl⟩
      intro job hjob
      rcases List.mem_append.mp hjob with hold | hnew
      · exact Or.inl hold
      · obtain ⟨file, hfile, rfl⟩ := List.mem_map.mp hnew
        exact Or.inr ⟨rfl, hfile⟩
  · exact ⟨.refl _ _, fun _ => Or.inl, rfl, rfl⟩

variable (w)

theorem rollFiles_effect : Effect plat (lf, w) (lf, (lf.rollFiles plat env w).2) := by
  have harchives := rollArchives_changesOnly plat env lf w.disk
  unfold rollFiles
  generalize lf.rollArchives plat env w.disk = p at harchives ⊢
  obtain ⟨completed, disk⟩ := p
  obtain ⟨hchanges, hjobs, hrolls, hcompressions⟩ :=
    rollCurrent_spec plat env lf { w with disk }
  cases completed with
  | false =>
    refine ⟨rfl, fun _ => Or.inl, ?_, rfl⟩
    intro r hr
    rcases List.mem_append.mp hr with hold | hnew
    · exact Or.inl hold
    · obtain rfl := List.mem_singleton.mp hnew
      exact Or.inr ⟨rfl, harchives⟩
  | true =>
    refine ⟨rfl, hjobs, ?_, hcompressions⟩
    intro r hr
    rcases List.mem_append.mp hr with hold | hnew
    · exact Or.inl hold
    · obtain rfl := List.mem_singleton.mp hnew
      exact Or.inr ⟨rfl, harchives.trans hchanges⟩

theorem roll_effect : Effect plat (lf, w) (lf.roll plat env w).2 := by
  have h := rollFiles_effect plat env lf w
  unfold roll
  generalize lf.rollFiles plat env w = p at h ⊢
  obtain ⟨completed, w'⟩ := p
  cases completed with
  | false => exact h
  | true => exact h.trans (.of_disk rfl rfl rfl rfl)

theorem openFile_effect : Effect plat (lf, w) (lf.openFile plat env w).2 := by
  unfold openFile
  split
  · exact .refl _ _
  · exact .refl _ _
  · dsimp only
    split_ifs
    · exact .refl _ _
    · split <;> exact .of_disk rfl rfl rfl rfl

theorem openNoLock_effect : Effect plat (lf, w) (lf.openNoLock plat env w).2 := by
  unfold openNoLock
  split_ifs
  · exact .refl _ _
  · have h := roll_effect plat env lf w
    generalize lf.roll plat env w = p at h ⊢
    obtain ⟨completed, lf', w'⟩ := p
    cases completed with
    | false => exact h
    | true => exact h.trans (openFile_effect plat env lf' w')
  · exact openFile_effect plat env lf w

theorem close_effect : Effect plat (lf, w) (lf.close env w) := by
  unfold close
  split
  · exact .refl _ _
  · dsimp only
    split_ifs <;> exact .of_disk rfl rfl rfl rfl

theorem writeRecord_effect (msg : Message) :
    Effect plat (lf, w) (lf.writeRecord plat env w msg).2 := by
  unfold writeRecord
  split
  · exact .refl _ _
  · dsimp only
    split_ifs
    · exact .of_disk rfl rfl rfl rfl
    · exact .of_disk rfl rfl rfl rfl
    · exact .refl _ _

theorem process_effect (msg : Message) : Effect plat (lf, w) (lf.process plat env w msg).2 := by
  unfold process
  split_ifs
  · have hclose := close_effect plat env lf w
    generalize lf.close env w = p at hclose ⊢
    obtain ⟨lf₁, w₁⟩ := p
    have hroll := roll_effect plat env lf₁ w₁
    dsimp only
    generalize lf₁.roll plat env w₁ = p at hroll ⊢
    obtain ⟨completed, lf₂, w₂⟩ := p
    cases completed with
    | false => exact hclose.trans hroll
    | true =>
      have hopen := openNoLock_effect plat env lf₂ w₂
      dsimp only
      generalize lf₂.openNoLock plat env w₂ = p at hopen ⊢
      obtain ⟨rc, lf₃, w₃⟩ := p
      cases rc with
      | none => exact (hclose.trans hroll).trans hopen
      | some rc =>
        exact ((hclose.trans hroll).trans hopen).trans (writeRecord_effect plat env lf₃ w₃ msg)
  · exact writeRecord_effect plat env lf w msg
  · exact .refl _ _

end LogFile

/-! ### Runs -/

namespace LogFiles

variable {plat : Platform}

/-- The log files there are. -/
def stems (lfs : LogFiles) : List Stem := lfs.logFiles.entries.map fun e => e.2.stem

/-- The log files constructed for the paths that have none. -/
def constructed (plat : Platform) (lfs : LogFiles) (time : Int)
    (logPaths : List (Str × LogFileConfig)) : List Stem :=
  (logPaths.filter fun e => e.1 ∉ lfs.logFiles).map fun e => (LogFile.of plat e.1 e.2 time).stem

/-- The log files there are, and those an event constructs. -/
def inUse (plat : Platform) (driver : MessageFilterDriver) (regexReplace : Str → Str → Str)
    (s : LogFiles × World) : LogFilesEvent → List Stem
  | .process d =>
    let logPaths := (logPathConfigs driver regexReplace s.1.filesConfig.logDirectory d.msg
      s.1.filteredLogConfigs s.1.logPathCache []).2
    s.1.stems ++ constructed plat s.1 d.time logPaths
  | .compressor _ => s.1.stems

/-- The paths of the log files in use are clear of each other. -/
def KeepsClear (plat : Platform) (driver : MessageFilterDriver) (regexReplace : Str → Str → Str)
    (s : LogFiles × World) (e : LogFilesEvent) : Prop :=
  ∀ P ∈ inUse plat driver regexReplace s e, ∀ Q ∈ inUse plat driver regexReplace s e,
    P.path ≠ Q.path → Clear plat P Q

/-- A log file's path is its key, compressors work for log files there are, and what rolls and
    compressors did is confined to the names of theirs. -/
structure Sound (plat : Platform) (s : LogFiles × World) : Prop where
  path : ∀ path lf, s.1.logFiles.lookup path = some lf → lf.path = path
  jobs : ∀ job ∈ s.2.jobs,
    job.stem ∈ s.1.stems ∧ job.file ∈ compressorArguments plat (rolledString job.path)
  records : ∀ r ∈ s.2.rolls ++ s.2.compressions,
    r.stem ∈ s.1.stems ∧ FileStore.ChangesOnly (Touches plat r.stem) r.before r.after

theorem mem_stems_iff {lfs : LogFiles} {P : Stem} :
    P ∈ lfs.stems ↔ ∃ path lf, lfs.logFiles.lookup path = some lf ∧ lf.stem = P := by
  unfold stems
  rw [List.mem_map]
  constructor
  · rintro ⟨e, he, rfl⟩
    exact ⟨e.1, e.2, AList.mem_lookup_iff.mpr he, rfl⟩
  · rintro ⟨path, lf, hlookup, rfl⟩
    exact ⟨⟨path, lf⟩, AList.mem_lookup_iff.mp hlookup, rfl⟩

/-- Putting a log file in its place adds it to those there are. -/
theorem mem_stems_insert {lfs : LogFiles} {path : Str} {lf : LogFile}
    (hold : ∀ lf', lfs.logFiles.lookup path = some lf' → lf'.stem = lf.stem) {P : Stem} :
    P ∈ ({ lfs with logFiles := lfs.logFiles.insert path lf } : LogFiles).stems ↔
      P ∈ lfs.stems ∨ P = lf.stem := by
  rw [mem_stems_iff, mem_stems_iff]
  constructor
  · rintro ⟨path', lf', hlookup, rfl⟩
    by_cases hpath : path' = path
    · subst hpath
      rw [AList.lookup_insert] at hlookup
      rw [Option.some.inj hlookup]
      exact Or.inr rfl
    · rw [AList.lookup_insert_ne hpath] at hlookup
      exact Or.inl ⟨path', lf', hlookup, rfl⟩
  · rintro (⟨path', lf', hlookup, rfl⟩ | rfl)
    · by_cases hpath : path' = path
      · subst hpath
        exact ⟨path', lf, AList.lookup_insert _, (hold lf' hlookup).symm⟩
      · exact ⟨path', lf', by rw [AList.lookup_insert_ne hpath]; exact hlookup, rfl⟩
    · exact ⟨path, lf, AList.lookup_insert _, rfl⟩

/-- A call of a log file keeps all log files sound. -/
theorem Sound.of_effect {lfs : LogFiles} {w w' : World} {path : Str} {lf lf' : LogFile}
    (h : Sound plat (lfs, w)) (hpath : lf.path = path)
    (hold : ∀ lf₀, lfs.logFiles.lookup path = some lf₀ → lf₀.stem = lf.stem)
    (heffect : Effect plat (lf, w) (lf', w')) :
    Sound plat ({ lfs with logFiles := lfs.logFiles.insert path lf' }, w') := by
  have hstem : lf'.stem = lf.stem := heffect.stem
  have hmem : ∀ P, P ∈ ({ lfs with logFiles := lfs.logFiles.insert path lf' } : LogFiles).stems ↔
      P ∈ lfs.stems ∨ P = lf'.stem :=
    fun P => mem_stems_insert fun lf₀ h₀ => (hold lf₀ h₀).trans hstem.symm
  refine ⟨?_, ?_, ?_⟩
  · intro path' lf₁ hlookup
    by_cases heq : path' = path
    · subst heq
      simp only [AList.lookup_insert] at hlookup
      rw [← Option.some.inj hlookup, ← hpath]
      exact congrArg Stem.path hstem
    · simp only [AList.lookup_insert_ne heq] at hlookup
      exact h.path path' lf₁ hlookup
  · intro job hjob
    simp only [hmem]
    rcases heffect.jobs job hjob with hprev | ⟨hjobstem, hfile⟩
    · obtain ⟨hin, hfile⟩ := h.jobs job hprev
      exact ⟨Or.inl hin, hfile⟩
    · have hjobpath : job.path = lf.path := congrArg Stem.path hjobstem
      refine ⟨Or.inr (hjobstem.trans hstem.symm), ?_⟩
      rw [hjobpath]
      exact hfile
  · intro r hr
    simp only [hmem]
    have hprev : ∀ r ∈ w.rolls ++ w.compressions, (r.stem ∈ lfs.stems ∨ r.stem = lf'.stem) ∧
        FileStore.ChangesOnly (Touches plat r.stem) r.before r.after := by
      intro r hr
      obtain ⟨hin, hchanges⟩ := h.records r hr
      exact ⟨Or.inl hin, hchanges⟩
    have hcompressions : w'.compressions = w.compressions := heffect.compressions
    rcases List.mem_append.mp hr with hroll | hcompression
    · rcases heffect.rolls r hroll with hroll | ⟨hrstem, hchanges⟩
      · exact hprev r (List.mem_append_left _ hroll)
      · exact ⟨Or.inr (hrstem.trans hstem.symm), hchanges⟩
    · simp only [hcompressions] at hcompression
      exact hprev r (List.mem_append_right _ hcompression)

/-- Log files are only added: there are no others than before and those in `new`. -/
structure Grows (new : List Stem) (lfs lfs' : LogFiles) : Prop where
  stems : ∀ P ∈ lfs'.stems, P ∈ lfs.stems ∨ P ∈ new
  keys : ∀ path ∈ lfs.logFiles, path ∈ lfs'.logFiles

theorem Grows.insert {new : List Stem} {lfs : LogFiles} {path : Str} {lf : LogFile}
    (hold : ∀ lf', lfs.logFiles.lookup path = some lf' → lf'.stem = lf.stem)
    (hnew : lf.stem ∈ lfs.stems ∨ lf.stem ∈ new) :
    Grows new lfs { lfs with logFiles := lfs.logFiles.insert path lf } := by
  refine ⟨?_, ?_⟩
  · intro P hP
    rcases (mem_stems_insert hold).mp hP with hP | rfl
    · exact Or.inl hP
    · exact hnew
  · intro path' hpath'
    exact (AList.mem_insert _).mpr (Or.inr hpath')

theorem mem_constructed_iff {time : Int} {lfs : LogFiles} {logPaths : List (Str × LogFileConfig)}
    {P : Stem} : P ∈ constructed plat lfs time logPaths ↔
      ∃ e ∈ logPaths, e.1 ∉ lfs.logFiles ∧ (LogFile.of plat e.1 e.2 time).stem = P := by
  unfold constructed
  simp [and_assoc]

/-- One path: its log file is used, or constructed and opened. -/
theorem processPath_sound {lfs : LogFiles} {w : World} (h : Sound plat (lfs, w)) (d : Delivery)
    (path : Str) (cfg : LogFileConfig) :
    Sound plat (lfs.processPath plat w d path cfg).2 ∧
      Grows (constructed plat lfs d.time [(path, cfg)]) lfs
        (lfs.processPath plat w d path cfg).2.1 := by
  unfold processPath
  cases hlookup : lfs.logFiles.lookup path with
  | some lf =>
    -- It stays at its path, with the stem it has.
    have heffect := LogFile.process_effect plat (d.processEnv path) lf w d.msg
    have hpath := h.path path lf hlookup
    dsimp only
    generalize lf.process plat (d.processEnv path) w d.msg = p at heffect ⊢
    obtain ⟨rc, lf', w'⟩ := p
    have hstem : lf'.stem = lf.stem := heffect.stem
    refine ⟨h.of_effect hpath ?_ heffect, .insert ?_ (Or.inl ?_)⟩
    · intro lf₀ h₀
      rw [hlookup] at h₀
      rw [Option.some.inj h₀]
    · intro lf₀ h₀
      rw [hlookup] at h₀
      rw [hstem, Option.some.inj h₀]
    · rw [hstem]
      exact mem_stems_iff.mpr ⟨path, lf, hlookup, rfl⟩
  | none =>
    let lf := LogFile.of plat path cfg d.time
    have hnot : path ∉ lfs.logFiles := AList.lookup_eq_none.mp hlookup
    have hnone : ∀ {P : Stem}, ∀ lf₀, lfs.logFiles.lookup path = some lf₀ → lf₀.stem = P := by
      intro P lf₀ h₀
      rw [hlookup] at h₀
      cases h₀
    have hgrows : ∀ {lf' : LogFile}, lf'.stem = lf.stem →
        Grows (constructed plat lfs d.time [(path, cfg)]) lfs
          { lfs with logFiles := lfs.logFiles.insert path lf' } := by
      intro lf' hstem
      refine .insert hnone (Or.inr ?_)
      exact mem_constructed_iff.mpr ⟨(path, cfg), by simp, hnot, hstem.symm⟩
    have hopen := LogFile.openNoLock_effect plat (d.openEnv path) lf w
    dsimp only
    generalize lf.openNoLock plat (d.openEnv path) w = p at hopen ⊢
    obtain ⟨rc, lf₁, w₁⟩ := p
    cases rc with
    | none =>
      -- The roll before it does not come to an end, and it is not used.
      exact ⟨h.of_effect rfl hnone hopen, hgrows hopen.stem⟩
    | some rc =>
      have heffect := hopen.trans (LogFile.process_effect plat (d.processEnv path) lf₁ w₁ d.msg)
      dsimp only
      generalize lf₁.process plat (d.processEnv path) w₁ d.msg = p at heffect ⊢
      obtain ⟨rc', lf₂, w₂⟩ := p
      exact ⟨h.of_effect rfl hnone heffect, hgrows heffect.stem⟩

theorem processPaths_sound {lfs : LogFiles} {w : World} (h : Sound plat (lfs, w)) (d : Delivery)
    (logPaths : List (Str × LogFileConfig)) :
    Sound plat (processPaths plat d logPaths lfs w).2 ∧
      Grows (constructed plat lfs d.time logPaths) lfs
        (processPaths plat d logPaths lfs w).2.1 := by
  induction logPaths generalizing lfs w with
  | nil => exact ⟨h, fun _ => Or.inl, fun _ => id⟩
  | cons e logPaths ih =>
    obtain ⟨path, cfg⟩ := e
    obtain ⟨hfirst, hgrows⟩ := processPath_sound h d path cfg
    have hsub : ∀ P ∈ constructed plat lfs d.time [(path, cfg)],
        P ∈ constructed plat lfs d.time ((path, cfg) :: logPaths) := by
      intro P hP
      obtain ⟨e, he, hnot, hstem⟩ := mem_constructed_iff.mp hP
      exact mem_constructed_iff.mpr ⟨e, by simp at he; simp [he], hnot, hstem⟩
    unfold processPaths
    generalize lfs.processPath plat w d path cfg = p at hfirst hgrows ⊢
    obtain ⟨rc, lfs₁, w₁⟩ := p
    cases rc with
    | none => exact ⟨hfirst, fun P hP => (hgrows.stems P hP).imp_right (hsub P), hgrows.keys⟩
    | some rc =>
      obtain ⟨hrest, hgrows'⟩ := ih hfirst
      refine ⟨hrest, ?_, fun path hpath => hgrows'.keys path (hgrows.keys path hpath)⟩
      intro P hP
      rcases hgrows'.stems P hP with hP | hP
      · exact (hgrows.stems P hP).imp_right (hsub P)
      · -- What has no log file now had none before.
        obtain ⟨e, he, hnot, hstem⟩ := mem_constructed_iff.mp hP
        exact Or.inr (mem_constructed_iff.mpr
          ⟨e, by simp [he], fun hin => hnot (hgrows.keys _ hin), hstem⟩)

/-- A compressor works on the names of the log file it was started for. -/
theorem Sound.compressorStep {lfs : LogFiles} {w : World} (h : Sound plat (lfs, w)) (i : Nat) :
    Sound plat (lfs, w.compressorStep plat i) := by
  unfold World.compressorStep
  cases hget : w.jobs[i]? with
  | none => exact h
  | some job =>
    obtain ⟨hstem, hfile⟩ := h.jobs job (List.mem_of_getElem? hget)
    have hset : ∀ phase, ∀ job' ∈ w.jobs.set i { job with phase }, job'.stem ∈ lfs.stems ∧
        job'.file ∈ compressorArguments plat (rolledString job'.path) := by
      intro phase job' hjob'
      rcases List.mem_or_eq_of_mem_set hjob' with hjob' | rfl
      · exact h.jobs job' hjob'
      · exact ⟨hstem, hfile⟩
    have herase : ∀ job' ∈ w.jobs.eraseIdx i, job'.stem ∈ lfs.stems ∧
        job'.file ∈ compressorArguments plat (rolledString job'.path) :=
      fun job' hjob' => h.jobs job' (List.mem_of_mem_eraseIdx hjob')
    have hrecords : ∀ {disk : Disk}, FileStore.ChangesOnly (Touches plat job.stem) w.disk disk →
        ∀ r ∈ w.rolls ++ (w.compressions ++ [⟨job.path, job.compress, w.disk, disk⟩]),
          r.stem ∈ lfs.stems ∧ FileStore.ChangesOnly (Touches plat r.stem) r.before r.after := by
      intro disk hchanges r hr
      rw [← List.append_assoc] at hr
      rcases List.mem_append.mp hr with hr | hr
      · exact h.records r hr
      · obtain rfl := List.mem_singleton.mp hr
        exact ⟨hstem, hchanges⟩
    dsimp only
    cases job.phase with
    | started =>
      dsimp only
      split
      · exact ⟨h.path, hset _, h.records⟩
      · exact ⟨h.path, herase, h.records⟩
    | opened node =>
      dsimp only
      split_ifs
      · exact ⟨h.path, herase, h.records⟩
      · exact ⟨h.path, hset _, hrecords (FileStore.changesOnly_create (.compressed _ hfile))⟩
    | created =>
      exact ⟨h.path, herase, hrecords (FileStore.changesOnly_remove (.argument _ hfile))⟩

/-- **One step** keeps the log files sound, and those there are after it were in use in it. -/
theorem step_sound (driver : MessageFilterDriver) (regexReplace : Str → Str → Str)
    {s : LogFiles × World} (h : Sound plat s) (e : LogFilesEvent) :
    Sound plat (step plat driver regexReplace s e) ∧
      ∀ P ∈ (step plat driver regexReplace s e).1.stems,
        P ∈ inUse plat driver regexReplace s e := by
  obtain ⟨lfs, w⟩ := s
  cases e with
  | process d =>
    unfold step process inUse
    dsimp only
    generalize logPathConfigs driver regexReplace lfs.filesConfig.logDirectory d.msg
      lfs.filteredLogConfigs lfs.logPathCache [] = p
    obtain ⟨cache, logPaths⟩ := p
    have hcache : Sound plat ({ lfs with logPathCache := cache }, w) :=
      ⟨h.path, h.jobs, h.records⟩
    obtain ⟨hsound, hgrows⟩ := processPaths_sound hcache d logPaths
    exact ⟨hsound, fun P hP => List.mem_append.mpr (hgrows.stems P hP)⟩
  | compressor i => exact ⟨h.compressorStep i, fun _ => id⟩

/-- **Rolling a log touches no other.**  In every state that is reached while the paths of the log
    files in use are clear of each other, all rolls and all steps of compressors have left the files
    of the other log files there are as they were. -/
theorem rolls_touch_no_other (plat : Platform) (driver : MessageFilterDriver)
    (regexReplace : Str → Str → Str) (filesConfig : FilesConfig) (disk : Disk)
    {s : LogFiles × World}
    (h : Reachable (fun s e => some (step plat driver regexReplace s e))
      (KeepsClear plat driver regexReplace) (configure driver filesConfig, { disk }) s) :
    ∀ r ∈ s.2.rolls ++ s.2.compressions, ∀ path lf, s.1.logFiles.lookup path = some lf →
      path ≠ r.path → ∀ k, Belongs plat lf.stem k →
        r.after.find k = r.before.find k ∧ r.after.read k = r.before.read k := by
  have hinvariant : Sound plat s ∧
      ∀ P ∈ s.1.stems, ∀ Q ∈ s.1.stems, P.path ≠ Q.path → Clear plat P Q := by
    refine h.invariant (I := fun s => Sound plat s ∧
      ∀ P ∈ s.1.stems, ∀ Q ∈ s.1.stems, P.path ≠ Q.path → Clear plat P Q) ?_ ?_
    · refine ⟨⟨?_, ?_, ?_⟩, ?_⟩
      · intro path lf hlookup
        cases hlookup
      · intro job hjob
        cases hjob
      · intro r hr
        cases hr
      · intro P hP
        cases hP
    · rintro s e s' - ⟨hsound, -⟩ hclear hstep
      obtain rfl := Option.some.inj hstep
      obtain ⟨hsound', hstems⟩ := step_sound driver regexReplace hsound e
      exact ⟨hsound', fun P hP Q hQ => hclear P (hstems P hP) Q (hstems Q hQ)⟩
  obtain ⟨hsound, hclear⟩ := hinvariant
  intro r hr path lf hlookup hne k hk
  obtain ⟨hstem, hchanges⟩ := hsound.records r hr
  have hlf : lf.stem ∈ s.1.stems := mem_stems_iff.mpr ⟨path, lf, hlookup, rfl⟩
  have hpath : lf.stem.path = path := hsound.path path lf hlookup
  refine hchanges k fun t ht => not_prefix_of_clear ?_ ?_ ht hk
  · exact hclear _ hstem _ hlf (by rw [hpath]; exact hne.symm)
  · exact hclear _ hlf _ hstem (by rw [hpath]; exact hne)

/-- A filter driver that takes every filter, and every message with it. -/
def anyDriver : MessageFilterDriver := ⟨fun _ => true, fun _ _ => true⟩

/-- One log file for every application, rolled before every message but its first. -/
def appFiles : FilesConfig where
  logDirectory := str "/log"
  logs := [{ pathPattern := str "%I", size := 1 }]

/-- A message of an application; its log file has the given size. -/
def deliveryFrom (appname : ShortString 255) (tellp : Int) : Delivery where
  msg := messageFrom ⟨str "host", length_host_le⟩ appname
  processEnv _ := { tellp }

/-- Two applications with plain names, and a roll of one of their log files. -/
def plainDeliveries : List LogFilesEvent :=
  [.process (deliveryFrom ⟨str "app", length_app_le⟩ 0),
   .process (deliveryFrom ⟨str "other", by decide⟩ 0),
   .process (deliveryFrom ⟨str "app", length_app_le⟩ 26),
   .compressor 0, .compressor 0, .compressor 0]

/-- Two applications whose log files do not touch each other. -/
theorem rolls_touch_no_other_plain :
    let s := run plainPlatform anyDriver literalRegexReplace
      (configure anyDriver appFiles, { disk := emptyDisk }) plainDeliveries
    s.2.rolls.length = 1 ∧ s.2.compressions.length = 2 ∧
      ∀ r ∈ s.2.rolls ++ s.2.compressions, ∀ path lf, s.1.logFiles.lookup path = some lf →
        path ≠ r.path → ∀ k, Belongs plainPlatform lf.stem k →
          r.after.find k = r.before.find k ∧ r.after.read k = r.before.read k := by
  intro s
  -- The log files of the two applications are clear of each other.
  have happ : PlainName (filename (str "/log/app")) := by decide
  have hother : PlainName (filename (str "/log/other")) := by decide
  have hclear : ∀ P ∈ [Stem.mk (str "/log/app") (str "bzip2"), ⟨str "/log/other", str "bzip2"⟩],
      ∀ Q ∈ [Stem.mk (str "/log/app") (str "bzip2"), ⟨str "/log/other", str "bzip2"⟩],
      P.path ≠ Q.path → Clear plainPlatform P Q := by
    intro P hP Q hQ hne
    fin_cases hP <;> fin_cases hQ
    · exact absurd rfl hne
    · exact clear_of_plainName happ hother (by decide) (by decide) (by decide)
    · exact clear_of_plainName hother happ (by decide) (by decide) (by decide)
    · exact absurd rfl hne
  have hkeeps : ∀ s e, (∀ P ∈ inUse plainPlatform anyDriver literalRegexReplace s e,
      P ∈ [Stem.mk (str "/log/app") (str "bzip2"), ⟨str "/log/other", str "bzip2"⟩]) →
      KeepsClear plainPlatform anyDriver literalRegexReplace s e :=
    fun s e hin P hP Q hQ => hclear P (hin P hP) Q (hin Q hQ)
  refine ⟨by decide, by decide, ?_⟩
  refine rolls_touch_no_other plainPlatform anyDriver literalRegexReplace appFiles emptyDisk ?_
  exact ((((((Reachable.init.step (hkeeps _ (.process _) (by decide)) rfl).step
    (hkeeps _ (.process _) (by decide)) rfl).step (hkeeps _ (.process _) (by decide)) rfl).step
    (hkeeps _ (.compressor 0) (by decide)) rfl).step (hkeeps _ (.compressor 0) (by decide)) rfl).step
    (hkeeps _ (.compressor 0) (by decide)) rfl)

/-- An application called `app.0`, and a roll of the log file of another one. -/
def overwritingDeliveries : List LogFilesEvent :=
  [.process (deliveryFrom ⟨str "app.0", by decide⟩ 0),
   .process (deliveryFrom ⟨str "app", length_app_le⟩ 0),
   .process (deliveryFrom ⟨str "app", length_app_le⟩ 26)]

/-- **A roll overwrites another log.**  The decoder delivers a message of an application `app.0`.
    When the log file of `app` rolls, it becomes that of `app.0`. -/
theorem roll_overwrites_other :
    let msg := messageFrom ⟨str "host", by decide⟩ ⟨str "app", by decide⟩
    let msg' := messageFrom ⟨str "host", by decide⟩ ⟨str "app.0", by decide⟩
    let s := run plainPlatform anyDriver literalRegexReplace
      (configure anyDriver appFiles, { disk := emptyDisk }) overwritingDeliveries
    Message.read prefixedStreams (msg.write prefixedStreams) = some (msg, []) ∧
      Message.read prefixedStreams (msg'.write prefixedStreams) = some (msg', []) ∧
      (s.1.logFiles.lookup (str "/log/app.0")).isSome ∧
      ∃ r ∈ s.2.rolls, r.path = str "/log/app" ∧
        r.before.read (LogFile.key plainPlatform (str "/log/app.0")) =
          some (LogFile.record plainPlatform .text msg') ∧
        r.after.read (LogFile.key plainPlatform (str "/log/app.0")) =
          some (LogFile.record plainPlatform .text msg) := by
  intro msg msg' s
  have hread := Message.read_write_of_acceptable prefixedStreams (m := msg) (by decide) []
  have hread' := Message.read_write_of_acceptable prefixedStreams (m := msg') (by decide) []
  rw [List.append_nil] at hread hread'
  have hrolls : s.2.rolls.map (fun r => (r.path,
      r.before.read (LogFile.key plainPlatform (str "/log/app.0")),
      r.after.read (LogFile.key plainPlatform (str "/log/app.0")))) =
      [(str "/log/app", some (LogFile.record plainPlatform .text msg'),
        some (LogFile.record plainPlatform .text msg))] := by decide
  refine ⟨hread, hread', by decide, ?_⟩
  obtain ⟨r, hr, hvalues⟩ := List.mem_map.mp (hrolls ▸ List.mem_cons_self)
  simp only [Prod.mk.injEq] at hvalues
  exact ⟨r, hr, hvalues⟩

end LogFiles

end Mclog
