import Mclog.LogFileCalls

/-!
# The programs and the calls of a log file agree

Answered from a disk, the programs of `LogFileCalls` do to it, and return, what the functions of
`LogFile` say (`exec_openNoLock`, `exec_process`): those take the results of the system calls all at
once, and the programs one by one.  The lemmas are one for each function, from the calls up.
-/

namespace Mclog

open General Program

/-- What calls change: the disk and the compressors. -/
def World.files (w : World) : Disk × List Job := (w.disk, w.jobs)

namespace LogFileProgram

variable {plat : Platform} {env : Env} {lf : LogFile} {w : World} {s : Disk × List Job}

open LogFileCall (handle)

theorem exec_attempt {α : Type} (op : LogFileCall (Option α)) :
    exec (handle plat env) (attempt op) s = handle plat env op s := by
  show exec (handle plat env) _ (handle plat env op s).2 = _
  cases h : handle plat env op s with
  | mk r s' =>
    cases r with
    | none => rfl
    | some a => rfl

theorem exec_needRollBeforeOpen :
    exec (handle plat env) (needRollBeforeOpen lf) w.files =
      (some (lf.needRollBeforeOpen plat env w.disk), w.files) := by
  unfold needRollBeforeOpen LogFile.needRollBeforeOpen
  rw [perform_bind, exec_call]
  simp only [handle, World.files]
  cases w.disk.find (LogFile.key plat lf.path) with
  | some node => rfl
  | none =>
    by_cases hdir : w.disk.IsDirectory (LogFile.key plat lf.path)
    · simp [hdir]
    · simp [hdir]

/-! ### Rolling -/

/-- The files of a listing are regular files. -/
theorem exec_findArchives (dir : Str) (rgx : Str → Option Str) (names : List Str) :
    exec (handle plat env) (findArchives dir rgx names) s =
      ((names.filterMap rgx).mapM stoull, s) := by
  induction names with
  | nil => rfl
  | cons fname names ih =>
    unfold findArchives
    rw [exec_bind_of_some _ (exec_attempt _)]
    simp only [if_true]
    cases hdigits : rgx fname with
    | none =>
      rw [List.filterMap_cons_none hdigits]
      exact ih
    | some digits =>
      rw [List.filterMap_cons_some hdigits, List.mapM_cons]
      cases hnum : stoull digits with
      | none =>
        have hexec : exec (handle plat env) (attempt (.stoull digits)) s = (none, s) := by
          rw [exec_attempt, ← hnum]
          rfl
        exact exec_bind_of_none _ hexec
      | some num =>
        have hexec : exec (handle plat env) (attempt (.stoull digits)) s = (some num, s) := by
          rw [exec_attempt, ← hnum]
          rfl
        simp only [exec_bind_of_some _ hexec, exec_bind, ih]
        cases (names.filterMap rgx).mapM stoull with
        | none => rfl
        | some nums => rfl

theorem exec_getArchives :
    exec (handle plat env) (getArchives lf) s =
      ((lf.getArchives plat env s.1).map fun nums =>
        nums.map fun num => ⟨lf.path, num, lf.compress⟩, s) := by
  unfold getArchives LogFile.getArchives
  simp only [exec_bind, exec_attempt, exec_perform, exec_findArchives]
  simp only [handle]
  cases archiveRegex plat (filename lf.path) (archiveExtension lf.compress) with
  | none => split_ifs <;> rfl
  | some rgx =>
    by_cases hfailed : (parentPath lf.path).isEmpty ∨ env.fails .list
    · simp only [if_pos hfailed]
      rfl
    · simp only [if_neg hfailed]
      simp only [Option.bind_eq_bind, Option.bind_some]
      cases ((s.1.listing (LogFile.key plat (parentPath lf.path))).filterMap rgx).mapM stoull with
      | none => rfl
      | some nums => rfl

/-- How a loop that may be ended by an exception ends. -/
def completed (b : Bool) : Option Unit := if b then some () else none

theorem handle_remove (num : Nat) :
    handle plat env (.remove ⟨lf.path, num, lf.compress⟩) s =
      let k := LogFile.key plat (archiveString lf.path num lf.compress)
      if env.fails (.remove num) ∨ s.1.IsDirectory k then (none, s)
      else (some (s.1.find k).isSome, s.1.remove k, s.2) :=
  rfl

theorem exec_moveArchives (nums : List Nat) (s : Disk × List Job) :
    exec (handle plat env)
        (moveArchives lf.keep (nums.map fun num => ⟨lf.path, num, lf.compress⟩)) s =
      (completed (lf.moveArchives plat env nums s.1).1, (lf.moveArchives plat env nums s.1).2,
        s.2) := by
  induction nums generalizing s with
  | nil => rfl
  | cons num nums ih =>
    rw [List.map_cons, moveArchives, LogFile.moveArchives, exec_bind, moveArchive]
    simp only
    by_cases hkeep : (num + 1) % 2 ^ 64 ≥ lf.keep.toNat
    · rw [if_pos hkeep, if_pos hkeep, exec_bind, exec_attempt, handle_remove]
      by_cases hfails : env.fails (.remove num) ∨
          s.1.IsDirectory (LogFile.key plat (archiveString lf.path num lf.compress))
      · rw [if_pos hfails, if_pos hfails]
        rfl
      · rw [if_neg hfails, if_neg hfails]
        exact ih _
    · rw [if_neg hkeep, if_neg hkeep, exec_attempt]
      simp only [handle, Archive.string, Archive.next]
      cases s.1.rename (LogFile.key plat (archiveString lf.path num lf.compress))
          (LogFile.key plat (archiveString lf.path ((num + 1) % 2 ^ 64) lf.compress)) with
      | none => rfl
      | some disk =>
        by_cases hfails : env.fails (.rename num)
        · simp only [if_pos hfails]
          rfl
        · simp only [if_neg hfails]
          exact ih _

theorem exec_rollArchives :
    exec (handle plat env) (rollArchives lf) s =
      (completed (lf.rollArchives plat env s.1).1, (lf.rollArchives plat env s.1).2, s.2) := by
  unfold rollArchives LogFile.rollArchives
  rw [exec_bind, exec_getArchives]
  cases lf.getArchives plat env s.1 with
  | none => rfl
  | some nums => exact exec_moveArchives nums s

theorem exec_rollCurrent :
    exec (handle plat env) (rollCurrent lf) w.files =
      (completed (lf.rollCurrent plat env w).1, (lf.rollCurrent plat env w).2.files) := by
  unfold rollCurrent LogFile.rollCurrent
  rw [exec_bind, exec_attempt]
  simp only [handle, World.files]
  cases w.disk.rename (LogFile.key plat lf.path)
      (LogFile.key plat (rolledString lf.path)) with
  | none => rfl
  | some disk =>
    by_cases hfails : env.fails .renameCurrent
    · simp only [if_pos hfails]
      rfl
    · simp only [if_neg hfails]
      rfl

theorem exec_roll :
    exec (handle plat env) (roll plat lf) w.files =
      (if (lf.roll plat env w).1 then some (lf.roll plat env w).2.1 else none,
        (lf.roll plat env w).2.2.files) := by
  have harchives : exec (handle plat env) (rollArchives lf) w.files = _ := exec_rollArchives
  unfold roll LogFile.roll LogFile.rollFiles
  rw [exec_bind, harchives]
  cases hmoved : lf.rollArchives plat env w.disk with
  | mk moved disk =>
    cases moved with
    | false =>
      simp only [World.files, hmoved]
      rfl
    | true =>
      have hcurrent : exec (handle plat env) (rollCurrent lf) (World.files { w with disk }) = _ :=
        exec_rollCurrent
      simp only [World.files, hmoved] at hcurrent ⊢
      simp only [completed, if_true, exec_bind, hcurrent]
      cases hrenamed : lf.rollCurrent plat env { w with disk } with
      | mk renamed w' =>
        cases renamed with
        | false => rfl
        | true => rfl

/-! ### Opening -/

theorem exec_openFile :
    exec (handle plat env) (openFile lf) w.files =
      ((lf.openFile plat env w).1.map fun rc => (rc, (lf.openFile plat env w).2.1),
        (lf.openFile plat env w).2.2.files) := by
  have hensure : exec (handle plat env) (ensureParentDirectory lf) w.files =
      (if (parentPath lf.path).isEmpty then none else env.ensureParentDirectory, w.files) := by
    unfold ensureParentDirectory
    rw [exec_bind, exec_attempt]
    by_cases hempty : (parentPath lf.path).isEmpty
    · simp only [handle, if_pos hempty, exec_attempt, Bool.false_eq_true, if_false]
    · cases hdir : env.ensureParentDirectory with
      | none => simp only [handle, if_neg hempty, hdir, Option.map_none]
      | some ok =>
        simp only [handle, if_neg hempty, hdir, Option.map_some, if_true, exec_attempt]
  unfold openFile LogFile.openFile
  rw [exec_bind, hensure]
  cases (if (parentPath lf.path).isEmpty then none else env.ensureParentDirectory) with
  | none => rfl
  | some ok =>
    cases ok with
    | false => rfl
    | true =>
      simp only [if_true, perform_bind, exec_call, handle, World.files]
      by_cases hfails : env.fails .open ∨ w.disk.IsDirectory (LogFile.key plat lf.path)
      · simp only [if_pos hfails]
        rfl
      · simp only [if_neg hfails]
        cases w.disk.find (LogFile.key plat lf.path) with
        | some node => rfl
        | none => rfl

/-- **Opening agrees**. -/
theorem exec_openNoLock :
    exec (handle plat env) (openNoLock plat lf) w.files =
      ((lf.openNoLock plat env w).1.map fun rc => (rc, (lf.openNoLock plat env w).2.1),
        (lf.openNoLock plat env w).2.2.files) := by
  unfold openNoLock LogFile.openNoLock
  by_cases hopen : lf.ofs.isSome
  · rw [if_pos hopen, if_pos hopen]
    rfl
  · rw [if_neg hopen, if_neg hopen, exec_bind, exec_needRollBeforeOpen]
    cases hneed : lf.needRollBeforeOpen plat env w.disk with
    | false => exact exec_openFile
    | true =>
      simp only [if_true, exec_bind, exec_roll]
      cases hroll : lf.roll plat env w with
      | mk rolled p =>
        cases rolled with
        | false => rfl
        | true => exact exec_openFile

/-! ### Processing -/

theorem exec_rollCriteriaMet {st : OfStream} (hofs : lf.ofs = some st) (msg : Message) :
    exec (handle plat env) (rollCriteriaMet lf st msg) s =
      (some (lf.rollCriteriaMet env msg), s) := by
  have hlarge : exec (handle plat env) (tooLarge lf st) s =
      (some (decide (lf.rollSize > 0 ∧ env.tellp ≥ lf.rollSize)), s) := by
    unfold tooLarge
    by_cases hsize : lf.rollSize > 0
    · rw [if_pos hsize, perform_bind, exec_call]
      simp [handle, hsize]
    · rw [if_neg hsize]
      simp [hsize]
  unfold rollCriteriaMet LogFile.rollCriteriaMet
  rw [exec_bind, hlarge, hofs]
  by_cases htoo : lf.rollSize > 0 ∧ env.tellp ≥ lf.rollSize
  · simp [htoo]
  · simp only [htoo, decide_false, Bool.false_eq_true, if_false, Option.isSome_some, true_and]
    split_ifs
    · rfl
    · rfl

theorem exec_writeRecord (msg : Message) :
    exec (handle plat env) (writeRecord plat lf msg) w.files =
      (some ((lf.writeRecord plat env w msg).1, (lf.writeRecord plat env w msg).2.1),
        (lf.writeRecord plat env w msg).2.2.files) := by
  unfold writeRecord LogFile.writeRecord
  cases hofs : lf.ofs with
  | none => rfl
  | some st =>
    have hsame : { lf with ofs := some st } = lf := by rw [← hofs]
    by_cases hgood : st.good
    · simp only [hgood, if_true, not_true, if_false, perform_bind, exec_call]
      by_cases hfails : env.fails .write
      · simp only [handle, if_pos hfails, World.files]
        rfl
      · simp only [handle, if_neg hfails, World.files, hsame]
        rfl
    · simp only [if_neg hgood, if_pos hgood]
      rfl

/-- **Processing agrees**. -/
theorem exec_process (msg : Message) :
    exec (handle plat env) (process plat lf msg) w.files =
      ((lf.process plat env w msg).1.map fun rc => (rc, (lf.process plat env w msg).2.1),
        (lf.process plat env w msg).2.2.files) := by
  unfold process LogFile.process
  cases hofs : lf.ofs with
  | none => rfl
  | some st =>
    simp only [Option.isSome_some, if_true]
    rw [exec_bind, exec_rollCriteriaMet hofs]
    cases lf.rollCriteriaMet env msg with
    | false => exact exec_writeRecord msg
    | true =>
      have hclose : (handle plat env (.close st) w.files).2 = (lf.close env w).2.files ∧
          (lf.close env w).1 = { lf with ofs := none } := by
        unfold LogFile.close
        rw [hofs]
        refine ⟨?_, rfl⟩
        show (if _ then _ else _) = World.files (if _ then _ else _)
        rw [apply_ite World.files]
        rfl
      simp only [if_true, perform_bind, exec_call, hclose.1, ← hclose.2]
      rw [exec_bind, exec_roll]
      cases hroll : (lf.close env w).1.roll plat env (lf.close env w).2 with
      | mk rolled p =>
        cases rolled with
        | false => rfl
        | true =>
          simp only [if_true, exec_bind, exec_openNoLock]
          cases hopened : p.1.openNoLock plat env p.2 with
          | mk rc q =>
            cases rc with
            | none => rfl
            | some rc =>
              simp only [Option.map_some, exec_writeRecord]

end LogFileProgram

end Mclog
