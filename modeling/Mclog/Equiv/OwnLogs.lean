import Mclog.Equiv.Routing
import Mclog.General.Family

/-!
# Every log file its own log

The log files of mclogd share a disk and the compressors that are running.  A call of one of them
depends on nothing but the disk and what it has on record itself (`process_only`), and it changes
nothing but its own names (`process_changesOnly`).  So if their paths are `Apart`, each log file goes
on as if it were alone (`Orderly.frame`), and its segments are the records of the messages that are
routed to it, in order (`own_logs`).
-/

namespace Mclog

open General LogFile

/-! ### What concerns one path -/

namespace World

/-- What a call has done that started with nothing on record, on record after `w`. -/
def extend (w w' : World) : World where
  disk := w'.disk
  jobs := w.jobs ++ w'.jobs
  rolls := w.rolls ++ w'.rolls
  compressions := w.compressions ++ w'.compressions

/-- The disk alone. -/
def bare (w : World) : World := { disk := w.disk }

/-- The disk, and the compressors and the records of one path. -/
def only (path : Str) (w : World) : World where
  disk := w.disk
  jobs := w.jobs.filter fun job => job.path = path
  rolls := w.rolls.filter fun r => r.path = path
  compressions := w.compressions.filter fun r => r.path = path

@[simp] theorem disk_only (path : Str) (w : World) : (w.only path).disk = w.disk := rfl

@[simp] theorem bare_only (path : Str) (w : World) : (w.only path).bare = w.bare := rfl

theorem extend_bare (w : World) : w.extend w.bare = w := by
  unfold extend bare
  simp only [List.append_nil]

theorem only_extend (path : Str) (w w' : World) :
    (w.extend w').only path = (w.only path).extend (w'.only path) := by
  unfold extend only
  simp only [List.filter_append]

/-- Everything is of one path. -/
theorem only_of_forall {path : Str} {w : World} (hjobs : ∀ job ∈ w.jobs, job.path = path)
    (hrolls : ∀ r ∈ w.rolls, r.path = path) (hcompressions : w.compressions = []) :
    w.only path = w := by
  unfold only
  rw [List.filter_eq_self.mpr fun job h => decide_eq_true (hjobs job h),
    List.filter_eq_self.mpr fun r h => decide_eq_true (hrolls r h), hcompressions]
  show World.mk _ _ _ _ = w
  rw [List.filter_nil, ← hcompressions]

/-- Nothing is of this path. -/
theorem only_of_forall_ne {path : Str} {w : World} (hjobs : ∀ job ∈ w.jobs, job.path ≠ path)
    (hrolls : ∀ r ∈ w.rolls, r.path ≠ path) (hcompressions : w.compressions = []) :
    w.only path = w.bare := by
  unfold only bare
  rw [List.filter_eq_nil_iff.mpr fun job h => by simpa using hjobs job h,
    List.filter_eq_nil_iff.mpr fun r h => by simpa using hrolls r h, hcompressions, List.filter_nil]

end World

namespace LogFile

section

variable (plat : Platform) (env : Env) (lf : LogFile) (w w' : World)

theorem rollCurrent_extend : lf.rollCurrent plat env (w.extend w') =
    ((lf.rollCurrent plat env w').1, w.extend (lf.rollCurrent plat env w').2) := by
  unfold rollCurrent World.extend
  cases w'.disk.rename (key plat lf.path) (key plat (rolledString lf.path)) with
  | none => rfl
  | some disk =>
    dsimp only
    split_ifs
    · rfl
    · simp
    · simp

theorem rollFiles_extend : lf.rollFiles plat env (w.extend w') =
    ((lf.rollFiles plat env w').1, w.extend (lf.rollFiles plat env w').2) := by
  have hdisk : (w.extend w').disk = w'.disk := rfl
  unfold rollFiles
  rw [hdisk]
  generalize lf.rollArchives plat env w'.disk = p
  obtain ⟨completed, disk⟩ := p
  cases completed with
  | false => simp [World.extend]
  | true =>
    have hcurrent := rollCurrent_extend plat env lf w { w' with disk }
    have hworld : { w.extend w' with disk } = w.extend { w' with disk } := rfl
    dsimp only
    rw [if_pos rfl, if_pos rfl, hworld, hcurrent]
    simp [World.extend]

theorem roll_extend : lf.roll plat env (w.extend w') =
    let r := lf.roll plat env w'
    (r.1, r.2.1, w.extend r.2.2) := by
  unfold roll
  rw [rollFiles_extend]
  generalize lf.rollFiles plat env w' = p
  obtain ⟨completed, w₁⟩ := p
  cases completed <;> rfl

theorem openFile_extend : lf.openFile plat env (w.extend w') =
    let r := lf.openFile plat env w'
    (r.1, r.2.1, w.extend r.2.2) := by
  have hdisk : (w.extend w').disk = w'.disk := rfl
  unfold openFile
  rw [hdisk]
  cases if (parentPath lf.path).isEmpty then none else env.ensureParentDirectory with
  | none => rfl
  | some ok =>
    cases ok with
    | false => rfl
    | true =>
      dsimp only
      split_ifs
      · rfl
      · cases w'.disk.find (key plat lf.path) <;> rfl

theorem openNoLock_extend : lf.openNoLock plat env (w.extend w') =
    let r := lf.openNoLock plat env w'
    (r.1, r.2.1, w.extend r.2.2) := by
  have hdisk : (w.extend w').disk = w'.disk := rfl
  unfold openNoLock
  rw [hdisk, roll_extend]
  split_ifs
  · rfl
  · generalize lf.roll plat env w' = r
    obtain ⟨completed, lf', w₁⟩ := r
    cases completed with
    | false => rfl
    | true => exact openFile_extend plat env lf' w w₁
  · exact openFile_extend plat env lf w w'

theorem close_extend : lf.close env (w.extend w') =
    ((lf.close env w').1, w.extend (lf.close env w').2) := by
  unfold close
  cases lf.ofs with
  | none => rfl
  | some st =>
    dsimp only
    split_ifs <;> rfl

theorem writeRecord_extend (msg : Message) : lf.writeRecord plat env (w.extend w') msg =
    let r := lf.writeRecord plat env w' msg
    (r.1, r.2.1, w.extend r.2.2) := by
  unfold writeRecord
  cases lf.ofs with
  | none => rfl
  | some st =>
    dsimp only
    split_ifs <;> rfl

/-- **A call depends on the disk alone**, and goes on record after what there is. -/
theorem process_extend (msg : Message) : lf.process plat env (w.extend w') msg =
    let r := lf.process plat env w' msg
    (r.1, r.2.1, w.extend r.2.2) := by
  unfold process
  rw [close_extend, writeRecord_extend]
  split_ifs
  · generalize lf.close env w' = r
    obtain ⟨lf₁, w₁⟩ := r
    dsimp only
    rw [roll_extend]
    generalize lf₁.roll plat env w₁ = r
    obtain ⟨completed, lf₂, w₂⟩ := r
    cases completed with
    | false => rfl
    | true =>
      dsimp only
      rw [openNoLock_extend]
      generalize lf₂.openNoLock plat env w₂ = r
      obtain ⟨rc, lf₃, w₃⟩ := r
      cases rc with
      | none => rfl
      | some rc =>
        dsimp only
        rw [writeRecord_extend]
  · rfl
  · rfl

end

/-- **What a call does to one path.**  If it depends on the disk alone and records only what its log
    file does, then to its own path it does what it would do without the others, and of another path
    it changes nothing but the disk. -/
theorem only_of_extend {α : Type} {plat : Platform} {lf : LogFile}
    {call : World → α × LogFile × World}
    (hextend : ∀ w w' : World, call (w.extend w') =
      ((call w').1, (call w').2.1, w.extend (call w').2.2))
    (heffect : ∀ w, Effect plat (lf, w) (call w).2) (w : World) :
    call (w.only lf.path) = ((call w).1, (call w).2.1, (call w).2.2.only lf.path) ∧
      ∀ path, path ≠ lf.path →
        (call w).2.2.only path = { w.only path with disk := (call w).2.2.disk } := by
  have hbare : ∀ w : World, call w =
      ((call w.bare).1, (call w.bare).2.1, w.extend (call w.bare).2.2) := by
    intro w
    rw [← hextend, w.extend_bare]
  -- All that the call records is of its own path.
  obtain ⟨-, hjobs, hrolls, hcompressions⟩ := heffect w.bare
  have hown : (∀ job ∈ (call w.bare).2.2.jobs, job.path = lf.path) ∧
      (∀ r ∈ (call w.bare).2.2.rolls, r.path = lf.path) ∧ (call w.bare).2.2.compressions = [] := by
    refine ⟨fun job hjob => ?_, fun r hr => ?_, hcompressions⟩
    · rcases hjobs job hjob with hold | ⟨hstem, -⟩
      · cases hold
      · exact congrArg Stem.path hstem
    · rcases hrolls r hr with hold | ⟨hstem, -⟩
      · cases hold
      · exact congrArg Stem.path hstem
  obtain ⟨hjobs, hrolls, hcompressions⟩ := hown
  refine ⟨?_, fun path hne => ?_⟩
  · rw [hbare (w.only lf.path), hbare w, World.only_extend, World.bare_only,
      World.only_of_forall hjobs hrolls hcompressions]
  · rw [hbare w]
    show (w.extend (call w.bare).2.2).only path = _
    rw [World.only_extend, World.only_of_forall_ne (fun job h => (hjobs job h).trans_ne hne.symm)
      (fun r h => (hrolls r h).trans_ne hne.symm) hcompressions]
    show World.mk _ (_ ++ []) (_ ++ []) (_ ++ []) = _
    rw [List.append_nil, List.append_nil, List.append_nil]
    rfl

theorem openNoLock_only (plat : Platform) (env : Env) (lf : LogFile) (w : World) :
    lf.openNoLock plat env (w.only lf.path) =
      ((lf.openNoLock plat env w).1, (lf.openNoLock plat env w).2.1,
        (lf.openNoLock plat env w).2.2.only lf.path) ∧
      ∀ path, path ≠ lf.path → (lf.openNoLock plat env w).2.2.only path =
        { w.only path with disk := (lf.openNoLock plat env w).2.2.disk } :=
  only_of_extend (openNoLock_extend plat env lf) (openNoLock_effect plat env lf) w

theorem process_only (plat : Platform) (env : Env) (lf : LogFile) (w : World) (msg : Message) :
    lf.process plat env (w.only lf.path) msg =
      ((lf.process plat env w msg).1, (lf.process plat env w msg).2.1,
        (lf.process plat env w msg).2.2.only lf.path) ∧
      ∀ path, path ≠ lf.path → (lf.process plat env w msg).2.2.only path =
        { w.only path with disk := (lf.process plat env w msg).2.2.disk } :=
  only_of_extend (fun w w' => process_extend plat env lf w w' msg)
    (fun w => process_effect plat env lf w msg) w

/-! ### What a call changes on the disk -/

/-- The stream is open on the live file, with nothing left to be written. -/
def Attached (plat : Platform) (lf : LogFile) (disk : Disk) : Prop :=
  ∀ st, lf.ofs = some st → st.pending = [] ∧ disk.find (key plat lf.path) = some st.node

section

variable {plat : Platform} {env : Env} {lf : LogFile} {w : World}

theorem attached_of_closed {disk : Disk} (h : lf.ofs = none) : Attached plat lf disk := by
  intro st hst
  rw [h] at hst
  cases hst

theorem roll_changesOnly :
    FileStore.ChangesOnly (Touches plat lf.stem) w.disk (lf.roll plat env w).2.2.disk := by
  obtain ⟨hcurrent, -⟩ := rollCurrent_spec plat env lf
    { w with disk := (lf.rollArchives plat env w.disk).2 }
  have harchives := rollArchives_changesOnly plat env lf w.disk
  unfold roll rollFiles
  generalize lf.rollArchives plat env w.disk = p at harchives hcurrent ⊢
  obtain ⟨completed, disk⟩ := p
  cases completed with
  | false => exact harchives
  | true =>
    have hboth := harchives.trans hcurrent
    dsimp only at hboth ⊢
    rw [if_pos rfl]
    generalize lf.rollCurrent plat env { w with disk } = p at hboth ⊢
    obtain ⟨completed, w'⟩ := p
    cases completed <;> exact hboth

theorem openFile_changesOnly :
    FileStore.ChangesOnly (Touches plat lf.stem) w.disk (lf.openFile plat env w).2.2.disk := by
  unfold openFile
  split
  · exact .refl _ _
  · exact .refl _ _
  · dsimp only
    split_ifs
    · exact .refl _ _
    · split
      · exact .refl _ _
      · exact FileStore.changesOnly_create (.own .live)

theorem attached_openFile (hofs : lf.ofs = none) :
    Attached plat (lf.openFile plat env w).2.1 (lf.openFile plat env w).2.2.disk := by
  unfold openFile
  split
  · exact attached_of_closed hofs
  · exact attached_of_closed hofs
  · dsimp only
    split_ifs
    · exact attached_of_closed hofs
    · split
      · rename_i node hnode
        rintro st hst
        obtain rfl := Option.some.inj hst
        exact ⟨rfl, hnode⟩
      · rintro st hst
        obtain rfl := Option.some.inj hst
        exact ⟨rfl, FileStore.find_create_self⟩

/-- Opening changes nothing but the log file's own names, and the stream is on the live file. -/
theorem openNoLock_changesOnly (h : Attached plat lf w.disk) :
    FileStore.ChangesOnly (Touches plat lf.stem) w.disk (lf.openNoLock plat env w).2.2.disk ∧
      Attached plat (lf.openNoLock plat env w).2.1 (lf.openNoLock plat env w).2.2.disk := by
  unfold openNoLock
  split_ifs with hopen
  · exact ⟨.refl _ _, h⟩
  · rw [Option.not_isSome_iff_eq_none] at hopen
    have hroll := @roll_changesOnly plat env lf w
    have hstem := (roll_effect plat env lf w).stem
    have hofs : (lf.roll plat env w).2.1.ofs = none := ofs_roll.trans hopen
    generalize lf.roll plat env w = p at hroll hstem hofs ⊢
    obtain ⟨completed, lf', w'⟩ := p
    cases completed with
    | false => exact ⟨hroll, attached_of_closed hofs⟩
    | true =>
      have hfile := @openFile_changesOnly plat env lf' w'
      rw [show lf'.stem = lf.stem from hstem] at hfile
      exact ⟨hroll.trans hfile, attached_openFile hofs⟩
  · rw [Option.not_isSome_iff_eq_none] at hopen
    exact ⟨openFile_changesOnly, attached_openFile hopen⟩

/-- Writing through the stream changes the live file. -/
theorem writeRecord_changesOnly (h : Attached plat lf w.disk) (msg : Message) :
    FileStore.ChangesOnly (Touches plat lf.stem) w.disk (lf.writeRecord plat env w msg).2.2.disk := by
  have happend : ∀ {st : OfStream} (bytes : Str), lf.ofs = some st →
      FileStore.ChangesOnly (Touches plat lf.stem) w.disk (append env w.disk st.node bytes) := by
    intro st bytes hst k hk
    obtain ⟨-, hfind⟩ := h st hst
    refine ⟨rfl, FileStore.read_setNode_of_ne hfind ?_⟩
    rintro rfl
    exact hk _ (.own .live) (List.prefix_refl _)
  unfold writeRecord
  cases hofs : lf.ofs with
  | none => exact .refl _ _
  | some st =>
    dsimp only
    split_ifs
    · exact happend ((record plat lf.format msg).take env.written) hofs
    · exact happend (record plat lf.format msg) hofs
    · exact .refl _ _

/-- **A call changes nothing but the log file's own names.** -/
theorem process_changesOnly (h : Attached plat lf w.disk) (msg : Message) :
    FileStore.ChangesOnly (Touches plat lf.stem) w.disk (lf.process plat env w msg).2.2.disk := by
  unfold process
  split_ifs with hopen
  · -- The file is closed, rolled and opened again before the record is written.
    have hclose : (lf.close env w).2 = w ∧ (lf.close env w).1.ofs = none ∧
        (lf.close env w).1.stem = lf.stem := by
      unfold close
      obtain ⟨st, hst⟩ := Option.isSome_iff_exists.mp hopen
      rw [hst]
      refine ⟨?_, rfl, rfl⟩
      simp [(h st hst).1]
    generalize lf.close env w = p at hclose ⊢
    obtain ⟨lf₁, w₁⟩ := p
    obtain ⟨rfl, hofs, hstem⟩ := hclose
    dsimp only at hofs hstem ⊢
    have hroll := @roll_changesOnly plat env lf₁ w₁
    have hstem₂ := (roll_effect plat env lf₁ w₁).stem
    have hofs₂ : (lf₁.roll plat env w₁).2.1.ofs = none := ofs_roll.trans hofs
    generalize lf₁.roll plat env w₁ = p at hroll hstem₂ hofs₂ ⊢
    obtain ⟨completed, lf₂, w₂⟩ := p
    rw [show lf₁.stem = lf.stem from hstem] at hroll
    cases completed with
    | false => exact hroll
    | true =>
      obtain ⟨hchanges, hattached⟩ := @openNoLock_changesOnly plat env lf₂ w₂
        (attached_of_closed hofs₂)
      have hstem₃ := (openNoLock_effect plat env lf₂ w₂).stem
      dsimp only
      generalize lf₂.openNoLock plat env w₂ = p at hchanges hattached hstem₃ ⊢
      obtain ⟨rc, lf₃, w₃⟩ := p
      rw [show lf₂.stem = lf.stem from hstem₂.trans hstem] at hchanges
      cases rc with
      | none => exact hroll.trans hchanges
      | some rc =>
        have hwrite := @writeRecord_changesOnly plat env lf₃ w₃ hattached msg
        rw [show lf₃.stem = lf.stem from hstem₃.trans (hstem₂.trans hstem)] at hwrite
        exact (hroll.trans hchanges).trans hwrite
  · exact writeRecord_changesOnly h msg
  · exact .refl _ _

end

end LogFile

/-! ### Paths that are apart -/

/-- The names in its directory that a log file uses. -/
inductive OwnName (path : Str) : Str → Prop where
  | live : OwnName path (filename path)
  | rolled : OwnName path (rolledName path)
  | archive (num : Nat) (compress : Str) : OwnName path (archiveName path compress num)

/-- What is at or below a name of the log file, or could be taken for an archive of it. -/
inductive Concerns (plat : Platform) (path : Str) : List Str → Prop where
  | own {f : Str} (h : OwnName path f) {k : List Str} (hk : directoryOf plat path ++ [f] <+: k) :
      Concerns plat path k
  | numbered (e : Str) : Concerns plat path (directoryOf plat path ++ [filename path ++ dot :: e])

/-- The other path is that of another file, and its directory is not at or below a name of the log
    file. -/
structure Apart (plat : Platform) (path other : Str) : Prop where
  ne : liveKey plat path ≠ liveKey plat other
  below : ∀ f, OwnName path f → ¬ directoryOf plat path ++ [f] <+: directoryOf plat other

section

variable {plat : Platform} {path other : Str}

/-- A plain name is what stands before the first dot of the names made of it. -/
theorem takeWhile_of_plainName (hname : PlainName (filename path)) (e : Str) :
    (filename path ++ dot :: e).takeWhile (fun c => c ≠ dot) = filename path := by
  rw [List.takeWhile_append_of_pos]
  · simp
  · intro c hc
    simp only [decide_eq_true_eq]
    rintro rfl
    exact hname.dot_notMem hc

theorem OwnName.eq_or (h : OwnName path other) :
    other = filename path ∨ ∃ e, other = filename path ++ dot :: e := by
  cases h with
  | live => exact Or.inl rfl
  | rolled => exact Or.inr ⟨_, rfl⟩
  | archive num compress =>
    refine Or.inr ⟨decimal num ++ dot :: archiveExtension compress, ?_⟩
    unfold archiveName
    rw [List.append_assoc, List.cons_append]

theorem OwnName.takeWhile (hname : PlainName (filename path)) {f : Str} (h : OwnName path f) :
    f.takeWhile (fun c => c ≠ dot) = filename path := by
  rcases h.eq_or with rfl | ⟨e, rfl⟩
  · rw [List.takeWhile_eq_self_iff]
    intro c hc
    simp only [decide_eq_true_eq]
    rintro rfl
    exact hname.dot_notMem hc
  · exact takeWhile_of_plainName hname e

/-- **Apart**: no name of the other log file is at or above what concerns this one. -/
theorem not_prefix_of_apart (h : Apart plat path other) (h' : Apart plat other path)
    (hname : PlainName (filename path)) (hother : PlainName (filename other)) {g : Str}
    (hg : OwnName other g) {k : List Str} (hk : Concerns plat path k) :
    ¬ directoryOf plat other ++ [g] <+: k := by
  -- The names of both in one directory start differently.
  have hne : ∀ f, f.takeWhile (fun c => c ≠ dot) = filename path →
      directoryOf plat other ++ [g] ≠ directoryOf plat path ++ [f] := by
    intro f hf heq
    obtain ⟨hdir, hfile⟩ := List.append_inj' heq rfl
    have hsame : filename path = filename other := by
      rw [← hf, ← List.singleton_inj.mp hfile, hg.takeWhile hother]
    apply h.ne
    unfold liveKey
    rw [hdir, hsame]
  intro hpre
  cases hk with
  | @own f hf k hk =>
    rcases List.prefix_or_prefix_of_prefix hpre hk with habove | hbelow
    · rcases List.prefix_concat_iff.mp habove with heq | habove
      · exact hne f (hf.takeWhile hname) heq
      · exact h'.below g hg habove
    · rcases List.prefix_concat_iff.mp hbelow with heq | hbelow
      · exact hne f (hf.takeWhile hname) heq.symm
      · exact h.below f hf hbelow
  | numbered e =>
    rcases List.prefix_concat_iff.mp hpre with heq | habove
    · exact hne _ (takeWhile_of_plainName hname e) heq
    · exact h'.below g hg habove

/-- Different names in one directory are apart. -/
theorem apart_of_directoryOf_eq
    (hdir : directoryOf plat path = directoryOf plat other)
    (hne : filename path ≠ filename other) : Apart plat path other := by
  refine ⟨fun heq => ?_, fun f _ hpre => ?_⟩
  · unfold liveKey at heq
    exact hne (List.singleton_inj.mp (List.append_inj' heq rfl).2)
  · have hlen := hpre.length_le
    rw [hdir, List.length_append, List.length_singleton] at hlen
    omega

/-- A plain name's archives are numbered names made of it. -/
theorem numbered_of_archiveRegex (hname : PlainName (filename path)) {compress : Str}
    {sm : Str → Option Str}
    (hregex : archiveRegex plat (filename path) (archiveExtension compress) = some sm)
    {f digits : Str} (hf : sm f = some digits) : ∃ e, f = filename path ++ dot :: e := by
  obtain ⟨rest, rfl⟩ := prefix_of_archiveRegex hname.all_isPlain hname.dot_notMem hregex hf
  unfold archiveRegex at hregex
  rw [if_pos hname.all_isPlain] at hregex
  obtain rfl := Option.some.inj hregex
  dsimp only at hf
  rw [List.take_left, List.drop_left, if_pos (matchesPlain_self _)] at hf
  unfold archiveDigits at hf
  cases rest with
  | nil => cases hf
  | cons c rest =>
    dsimp only at hf
    split_ifs at hf with hdigits
    exact ⟨rest, by rw [hdigits.1]⟩

end

/-! ### One log file beside the others -/

section

variable {plat : Platform} {lf₀ lf : LogFile} {sm : Str → Option Str} {old : Nat → Prop} {w : World}

/-- **The frame rule.**  What does not concern a log file leaves it in order. -/
theorem LogFile.Orderly.frame (hsite : Site plat lf₀ sm) (hname : PlainName (filename lf₀.path))
    (h : Orderly plat lf₀ sm old (lf, w)) {disk : Disk}
    (hsame : ∀ k, Concerns plat lf₀.path k →
      disk.find k = w.disk.find k ∧ disk.read k = w.disk.read k) :
    Orderly plat lf₀ sm old (lf, { w with disk }) := by
  -- Nearly all that is asked of the disk is about names of the log file's own.
  have hown : ∀ {f : Str}, OwnName lf₀.path f → ∀ k, directoryOf plat lf₀.path ++ [f] <+: k →
      disk.find k = w.disk.find k ∧ disk.read k = w.disk.read k :=
    fun hf k hk => hsame k (.own hf hk)
  have hlive := hown .live _ (List.prefix_refl _)
  have hrolled := hown .rolled _ (List.prefix_refl _)
  have harch := fun num => hown (.archive num lf₀.compress) _ (List.prefix_refl _)
  have hdirectory : ∀ {f : Str}, OwnName lf₀.path f →
      ¬ w.disk.IsDirectory (directoryOf plat lf₀.path ++ [f]) →
        ¬ disk.IsDirectory (directoryOf plat lf₀.path ++ [f]) := by
    intro f hf hnot
    rw [FileStore.isDirectory_congr fun k hk _ => (hown hf k hk).1]
    exact hnot
  refine ⟨h.settings, ?_, ⟨?_, ?_, ?_⟩, ?_, ?_, ?_, ?_⟩
  · intro st hst
    obtain ⟨hgood, hpending, hfind⟩ := h.stream st hst
    exact ⟨hgood, hpending, hlive.1.trans hfind⟩
  · exact hdirectory .live h.dirs.live
  · exact hdirectory .rolled h.dirs.rolled
  · exact fun num => hdirectory (.archive num lf₀.compress) (h.dirs.archive num)
  · -- The numbered names are not all its own: some have another extension.
    intro f digits hf hdigits
    refine h.canonical f digits ?_ hdigits
    obtain ⟨e, rfl⟩ := numbered_of_archiveRegex hname hsite.own.regex hdigits
    show (w.disk.find _).isSome
    rw [← (hsame _ (.numbered e)).1]
    exact hf
  · intro num hnum
    refine h.known num ?_
    show (w.disk.find _).isSome
    rw [archiveKey, ← (harch num).1]
    exact hnum
  · intro num segment hone hkeep hsegment
    exact (harch num).2.trans (h.archives num segment hone hkeep hsegment)
  · have hcompressed : Compressed plat lf₀ w → Compressed plat lf₀ { w with disk } :=
      fun hdone segment hsegment => (harch 0).2.trans (hdone segment hsegment)
    rcases newest_cases h.newest with ⟨hidle, hdone⟩ | ⟨job, hjob, hrun⟩
    · exact (newest_of_idle (w := { w with disk }) hidle).mpr (hcompressed hdone)
    · refine (newest_of_running (w := { w with disk }) job hjob).mpr
        ⟨hrun.path, hrun.file, hrun.compress, hrun.isSome, hrolled.2.trans hrun.rolled, ?_⟩
      have hphase := hrun.phase
      cases hstate : job.phase with
      | started =>
        rw [hstate] at hphase
        exact (harch 0).1.trans hphase
      | opened node =>
        rw [hstate] at hphase
        exact ⟨(harch 0).1.trans hphase.1, hrolled.1.trans hphase.2⟩
      | created =>
        rw [hstate] at hphase
        exact hcompressed hphase

/-- A log file works on its own names, if its path is a plain word to the shell. -/
theorem ownName_of_touches {P : Stem} (hordinary : Ordinary (filename P.path))
    (hshell : compressorArguments plat (rolledString P.path) = [rolledString P.path])
    {t : List Str} (ht : Touches plat P t) :
    ∃ g, OwnName P.path g ∧ t = directoryOf plat P.path ++ [g] := by
  cases ht with
  | own ht =>
    cases ht with
    | live => exact ⟨_, .live, key_path plat hordinary⟩
    | rolled => exact ⟨_, .rolled, key_rolledString plat hordinary⟩
    | archive num => exact ⟨_, .archive num P.compress, key_archiveString plat _ num P.compress⟩
  | argument file hfile =>
    rw [hshell, List.mem_singleton] at hfile
    rw [hfile]
    exact ⟨_, .rolled, key_rolledString plat hordinary⟩
  | compressed file hfile =>
    rw [hshell, List.mem_singleton] at hfile
    rw [hfile, rolledString_append_extension]
    exact ⟨_, .archive 0 P.compress, key_archiveString plat _ 0 P.compress⟩

end

/-! ### Compressors -/

/-- What a step of a compressor makes of the disk and of itself, and what goes on record. -/
def Job.advance (plat : Platform) (job : Job) (disk : Disk) : Disk × List Job × List RollRecord :=
  let src := resolve plat.cwd job.file
  let dst := resolve plat.cwd (job.file ++ dot :: archiveExtension job.compress)
  match job.phase with
  | .started =>
    match disk.find src with
    | some node => (disk, [{ job with phase := .opened node }], [])
    | none => (disk, [], [])
  | .opened node =>
    if disk.Present dst then
      (disk, [], [])
    else
      let disk' := disk.create dst
        { disk.nodes node with
          data := plat.pack (compressCommand job.compress) (disk.nodes node).data }
      (disk', [{ job with phase := .created }], [⟨job.path, job.compress, disk, disk'⟩])
  | .created => (disk.remove src, [], [⟨job.path, job.compress, disk, disk.remove src⟩])

section

variable {plat : Platform} {path : Str} {w : World} {job : Job}

/-- A step of one compressor among others. -/
theorem compressorStep_eq {before after : List Job} (hjobs : w.jobs = before ++ job :: after) :
    w.compressorStep plat before.length =
      { w with
        disk := (job.advance plat w.disk).1
        jobs := before ++ (job.advance plat w.disk).2.1 ++ after
        compressions := w.compressions ++ (job.advance plat w.disk).2.2 } := by
  obtain ⟨disk, jobs, rolls, compressions⟩ := w
  dsimp only at hjobs ⊢
  subst hjobs
  have hget : (before ++ job :: after)[before.length]? = some job := by simp
  have herase : (before ++ job :: after).eraseIdx before.length = before ++ after := by
    simp [List.eraseIdx_append]
  have hset : ∀ job', (before ++ job :: after).set before.length job' = before ++ job' :: after := by
    intro job'
    simp
  unfold World.compressorStep Job.advance
  simp only [hget, herase, hset]
  cases job.phase with
  | started =>
    dsimp only
    cases disk.find (resolve plat.cwd job.file) <;> simp
  | opened node =>
    dsimp only
    split_ifs <;> simp
  | created => simp

theorem advance_path (plat : Platform) (job : Job) (disk : Disk) :
    (∀ job' ∈ (job.advance plat disk).2.1, job'.path = job.path) ∧
      ∀ r ∈ (job.advance plat disk).2.2, r.path = job.path := by
  unfold Job.advance
  cases job.phase with
  | started =>
    dsimp only
    cases disk.find (resolve plat.cwd job.file) <;> simp
  | opened node =>
    dsimp only
    split_ifs <;> simp
  | created => simp

theorem advance_changesOnly (hfile : job.file ∈ compressorArguments plat (rolledString job.path))
    (disk : Disk) :
    FileStore.ChangesOnly (Touches plat job.stem) disk (job.advance plat disk).1 := by
  unfold Job.advance
  cases job.phase with
  | started =>
    dsimp only
    cases disk.find (resolve plat.cwd job.file) <;> exact .refl _ _
  | opened node =>
    dsimp only
    split_ifs
    · exact .refl _ _
    · exact FileStore.changesOnly_create (.compressed _ hfile)
  | created => exact FileStore.changesOnly_remove (.argument _ hfile)

/-- **What a step of a compressor does to one path**: to its own, what it would do without the
    others, and to another one nothing. -/
theorem compressorStep_only {before after : List Job} (hjobs : w.jobs = before ++ job :: after) :
    (∃ i, (w.only job.path).compressorStep plat i =
      (w.compressorStep plat before.length).only job.path) ∧
    ∀ path, path ≠ job.path → (w.compressorStep plat before.length).only path =
      { w.only path with disk := (job.advance plat w.disk).1 } := by
  obtain ⟨hnow, hrecords⟩ := advance_path plat job w.disk
  rw [compressorStep_eq hjobs]
  refine ⟨⟨(before.filter fun job' => job'.path = job.path).length, ?_⟩, fun path hne => ?_⟩
  · have hown : (w.only job.path).jobs = (before.filter fun job' => job'.path = job.path) ++
        job :: after.filter fun job' => job'.path = job.path := by
      unfold World.only
      simp [hjobs]
    rw [compressorStep_eq hown]
    unfold World.only
    simp only [List.filter_append]
    rw [List.filter_eq_self.mpr fun job' h => decide_eq_true (hnow job' h),
      List.filter_eq_self.mpr fun r h => decide_eq_true (hrecords r h)]
  · have hnow' : (job.advance plat w.disk).2.1.filter (fun job' => job'.path = path) = [] :=
      List.filter_eq_nil_iff.mpr fun job' h => by simpa [hnow job' h] using hne.symm
    have hrecords' : (job.advance plat w.disk).2.2.filter (fun r => r.path = path) = [] :=
      List.filter_eq_nil_iff.mpr fun r h => by simpa [hrecords r h] using hne.symm
    unfold World.only
    simp only [List.filter_append, hnow', hrecords', hjobs, List.append_nil]
    rw [List.filter_cons_of_neg (by simpa using hne.symm)]

end

/-! ### What is left alone -/

/-- What happens between `w` and `w'` is within the names and the records of one path. -/
structure Within (plat : Platform) (path : Str) (w w' : World) : Prop where
  only : ∀ other, other ≠ path → w'.only other = { w.only other with disk := w'.disk }
  disk : ∀ k, (∀ g, OwnName path g → ¬ directoryOf plat path ++ [g] <+: k) →
    w'.disk.find k = w.disk.find k ∧ w'.disk.read k = w.disk.read k
  jobs : ∀ job ∈ w'.jobs, job ∈ w.jobs ∨ job.path = path

section

variable {plat : Platform} {path : Str} {w w' w'' : World} {env : Env} {lf₀ lf : LogFile}
  {sm : Str → Option Str} {old : Nat → Prop}

theorem Within.trans (h : Within plat path w w') (h' : Within plat path w' w'') :
    Within plat path w w'' := by
  refine ⟨fun other hne => ?_, fun k hk => ?_, fun job hjob => ?_⟩
  · rw [h'.only other hne, h.only other hne]
  · obtain ⟨hfind, hread⟩ := h.disk k hk
    obtain ⟨hfind', hread'⟩ := h'.disk k hk
    exact ⟨hfind'.trans hfind, hread'.trans hread⟩
  · rcases h'.jobs job hjob with hold | hnew
    · exact h.jobs job hold
    · exact Or.inr hnew

/-- A change of the names that a log file touches. -/
theorem disk_of_changesOnly {P : Stem} (hordinary : Ordinary (filename P.path))
    (hshell : compressorArguments plat (rolledString P.path) = [rolledString P.path])
    {disk disk' : Disk} (h : FileStore.ChangesOnly (Touches plat P) disk disk') (k : List Str)
    (hk : ∀ g, OwnName P.path g → ¬ directoryOf plat P.path ++ [g] <+: k) :
    disk'.find k = disk.find k ∧ disk'.read k = disk.read k := by
  apply h k
  intro t ht
  obtain ⟨g, hg, rfl⟩ := ownName_of_touches hordinary hshell ht
  exact hk g hg

theorem within_openNoLock (hsite : Site plat lf sm) (hofs : lf.ofs = none) :
    Within plat lf.path w (lf.openNoLock plat env w).2.2 := by
  obtain ⟨hchanges, -⟩ :=
    @openNoLock_changesOnly plat env lf w (attached_of_closed hofs)
  refine ⟨(openNoLock_only plat env lf w).2, ?_, fun job hjob => ?_⟩
  · exact disk_of_changesOnly (P := lf.stem) hsite.ordinary hsite.shell hchanges
  · exact ((openNoLock_effect plat env lf w).jobs job hjob).imp_right fun h =>
      congrArg Stem.path h.1

theorem within_process (hsite : Site plat lf₀ sm) (hpath : lf.path = lf₀.path)
    (hattached : Attached plat lf w.disk) (msg : Message) :
    Within plat lf.path w (lf.process plat env w msg).2.2 := by
  have hchanges := @process_changesOnly plat env lf w hattached msg
  have hordinary : Ordinary (filename lf.path) := hpath ▸ hsite.ordinary
  have hshell : compressorArguments plat (rolledString lf.path) = [rolledString lf.path] :=
    hpath ▸ hsite.shell
  refine ⟨(process_only plat env lf w msg).2, ?_, fun job hjob => ?_⟩
  · exact disk_of_changesOnly (P := lf.stem) hordinary hshell hchanges
  · exact ((process_effect plat env lf w msg).jobs job hjob).imp_right fun h =>
      congrArg Stem.path h.1

theorem within_compressorStep {job : Job} {before after : List Job}
    (hjobs : w.jobs = before ++ job :: after) (hordinary : Ordinary (filename job.path))
    (hshell : compressorArguments plat (rolledString job.path) = [rolledString job.path])
    (hfile : job.file = rolledString job.path) :
    Within plat job.path w (w.compressorStep plat before.length) := by
  have hchanges := @advance_changesOnly plat job
    (by rw [hshell, hfile]; exact List.mem_singleton_self _) w.disk
  have hdisk : (w.compressorStep plat before.length).disk = (job.advance plat w.disk).1 := by
    rw [compressorStep_eq hjobs]
  refine ⟨?_, ?_, fun job' hjob' => ?_⟩
  · rw [hdisk]
    exact (compressorStep_only hjobs).2
  · rw [hdisk]
    exact disk_of_changesOnly (P := job.stem) hordinary hshell hchanges
  · rw [compressorStep_eq hjobs] at hjob'
    simp only [List.mem_append] at hjob'
    rw [hjobs]
    rcases hjob' with (hbefore | hnow) | hafter
    · exact Or.inl (List.mem_append_left _ hbefore)
    · exact Or.inr ((advance_path plat job w.disk).1 job' hnow)
    · exact Or.inl (List.mem_append_right _ (List.mem_cons_of_mem _ hafter))

end

/-! ### The log file at one path -/

namespace LogFiles

/-- What is asked of the path of a log file: it has a directory, a plain name, and is one word to the
    shell. -/
structure Placed (plat : Platform) (path : Str) : Prop where
  parent : parentPath path ≠ []
  plain : PlainName (filename path)
  shell : compressorArguments plat (rolledString path) = [rolledString path]

/-- The log file at a path, when the messages `msgs` have been routed to it: there is none yet, and
    nothing on the disk that concerns it; or it is open and in order, and its segments hold the
    records. -/
inductive OwnLog (plat : Platform) (path : Str) (s : LogFiles × World) (msgs : List Message) :
    Prop where
  | unused (hnone : s.1.logFiles.lookup path = none) (hmsgs : msgs = [])
      (honly : s.2.only path = s.2.bare)
      (hdisk : ∀ k, Concerns plat path k → s.2.disk.find k = none)
  | inUse (lf₀ lf : LogFile) (sm : Str → Option Str) (log : SegmentedLog Str)
      (hlookup : s.1.logFiles.lookup path = some lf) (hpath : lf₀.path = path)
      (hsite : Site plat lf₀ sm) (hopen : lf.ofs.isSome)
      (horderly : Orderly plat lf₀ sm (fun _ => False) (lf, s.2.only path))
      (hlog : Refines plat path (s.2.only path) log)
      (hhistory : log.history = msgs.map (record plat lf₀.format))

section

variable {plat : Platform} {path other : Str} {s s' : LogFiles × World} {msgs : List Message}

/-- What happens within the names of another path is no matter. -/
theorem OwnLog.frame (h : OwnLog plat path s msgs) (hplaced : Placed plat path)
    (hlookup : s'.1.logFiles.lookup path = s.1.logFiles.lookup path)
    (honly : s'.2.only path = { s.2.only path with disk := s'.2.disk })
    (hsame : ∀ k, Concerns plat path k →
      s'.2.disk.find k = s.2.disk.find k ∧ s'.2.disk.read k = s.2.disk.read k) :
    OwnLog plat path s' msgs := by
  cases h with
  | unused hnone hmsgs hbare hdisk =>
    refine .unused (hlookup.trans hnone) hmsgs ?_ fun k hk => (hsame k hk).1.trans (hdisk k hk)
    rw [honly, hbare]
    rfl
  | inUse lf₀ lf sm log hlf hpath hsite hopen horderly hlog hhistory =>
    subst hpath
    refine .inUse lf₀ lf sm log (hlookup.trans hlf) rfl hsite hopen ?_ ⟨?_, ?_⟩ hhistory
    · rw [honly]
      exact horderly.frame hsite hplaced.plain hsame
    · rw [honly]
      exact hlog.closed
    · have hlive := (hsame _ (.own .live (List.prefix_refl _))).2
      rw [← hlog.live, liveContent, liveContent, liveKey_eq hsite]
      show (s'.2.disk.read (liveKey plat lf₀.path)).getD [] = _
      rw [liveKey, hlive]
      rfl

theorem OwnLog.within (h : OwnLog plat path s msgs) (hplaced : Placed plat path)
    (hplaced' : Placed plat other) (hapart : Apart plat path other) (hapart' : Apart plat other path)
    (hne : path ≠ other) (hlookup : s'.1.logFiles.lookup path = s.1.logFiles.lookup path)
    (hwithin : Within plat other s.2 s'.2) : OwnLog plat path s' msgs := by
  refine h.frame hplaced hlookup (hwithin.only path hne) fun k hk => ?_
  exact hwithin.disk k fun g hg =>
    not_prefix_of_apart hapart hapart' hplaced.plain hplaced'.plain hg hk

end

/-! ### One message and one path -/

section

variable {plat : Platform} {path : Str} {w : World} {env : Env} {lf₀ lf : LogFile}
  {sm : Str → Option Str} {old : Nat → Prop}

theorem attached_of_orderly (hsite : Site plat lf₀ sm) (h : Orderly plat lf₀ sm old (lf, w)) :
    Attached plat lf w.disk := by
  intro st hst
  obtain ⟨-, hpending, hfind⟩ := h.stream st hst
  have hpath : lf.path = lf₀.path := h.settings.path
  rw [hpath, liveKey_eq hsite]
  exact ⟨hpending, hfind⟩

theorem isSome_of_writeRecord {msg : Message}
    (h : (lf.writeRecord plat env w msg).1 = true) :
    (lf.writeRecord plat env w msg).2.1.ofs.isSome := by
  unfold writeRecord at h ⊢
  cases hofs : lf.ofs with
  | none =>
    rw [hofs] at h
    cases h
  | some st =>
    dsimp only
    split_ifs
    · rfl
    · rw [hofs]
      rfl
    · rw [hofs]
      rfl

/-- A log file that has written a record is open. -/
theorem isSome_of_process {msg : Message} (h : (lf.process plat env w msg).1 = some true) :
    (lf.process plat env w msg).2.1.ofs.isSome := by
  unfold LogFile.process at h ⊢
  split_ifs at h ⊢
  · generalize lf.close env w = p at h ⊢
    obtain ⟨lf₁, w₁⟩ := p
    dsimp only at h ⊢
    generalize lf₁.roll plat env w₁ = p at h ⊢
    obtain ⟨completed, lf₂, w₂⟩ := p
    cases completed with
    | false => cases h
    | true =>
      dsimp only at h ⊢
      generalize lf₂.openNoLock plat env w₂ = p at h ⊢
      obtain ⟨rc, lf₃, w₃⟩ := p
      cases rc with
      | none => cases h
      | some rc => exact isSome_of_writeRecord (Option.some.inj h)
  · exact isSome_of_writeRecord (Option.some.inj h)
  · cases h

/-- **`Process` of one log file among others** appends the record to its log. -/
theorem process_own (hsite : Site plat lf₀ sm) (hopen : lf.ofs.isSome)
    (h : Orderly plat lf₀ sm old (lf, w.only lf₀.path)) {log : SegmentedLog Str}
    (hlog : Refines plat lf₀.path (w.only lf₀.path) log) (henv : env.Succeeds) (msg : Message)
    (hidle : lf.rollCriteriaMet env msg = true → (w.only lf₀.path).jobs = []) :
    ∃ lf' w' rolled, lf.process plat env w msg = (some true, lf', w') ∧ lf'.ofs.isSome ∧
      Orderly plat lf₀ sm old (lf', w'.only lf₀.path) ∧
      Refines plat lf₀.path (w'.only lf₀.path)
        (advance log rolled [record plat lf₀.format msg]) ∧
      Within plat lf₀.path w w' := by
  have hpath : lf.path = lf₀.path := h.settings.path
  have hattached : Attached plat lf w.disk := attached_of_orderly (w := w.only lf₀.path) hsite h
  have hwithin : Within plat lf.path w (lf.process plat env w msg).2.2 :=
    within_process hsite hpath hattached msg
  obtain ⟨hown, -⟩ := process_only plat env lf w msg
  have hsome := @isSome_of_process plat w env lf msg
  obtain ⟨lf', w', hprocess, horderly, hadvance⟩ := h.process hsite henv msg hopen hidle
  rw [hpath] at hown hwithin
  -- The call does to its own path what it does when it is alone.
  rw [hprocess] at hown
  generalize lf.process plat env w msg = r at hown hwithin hsome ⊢
  obtain ⟨rc, lf₁, w₁⟩ := r
  obtain ⟨rfl, rfl, rfl⟩ : some true = rc ∧ lf' = lf₁ ∧ w' = w₁.only lf₀.path := by
    simpa using hown
  exact ⟨lf', w₁, _, rfl, hsome rfl, horderly, hadvance.refines hlog, hwithin⟩

/-- A log file whose names nothing is at is in order. -/
theorem orderly_of_unused (hplaced : Placed plat lf.path) (hofs : lf.ofs = none)
    (hown : RecognizesOwn plat lf.path lf.compress sm)
    (hdisk : ∀ k, Concerns plat lf.path k → w.disk.find k = none) :
    Orderly plat lf sm (fun _ => False) (lf, w.bare) := by
  have hdirectory : ∀ {f : Str}, OwnName lf.path f →
      ¬ w.disk.IsDirectory (directoryOf plat lf.path ++ [f]) := by
    rintro f hf ⟨k, hk, hpre, -⟩
    obtain ⟨i, hi⟩ := FileStore.mem_keys_iff.mp hk
    rw [hdisk k (.own hf hpre)] at hi
    cases hi
  have hdirs : NoDirectories plat lf.path lf.compress w.disk :=
    ⟨hdirectory .live, hdirectory .rolled, fun num => hdirectory (.archive num lf.compress)⟩
  have hcanonical : CanonicalArchives plat lf.path lf.compress sm w.disk := by
    intro f digits hf hdigits
    obtain ⟨e, rfl⟩ := numbered_of_archiveRegex hplaced.plain hown.regex hdigits
    rw [hdisk _ (.numbered e)] at hf
    cases hf
  refine { orderly_start hofs hdirs hcanonical with known := fun num hnum => ?_ }
  exfalso
  have hnone := hdisk _ (.own (.archive num lf.compress) (List.prefix_refl _))
  change (w.disk.find (archiveKey plat lf.path lf.compress num)).isSome at hnum
  rw [archiveKey, hnone] at hnum
  cases hnum

/-- **Opening a new log file among others.** -/
theorem open_own (hplaced : Placed plat lf.path) (hofs : lf.ofs = none) (hsite : Site plat lf sm)
    (honly : w.only lf.path = w.bare) (hdisk : ∀ k, Concerns plat lf.path k → w.disk.find k = none)
    (henv : env.Succeeds) :
    ∃ lf' w', lf.openNoLock plat env w = (some true, lf', w') ∧ lf'.ofs.isSome ∧
      Orderly plat lf sm (fun _ => False) (lf', w'.only lf.path) ∧
      Refines plat lf.path (w'.only lf.path) SegmentedLog.empty ∧ (w'.only lf.path).jobs = [] ∧
      Within plat lf.path w w' := by
  have horderly : Orderly plat lf sm (fun _ => False) (lf, w.only lf.path) := by
    rw [honly]
    exact orderly_of_unused hplaced hofs hsite.own hdisk
  have hlive : w.disk.find (liveKey plat lf.path) = none :=
    hdisk _ (.own .live (List.prefix_refl _))
  -- There is nothing to roll, so that the file is created.
  have hneed : lf.needRollBeforeOpen plat env w.disk = false :=
    needRollBeforeOpen_of_none (w := w.only lf.path) env hsite horderly hlive
  have hfile : ∀ w₁ : World, w₁.disk = w.disk →
      lf.openNoLock plat env w₁ = lf.openFile plat env w₁ := by
    intro w₁ hw₁
    unfold openNoLock
    rw [hofs, hw₁, hneed]
    rfl
  have hjobs : (lf.openFile plat env (w.only lf.path)).2.2.jobs = [] := by
    have hsame : (lf.openFile plat env (w.only lf.path)).2.2.jobs = (w.only lf.path).jobs := by
      unfold openFile
      split
      · rfl
      · rfl
      · dsimp only
        split_ifs
        · rfl
        · split <;> rfl
    rw [hsame, honly]
    rfl
  obtain ⟨lf', w', hopen, hsome, horderly', hrolls, hcontent⟩ := horderly.openFile hsite henv
  obtain ⟨hown, -⟩ := openNoLock_only plat env lf w
  have hwithin := @within_openNoLock plat w env lf sm hsite hofs
  rw [hfile (w.only lf.path) rfl, hopen] at hown
  rw [hopen] at hjobs
  generalize lf.openNoLock plat env w = r at hown hwithin ⊢
  obtain ⟨rc, lf₁, w₁⟩ := r
  obtain ⟨rfl, rfl, rfl⟩ : some true = rc ∧ lf' = lf₁ ∧ w' = w₁.only lf.path := by
    simpa using hown
  refine ⟨lf', w₁, rfl, hsome, horderly', ⟨?_, ?_⟩, hjobs, hwithin⟩
  · unfold closedSegments
    rw [hrolls, honly]
    rfl
  · rw [hcontent, liveContent, liveKey_eq hsite, FileStore.read]
    show ((w.disk.find _).map _).getD [] = _
    rw [hlive]
    rfl

end

/-! ### Messages and their paths -/

section

variable {plat : Platform} {paths : Set Str} {d : Delivery} {lfs : LogFiles} {w : World}
  {msgs : Str → List Message}

/-- What is asked of a message and an entry with its path: the path is one of those that the log
    files may have, something is kept, the system calls succeed, and the log file does not roll
    while a compressor of its own is running. -/
structure Ready (paths : Set Str) (d : Delivery) (s : LogFiles × World) (e : Str × LogFileConfig) :
    Prop where
  mem : e.1 ∈ paths
  keep : 1 ≤ e.2.keep.toNat
  opens : (d.openEnv e.1).Succeeds
  processes : (d.processEnv e.1).Succeeds
  idle : ∀ lf, s.1.logFiles.lookup e.1 = some lf →
    lf.rollCriteriaMet (d.processEnv e.1) d.msg = true → ∀ job ∈ s.2.jobs, job.path ≠ e.1

/-- **One path.**  The record goes to its log file, and the others are left alone. -/
theorem processPath_own {e : Str × LogFileConfig} (hplaced : Placed plat e.1) {before : List Message}
    (h : OwnLog plat e.1 (lfs, w) before) (hready : Ready paths d (lfs, w) e) :
    ∃ lf' w', lfs.processPath plat w d e.1 e.2 =
        (some true, { lfs with logFiles := lfs.logFiles.insert e.1 lf' }, w') ∧
      OwnLog plat e.1 ({ lfs with logFiles := lfs.logFiles.insert e.1 lf' }, w')
        (before ++ [d.msg]) ∧
      Within plat e.1 w w' := by
  obtain ⟨path, cfg⟩ := e
  cases h with
  | unused hnone hmsgs honly hdisk =>
    subst hmsgs
    obtain ⟨sm, hown⟩ := recognizesOwn_of_plain plat
      (LogFile.of plat path cfg d.time).compress hplaced.plain.all_isPlain
    have hsite : Site plat (LogFile.of plat path cfg d.time) sm :=
      ⟨hplaced.parent, hplaced.plain.ordinary, hown, hplaced.shell, hready.keep⟩
    -- The new log file is opened and then gets the message; no compressor of its own is running.
    obtain ⟨lf₁, w₁, hopens, hsome₁, horderly₁, hlog₁, hjobs₁, hwithin₁⟩ :=
      @open_own plat w (d.openEnv path) (LogFile.of plat path cfg d.time) sm hplaced rfl hsite honly
        hdisk hready.opens
    obtain ⟨lf', w', rolled, hprocess, hsome, horderly, hlog, hwithin⟩ :=
      process_own hsite hsome₁ horderly₁ hlog₁ hready.processes d.msg fun _ => hjobs₁
    refine ⟨lf', w', ?_, ?_, hwithin₁.trans hwithin⟩
    · unfold processPath
      simp only [show lfs.logFiles.lookup path = none from hnone, hopens, hprocess]
    · refine .inUse _ lf' sm _ (AList.lookup_insert _) rfl hsite hsome horderly hlog ?_
      rw [history_advance]
      rfl
  | inUse lf₀ lf sm log hlookup hpath hsite hopen horderly hlog hhistory =>
    subst hpath
    have hidle : lf.rollCriteriaMet (d.processEnv lf₀.path) d.msg = true →
        (w.only lf₀.path).jobs = [] := by
      intro hcriteria
      apply List.filter_eq_nil_iff.mpr
      intro job hjob
      simpa using hready.idle lf hlookup hcriteria job hjob
    obtain ⟨lf', w', rolled, hprocess, hsome, horderly', hlog', hwithin⟩ :=
      process_own hsite hopen horderly hlog hready.processes d.msg hidle
    refine ⟨lf', w', ?_, ?_, hwithin⟩
    · unfold processPath
      simp only [show lfs.logFiles.lookup lf₀.path = some lf from hlookup, hprocess]
    · refine .inUse lf₀ lf' sm _ (AList.lookup_insert _) rfl hsite hsome horderly' hlog' ?_
      rw [history_advance, hhistory, List.map_append]
      rfl

/-- **All paths of a message.** -/
theorem processPaths_own (hplaced : ∀ p ∈ paths, Placed plat p)
    (hapart : ∀ p ∈ paths, ∀ q ∈ paths, p ≠ q → Apart plat p q)
    {logPaths : List (Str × LogFileConfig)} (hnodup : (logPaths.map Prod.fst).Nodup)
    (h : ∀ p ∈ paths, OwnLog plat p (lfs, w) (msgs p)) (hjobs : ∀ job ∈ w.jobs, job.path ∈ paths)
    (hready : ∀ e ∈ logPaths, Ready paths d (lfs, w) e) :
    ∃ s', processPaths plat d logPaths lfs w = (some true, s') ∧
      (∀ p ∈ paths, OwnLog plat p s'
        (msgs p ++ Family.outputs p (logPaths.map fun e => (e.1, d.msg)))) ∧
      ∀ job ∈ s'.2.jobs, job.path ∈ paths := by
  induction logPaths generalizing lfs w msgs with
  | nil =>
    refine ⟨(lfs, w), rfl, fun p hp => ?_, hjobs⟩
    rw [List.map_nil, Family.outputs_nil, List.append_nil]
    exact h p hp
  | cons e logPaths ih =>
    obtain ⟨hnot, hnodup'⟩ := List.nodup_cons.mp hnodup
    have he := hready e List.mem_cons_self
    obtain ⟨lf', w₁, hprocess, hown, hwithin⟩ :=
      processPath_own (hplaced e.1 he.mem) (h e.1 he.mem) he
    -- The other log files are as they were.
    have hothers : ∀ p ∈ paths, OwnLog plat p
        ({ lfs with logFiles := lfs.logFiles.insert e.1 lf' }, w₁)
        (msgs p ++ Family.outputs p [(e.1, d.msg)]) := by
      intro p hp
      by_cases hpe : p = e.1
      · subst hpe
        rw [show Family.outputs e.1 [(e.1, d.msg)] = [d.msg] by simp [Family.outputs]]
        exact hown
      · rw [show Family.outputs p [(e.1, d.msg)] = [] by simp [Family.outputs, Ne.symm hpe],
          List.append_nil]
        exact (h p hp).within (hplaced p hp) (hplaced e.1 he.mem) (hapart p hp e.1 he.mem hpe)
          (hapart e.1 he.mem p hp (Ne.symm hpe)) hpe (AList.lookup_insert_ne hpe) hwithin
    have hjobs₁ : ∀ job ∈ w₁.jobs, job.path ∈ paths := by
      intro job hjob
      rcases hwithin.jobs job hjob with hold | hnew
      · exact hjobs job hold
      · rw [hnew]
        exact he.mem
    have hready₁ : ∀ e' ∈ logPaths,
        Ready paths d ({ lfs with logFiles := lfs.logFiles.insert e.1 lf' }, w₁) e' := by
      intro e' he'
      have hne : e'.1 ≠ e.1 := by
        intro heq
        apply hnot
        rw [← heq]
        exact List.mem_map_of_mem he'
      obtain ⟨hmem, hkeep, hopens, hprocesses, hidle⟩ := hready e' (List.mem_cons_of_mem _ he')
      refine ⟨hmem, hkeep, hopens, hprocesses, fun lf hlf hcriteria job hjob => ?_⟩
      rw [AList.lookup_insert_ne hne] at hlf
      rcases hwithin.jobs job hjob with hold | hnew
      · exact hidle lf hlf hcriteria job hold
      · rw [hnew]
        exact hne.symm
    obtain ⟨s', hloop, hall, hjobs'⟩ := ih hnodup' hothers hjobs₁ hready₁
    refine ⟨s', ?_, fun p hp => ?_, hjobs'⟩
    · simp only [processPaths, hprocess, hloop]
      rfl
    · have houtputs : Family.outputs p ((e :: logPaths).map fun e => (e.1, d.msg)) =
          Family.outputs p [(e.1, d.msg)] ++
            Family.outputs p (logPaths.map fun e => (e.1, d.msg)) := by
        rw [← Family.outputs_append]
        rfl
      rw [houtputs, ← List.append_assoc]
      exact hall p hp

/-- A compressor of one of the log files. -/
theorem compressorStep_own (hplaced : ∀ p ∈ paths, Placed plat p)
    (hapart : ∀ p ∈ paths, ∀ q ∈ paths, p ≠ q → Apart plat p q)
    (h : ∀ p ∈ paths, OwnLog plat p (lfs, w) (msgs p)) (hjobs : ∀ job ∈ w.jobs, job.path ∈ paths)
    (i : Nat) :
    (∀ p ∈ paths, OwnLog plat p (lfs, w.compressorStep plat i) (msgs p)) ∧
      ∀ job ∈ (w.compressorStep plat i).jobs, job.path ∈ paths := by
  cases hget : w.jobs[i]? with
  | none =>
    have hsame : w.compressorStep plat i = w := by
      unfold World.compressorStep
      rw [hget]
    rw [hsame]
    exact ⟨h, hjobs⟩
  | some job =>
    obtain ⟨hlt, hjob⟩ := List.getElem?_eq_some_iff.mp hget
    have hsplit : w.jobs = w.jobs.take i ++ job :: w.jobs.drop (i + 1) := by
      rw [← hjob]
      simp
    have hlen : (w.jobs.take i).length = i := by
      rw [List.length_take]
      omega
    have hmem : job.path ∈ paths := hjobs job (List.mem_of_getElem? hget)
    have hin : job ∈ (w.only job.path).jobs :=
      List.mem_filter.mpr ⟨List.mem_of_getElem? hget, by simp⟩
    obtain ⟨⟨j, hself⟩, -⟩ := @compressorStep_only plat w job _ _ hsplit
    rw [hlen] at hself
    -- Its log file is in use, and the compressor works on the file that was rolled.
    cases h job.path hmem with
    | unused hnone hmsgs honly hdisk =>
      rw [show w.only job.path = w.bare from honly] at hin
      cases hin
    | inUse lf₀ lf sm log hlookup hpath hsite hopen horderly hlog hhistory =>
      have hfile : job.file = rolledString job.path := by
        rcases newest_cases horderly.newest with ⟨hidle, -⟩ | ⟨job', hjob', hrun⟩
        · rw [show (w.only job.path).jobs = [] from hidle] at hin
          cases hin
        · rw [show (w.only job.path).jobs = [job'] from hjob', List.mem_singleton] at hin
          rw [hin, hrun.file, hrun.path]
      have hwithin := @within_compressorStep plat w job _ _ hsplit
        (hplaced _ hmem).plain.ordinary (hplaced _ hmem).shell hfile
      rw [hlen] at hwithin
      refine ⟨fun p hp => ?_, fun job' hjob' => ?_⟩
      · by_cases hne : p = job.path
        · subst hne
          obtain ⟨horderly', hrolls, hlive⟩ := horderly.compressorStep hsite j
          rw [hpath] at hlive
          rw [hself] at horderly' hrolls hlive
          refine .inUse lf₀ lf sm log hlookup hpath hsite hopen horderly' ⟨?_, ?_⟩ hhistory
          · rw [← hlog.closed]
            unfold closedSegments
            rw [hrolls]
          · rw [hlive, hlog.live]
        · exact (h p hp).within (hplaced p hp) (hplaced _ hmem) (hapart p hp _ hmem hne)
            (hapart _ hmem p hp (Ne.symm hne)) hne rfl hwithin
      · rcases hwithin.jobs job' hjob' with hold | hnew
        · exact hjobs job' hold
        · rw [hnew]
          exact hmem

end

/-! ### Runs -/

section

variable (plat : Platform) (driver : MessageFilterDriver) (regexReplace : Str → Str → Str)

/-- `LogFiles` and its world as a machine.  It emits the paths that a message is routed to, with the
    message. -/
def machine : Machine (LogFiles × World) LogFilesEvent (Str × Message) := fun s e =>
  some (step plat driver regexReplace s e,
    match e with
    | .process d => (routes driver regexReplace s.1 d.msg).2.map fun r => (r.1, d.msg)
    | .compressor _ => [])

/-- All system calls that the event makes succeed. -/
def CallsSucceed : LogFilesEvent → Prop
  | .process d => ∀ path, (d.openEnv path).Succeeds ∧ (d.processEnv path).Succeeds
  | .compressor _ => True

/-- The message is routed to paths that the log files may have, something is kept there, and no log
    file rolls while a compressor of its own is running. -/
def RoutesIdle (paths : Set Str) (s : LogFiles × World) : LogFilesEvent → Prop
  | .process d => ∀ r ∈ (routes driver regexReplace s.1 d.msg).2,
      r.1 ∈ paths ∧ 1 ≤ r.2.keep.toNat ∧ ∀ lf ∈ s.1.logFiles.lookup r.1,
        lf.rollCriteriaMet (d.processEnv r.1) d.msg = true → ∀ job ∈ s.2.jobs, job.path ≠ r.1
  | .compressor _ => True

instance decidableRoutesIdle (paths : Set Str) [DecidablePred fun p => p ∈ paths] :
    ∀ s e, Decidable (RoutesIdle driver regexReplace paths s e)
  | s, .process d =>
    inferInstanceAs (Decidable (∀ r ∈ (routes driver regexReplace s.1 d.msg).2,
      r.1 ∈ paths ∧ 1 ≤ r.2.keep.toNat ∧ ∀ lf ∈ s.1.logFiles.lookup r.1,
        lf.rollCriteriaMet (d.processEnv r.1) d.msg = true → ∀ job ∈ s.2.jobs, job.path ≠ r.1))
  | _, .compressor _ => inferInstanceAs (Decidable True)

/-- What is asked of an event. -/
def RoutesReady (paths : Set Str) (s : LogFiles × World) (e : LogFilesEvent) : Prop :=
  CallsSucceed e ∧ RoutesIdle driver regexReplace paths s e

variable {plat driver regexReplace} {paths : Set Str}

/-- **One step** keeps every log file its own log. -/
theorem step_own (hplaced : ∀ p ∈ paths, Placed plat p)
    (hapart : ∀ p ∈ paths, ∀ q ∈ paths, p ≠ q → Apart plat p q) {s s' : LogFiles × World}
    {emitted out : List (Str × Message)}
    (h : (∀ p ∈ paths, OwnLog plat p s (Family.outputs p emitted)) ∧
      ∀ job ∈ s.2.jobs, job.path ∈ paths)
    {e : LogFilesEvent} (hready : RoutesReady driver regexReplace paths s e)
    (hstep : machine plat driver regexReplace s e = some (s', out)) :
    (∀ p ∈ paths, OwnLog plat p s' (Family.outputs p (emitted ++ out))) ∧
      ∀ job ∈ s'.2.jobs, job.path ∈ paths := by
  obtain ⟨lfs, w⟩ := s
  obtain ⟨rfl, rfl⟩ := Prod.mk.inj (Option.some.inj hstep)
  simp only [Family.outputs_append]
  cases e with
  | compressor i =>
    simp only [Family.outputs_nil, List.append_nil]
    exact compressorStep_own hplaced hapart h.1 h.2 i
  | process d =>
    obtain ⟨hnodup, -⟩ := logPathConfigs_spec driver regexReplace lfs.filesConfig.logDirectory d.msg
      lfs.filteredLogConfigs lfs.logPathCache [] List.nodup_nil
    -- The cache of paths does not matter.
    have hown : ∀ p ∈ paths, OwnLog plat p ((routes driver regexReplace lfs d.msg).1, w)
        (Family.outputs p emitted) :=
      fun p hp => (h.1 p hp).frame (hplaced p hp) rfl rfl fun _ _ => ⟨rfl, rfl⟩
    have hroutes : ∀ e ∈ (routes driver regexReplace lfs d.msg).2,
        Ready paths d ((routes driver regexReplace lfs d.msg).1, w) e := by
      intro e he
      obtain ⟨hmem, hkeep, hidle⟩ := hready.2 e he
      exact ⟨hmem, hkeep, (hready.1 e.1).1, (hready.1 e.1).2, hidle⟩
    obtain ⟨s', hloop, hall, hjobs⟩ := processPaths_own hplaced hapart hnodup hown h.2 hroutes
    have hs' : step plat driver regexReplace (lfs, w) (.process d) = s' := by
      show (processPaths plat d _ _ w).2 = s'
      rw [← show (some true, s').2 = s' from rfl, ← hloop]
      rfl
    rw [hs']
    exact ⟨fun p hp => hall p hp, hjobs⟩

/-- At first there are no log files, and nothing of theirs is on the disk. -/
theorem ownLog_start {filesConfig : FilesConfig} {disk : Disk} {path : Str}
    (hfresh : FreshDirectory plat path disk) :
    OwnLog plat path (configure driver filesConfig, { disk }) [] := by
  refine .unused rfl rfl rfl fun k hk => ?_
  cases hk with
  | @own f hf k hk =>
    obtain ⟨rest, rfl⟩ := hk
    rw [List.append_assoc, List.singleton_append]
    apply hfresh
    rcases hf.eq_or with rfl | ⟨e, rfl⟩
    · exact List.prefix_refl _
    · exact List.prefix_append _ _
  | numbered e => exact hfresh _ [] (List.prefix_append _ _)

/-- **Every log file its own log.**  Take paths that are apart, each with a plain name in a fresh
    directory and one word to the shell.  Take any messages that are routed to some of these paths
    only, by entries that keep at least one archive, and any progress of the compressors, such that
    all system calls succeed and no log file rolls while a compressor of its own is running.  Then
    the closed segments and the live file at each path are the segments of a log whose history is
    the records of the messages routed there, in order, whatever goes on at the other paths.  The
    archives at the path hold its most recent segments, and no others. -/
theorem own_logs (plat : Platform) (driver : MessageFilterDriver) (regexReplace : Str → Str → Str)
    (filesConfig : FilesConfig) (disk : Disk) (paths : Set Str) (events : List LogFilesEvent)
    {s : LogFiles × World} {out : List (Str × Message)}
    (hplaced : ∀ p ∈ paths, Placed plat p) (hfresh : ∀ p ∈ paths, FreshDirectory plat p disk)
    (hapart : ∀ p ∈ paths, ∀ q ∈ paths, p ≠ q → Apart plat p q)
    (hready : (machine plat driver regexReplace).Meets (RoutesReady driver regexReplace paths)
      (configure driver filesConfig, { disk }) events)
    (hrun : (machine plat driver regexReplace).run (configure driver filesConfig, { disk }) events =
      some (s, out)) :
    ∀ path ∈ paths,
      (s.1.logFiles.lookup path = none → Family.outputs path out = []) ∧
      ∀ lf, s.1.logFiles.lookup path = some lf → ∃ log : SegmentedLog Str,
        closedSegments plat path (s.2.only path) = log.closed.map List.flatten ∧
        liveContent plat path s.2 = log.live.flatten ∧
        log.history = (Family.outputs path out).map (record plat lf.format) ∧
        (∀ num segment, num < lf.keep.toNat → recent plat path (s.2.only path) num = some segment →
          (num = 0 → ∀ job ∈ s.2.jobs, job.path = path → job.phase = .created) →
          s.2.disk.read (key plat (archiveString path num lf.compress)) =
            some (plat.pack (compressCommand lf.compress) segment)) ∧
        (∀ num, (s.2.disk.read (key plat (archiveString path num lf.compress))).isSome →
          num < log.closed.length ∧ num < lf.keep.toNat) ∧
        ∀ job ∈ s.2.jobs, job.path = path →
          s.2.disk.read (key plat (rolledString path)) = recent plat path (s.2.only path) 0 := by
  have hall := (machine plat driver regexReplace).history_of_run
    (C := RoutesReady driver regexReplace paths)
    (R := fun _ emitted s => (∀ p ∈ paths, OwnLog plat p s (Family.outputs p emitted)) ∧
      ∀ job ∈ s.2.jobs, job.path ∈ paths)
    (fun _ _ _ _ _ _ h hready hstep => step_own hplaced hapart h hready hstep)
    events [] [] _ s out
    ⟨fun p hp => ownLog_start (hfresh p hp), List.forall_mem_nil _⟩ hready hrun
  rw [List.nil_append] at hall
  intro path hpath
  cases hall.1 path hpath with
  | unused hnone hmsgs honly hdisk =>
    refine ⟨fun _ => hmsgs, fun lf hlf => ?_⟩
    rw [hnone] at hlf
    cases hlf
  | inUse lf₀ lf sm log hlookup hpath₀ hsite hopen horderly hlog hhistory =>
    subst hpath₀
    refine ⟨fun hnone => ?_, fun lf' hlf' => ?_⟩
    · rw [hnone] at hlookup
      cases hlookup
    obtain rfl := Option.some.inj (hlookup.symm.trans hlf')
    have hsettings : lf.SameSettings lf₀ := horderly.settings
    rw [hsettings.format, hsettings.keep, hsettings.compress]
    refine ⟨log, hlog.closed, hlog.live, hhistory, ?_, ?_, ?_⟩
    · -- Archive 0 is there once its compressor has made it, and the others always are.
      intro num segment hlt hsegment hcreated
      rw [key_archiveString]
      by_cases hzero : num = 0
      · subst hzero
        rcases newest_cases horderly.newest with ⟨-, hdone⟩ | ⟨job, hjob, hrunning⟩
        · exact hdone segment hsegment
        · have hmem : job ∈ (s.2.only lf₀.path).jobs := by
            rw [show (s.2.only lf₀.path).jobs = [job] from hjob]
            exact List.mem_singleton_self job
          have hphase := hrunning.phase
          rw [hcreated rfl job (List.mem_filter.mp hmem).1 hrunning.path] at hphase
          exact hphase segment hsegment
      · exact horderly.archives num segment (by omega) hlt hsegment
    · intro num hnum
      rw [key_archiveString, FileStore.read, Option.isSome_map] at hnum
      rcases horderly.known num hnum with hknown | ⟨-, hold⟩
      · rw [show closedSegments plat lf₀.path (s.2.only lf₀.path) = _ from hlog.closed,
          List.length_map] at hknown
        exact hknown
      · exact hold.elim
    · intro job hjob hown
      have hmem : job ∈ (s.2.only lf₀.path).jobs := List.mem_filter.mpr ⟨hjob, by simpa using hown⟩
      rw [key_rolledString plat hsite.ordinary]
      rcases newest_cases horderly.newest with ⟨hidle, -⟩ | ⟨job', hjob', hrunning⟩
      · rw [show (s.2.only lf₀.path).jobs = [] from hidle] at hmem
        cases hmem
      · exact hrunning.rolled

/-- The log files of two applications. -/
def appPaths : Set Str := {p | p = str "/log/app" ∨ p = str "/log/other"}

instance decidableAppPaths : DecidablePred fun p => p ∈ appPaths := fun p =>
  inferInstanceAs (Decidable (p = str "/log/app" ∨ p = str "/log/other"))

/-- Two applications, one of whose log files rolls. -/
theorem own_logs_plain :
    let s := run plainPlatform anyDriver literalRegexReplace
      (configure anyDriver appFiles, { disk := emptyDisk }) plainDeliveries
    ∃ (lf : LogFile) (log : SegmentedLog Str), s.1.logFiles.lookup (str "/log/app") = some lf ∧
      closedSegments plainPlatform (str "/log/app") (s.2.only (str "/log/app")) =
        log.closed.map List.flatten ∧ log.closed.length = 1 ∧ log.history.length = 2 := by
  intro s
  have hplaced : ∀ p ∈ appPaths, Placed plainPlatform p := by
    rintro p (rfl | rfl)
    · exact ⟨by decide, by decide, by decide⟩
    · exact ⟨by decide, by decide, by decide⟩
  have hapart : ∀ p ∈ appPaths, ∀ q ∈ appPaths, p ≠ q → Apart plainPlatform p q := by
    rintro p (rfl | rfl) q (rfl | rfl) hne
    · exact absurd rfl hne
    · exact apart_of_directoryOf_eq (by decide) (by decide)
    · exact apart_of_directoryOf_eq (by decide) (by decide)
    · exact absurd rfl hne
  have hidle : (machine plainPlatform anyDriver literalRegexReplace).Meets
      (RoutesIdle anyDriver literalRegexReplace appPaths)
      (configure anyDriver appFiles, { disk := emptyDisk }) plainDeliveries := by decide
  have hready := hidle.and_forall (P := CallsSucceed) fun e he => by
    fin_cases he
    all_goals first | trivial | exact fun _ => ⟨⟨fun _ => rfl, rfl⟩, ⟨fun _ => rfl, rfl⟩⟩
  have hlookup : (s.1.logFiles.lookup (str "/log/app")).isSome := by decide
  obtain ⟨lf, hlf⟩ := Option.isSome_iff_exists.mp hlookup
  obtain ⟨log, hclosed, -, hhistory, -⟩ := (own_logs plainPlatform anyDriver literalRegexReplace
    appFiles emptyDisk appPaths plainDeliveries hplaced (fun _ _ => freshDirectory_emptyDisk _ _)
    hapart hready rfl (str "/log/app") (Or.inl rfl)).2 lf hlf
  refine ⟨lf, log, hlf, hclosed, ?_, ?_⟩
  · have hlength : (closedSegments plainPlatform (str "/log/app")
        (s.2.only (str "/log/app"))).length = 1 := by decide
    rw [← hlength, show closedSegments _ _ (s.2.only (str "/log/app")) = _ from hclosed,
      List.length_map]
  · rw [hhistory, List.length_map]
    decide

end

end LogFiles

end Mclog
