import Mclog.Equiv.RollArchives
import Mclog.General.SegmentedLog

/-!
# Rolling, one compressor at a time

`Orderly` describes the directory of a log file that is only rolled while no compressor of an earlier
roll is running: the most recent closed segment is in `path.0`, in `path.0.<ext>` or in both,
according to how far its compressor is, and the `i`-th one before it is in `path.i.<ext>`.  Every
step keeps it (`orderly_step`), and is a step of a segmented log.
-/

namespace Mclog

open General

namespace LogFile

/-- What the guarantees about a log file rest on: its path has a directory, and an ordinary name
    that recognizes its own archives and is a plain word to the shell; and something is kept. -/
structure Site (plat : Platform) (lf : LogFile) (sm : Str → Option Str) : Prop where
  parent : parentPath lf.path ≠ []
  ordinary : Ordinary (filename lf.path)
  own : RecognizesOwn plat lf.path lf.compress sm
  shell : compressorArguments plat (rolledString lf.path) = [rolledString lf.path]
  keep : 1 ≤ lf.keep.toNat

/-- The settings that no call changes. -/
structure SameSettings (lf lf₀ : LogFile) : Prop where
  path : lf.path = lf₀.path
  keep : lf.keep = lf₀.keep
  rollSize : lf.rollSize = lf₀.rollSize
  compress : lf.compress = lf₀.compress
  format : lf.format = lf₀.format

/-- The `i`-th most recent closed segment. -/
def recent (plat : Platform) (path : Str) (w : World) (i : Nat) : Option Str :=
  (closedSegments plat path w).reverse[i]?

/-- What a segment is in an archive. -/
def packed (plat : Platform) (compress : Str) (segment : Str) : Str :=
  plat.pack (compressCommand compress) segment

/-- The most recent closed segment is in the first archive. -/
def Compressed (plat : Platform) (lf₀ : LogFile) (w : World) : Prop :=
  ∀ segment, recent plat lf₀.path w 0 = some segment →
    w.disk.read (archiveKey plat lf₀.path lf₀.compress 0) = some (packed plat lf₀.compress segment)

/-- The most recent closed segment is in the rolled file, which the compressor has come so far
    with. -/
structure Compressing (plat : Platform) (lf₀ : LogFile) (w : World) (job : Job) : Prop where
  path : job.path = lf₀.path
  file : job.file = rolledString lf₀.path
  compress : job.compress = lf₀.compress
  /-- There is a closed segment. -/
  isSome : (recent plat lf₀.path w 0).isSome
  rolled : w.disk.read (rolledKey plat lf₀.path) = recent plat lf₀.path w 0
  phase : match job.phase with
    | .started => w.disk.find (archiveKey plat lf₀.path lf₀.compress 0) = none
    | .opened node => w.disk.find (archiveKey plat lf₀.path lf₀.compress 0) = none ∧
      w.disk.find (rolledKey plat lf₀.path) = some node
    | .created => Compressed plat lf₀ w

/-- Where the most recent closed segment is. -/
def Newest (plat : Platform) (lf₀ : LogFile) (w : World) : Prop :=
  match w.jobs with
  | [] => Compressed plat lf₀ w
  | [job] => Compressing plat lf₀ w job
  | _ => False

theorem newest_of_idle {plat : Platform} {lf₀ : LogFile} {w : World} (h : w.jobs = []) :
    Newest plat lf₀ w ↔ Compressed plat lf₀ w := by
  rw [Newest, h]

theorem newest_of_running {plat : Platform} {lf₀ : LogFile} {w : World} (job : Job)
    (h : w.jobs = [job]) : Newest plat lf₀ w ↔ Compressing plat lf₀ w job := by
  rw [Newest, h]

/-- No compressor is running, or one. -/
theorem newest_cases {plat : Platform} {lf₀ : LogFile} {w : World} (h : Newest plat lf₀ w) :
    (w.jobs = [] ∧ Compressed plat lf₀ w) ∨ ∃ job, w.jobs = [job] ∧ Compressing plat lf₀ w job := by
  unfold Newest at h
  split at h
  · rename_i hjobs
    exact Or.inl ⟨hjobs, h⟩
  · rename_i job hjobs
    exact Or.inr ⟨job, hjobs, h⟩
  · exact h.elim

/-- The log file and its directory, `old` being the numbers of the archives there were at first. -/
structure Orderly (plat : Platform) (lf₀ : LogFile) (sm : Str → Option Str) (old : Nat → Prop)
    (s : LogFile × World) : Prop where
  settings : s.1.SameSettings lf₀
  /-- The stream is open on the live file. -/
  stream : ∀ st, s.1.ofs = some st → st.good = true ∧ st.pending = [] ∧
    s.2.disk.find (liveKey plat lf₀.path) = some st.node
  dirs : NoDirectories plat lf₀.path lf₀.compress s.2.disk
  canonical : CanonicalArchives plat lf₀.path lf₀.compress sm s.2.disk
  /-- An archive is that of a closed segment, or was there at first. -/
  known : ∀ num, (s.2.disk.find (archiveKey plat lf₀.path lf₀.compress num)).isSome →
    (num < (closedSegments plat lf₀.path s.2).length ∧ num < lf₀.keep.toNat) ∨
      ((closedSegments plat lf₀.path s.2).length ≤ num ∧
        old (num - (closedSegments plat lf₀.path s.2).length))
  archives : ∀ num segment, 1 ≤ num → num < lf₀.keep.toNat →
    recent plat lf₀.path s.2 num = some segment →
    s.2.disk.read (archiveKey plat lf₀.path lf₀.compress num) =
      some (packed plat lf₀.compress segment)
  newest : Newest plat lf₀ s.2

section

variable {plat : Platform} {lf₀ lf lf' : LogFile} {sm : Str → Option Str} {old : Nat → Prop}
  {w w' : World} {env : Env}

theorem liveKey_eq (hsite : Site plat lf₀ sm) : key plat lf₀.path = liveKey plat lf₀.path :=
  key_path plat hsite.ordinary

/-- Changes of the live file alone keep the rest in order. -/
theorem Orderly.of_live (hsite : Site plat lf₀ sm) (h : Orderly plat lf₀ sm old (lf, w))
    (hsettings : lf'.SameSettings lf₀) (hjobs : w'.jobs = w.jobs) (hrolls : w'.rolls = w.rolls)
    (hfind : ∀ k, k ≠ liveKey plat lf₀.path → w'.disk.find k = w.disk.find k)
    (hread : ∀ k, k ≠ liveKey plat lf₀.path → w'.disk.read k = w.disk.read k)
    (hstream : ∀ st, lf'.ofs = some st → st.good = true ∧ st.pending = [] ∧
      w'.disk.find (liveKey plat lf₀.path) = some st.node) :
    Orderly plat lf₀ sm old (lf', w') := by
  -- What has been closed, and the archives it should be in, do not depend on the live file.
  have hsegments : closedSegments plat lf₀.path w' = closedSegments plat lf₀.path w := by
    unfold closedSegments
    rw [hrolls]
  have hrecent : recent plat lf₀.path w' = recent plat lf₀.path w := by
    unfold recent
    rw [hsegments]
  have harch := fun num => archiveKey_ne_liveKey plat lf₀.path lf₀.compress num
  have hrolled := rolledKey_ne_liveKey plat lf₀.path
  refine ⟨hsettings, hstream, ?_, ?_, ?_, ?_, ?_⟩
  · exact h.dirs.of_find_eq fun k hk => hfind k (hk _)
  · intro f digits hf hdigits
    refine h.canonical f digits ?_ hdigits
    rw [← hfind]
    · exact hf
    · -- The live file's name is no archive's.
      intro heq
      obtain rfl := List.singleton_inj.mp (List.append_cancel_left heq)
      rw [hsite.own.live] at hdigits
      cases hdigits
  · intro num hnum
    rw [hsegments]
    exact h.known num (by rw [← hfind _ (harch num)]; exact hnum)
  · intro num segment hone hkeep hsegment
    rw [hread _ (harch num)]
    exact h.archives num segment hone hkeep (by rw [← hrecent]; exact hsegment)
  · have hcompressed : Compressed plat lf₀ w → Compressed plat lf₀ w' := by
      unfold Compressed
      rw [hrecent, hread _ (harch 0)]
      exact id
    rcases newest_cases h.newest with ⟨hidle, hdone⟩ | ⟨job, hjob, hrun⟩
    · exact (newest_of_idle (hjobs.trans hidle)).mpr (hcompressed hdone)
    · refine (newest_of_running job (hjobs.trans hjob)).mpr
        ⟨hrun.path, hrun.file, hrun.compress, ?_, ?_, ?_⟩
      · rw [hrecent]
        exact hrun.isSome
      · rw [hrecent, hread _ hrolled]
        exact hrun.rolled
      · have hphase := hrun.phase
        split
        · rw [hfind _ (harch 0)]
          simpa [*] using hphase
        · rw [hfind _ (harch 0), hfind _ hrolled]
          simpa [*] using hphase
        · rename_i hcreated
          rw [hcreated] at hphase
          exact hcompressed hphase

/-- A roll closes the live segment. -/
theorem closedSegments_roll {disk : Disk} {compress : Str}
    (hrolls : w'.rolls = w.rolls ++ [⟨lf₀.path, compress, w.disk, disk⟩]) :
    closedSegments plat lf₀.path w' =
      closedSegments plat lf₀.path w ++ [liveContent plat lf₀.path w] := by
  unfold closedSegments liveContent
  rw [hrolls, List.map_append]
  rfl

/-- **A roll without compressors running** leaves things in order, with a compressor started and no
    live file. -/
theorem Orderly.roll (hsite : Site plat lf₀ sm) (h : Orderly plat lf₀ sm old (lf, w))
    (henv : env.Succeeds) (hidle : w.jobs = []) (hofs : lf.ofs = none)
    (hlive : (w.disk.find (liveKey plat lf₀.path)).isSome) :
    ∃ lf' w', lf.roll plat env w = (true, lf', w') ∧ lf'.ofs = none ∧
      Orderly plat lf₀ sm old (lf', w') ∧
      w'.disk.find (liveKey plat lf₀.path) = none ∧
      closedSegments plat lf₀.path w' =
        closedSegments plat lf₀.path w ++ [liveContent plat lf₀.path w] := by
  obtain ⟨hpath, hkeep, hsize, hcompress, hformat⟩ := h.settings
  simp only at hpath hkeep hsize hcompress hformat
  obtain ⟨disk, hroll, hnodes, harch, hrolled, hnone, hother⟩ := rollFiles_spec lf w
    (by rw [hpath]; exact hsite.parent) (by rw [hpath]; exact hsite.ordinary)
    (by rw [hpath, hcompress]; exact hsite.own) (by rw [hpath]; exact hsite.shell) henv
    (by rw [hpath, hcompress]; exact h.dirs) (by rw [hpath, hcompress]; exact h.canonical)
    (by rw [hpath]; exact hlive)
  simp only [hpath, hcompress, hkeep] at hroll harch hrolled hnone hother
  let w' : World :=
    { w with
      disk
      jobs := w.jobs ++ [⟨lf₀.path, rolledString lf₀.path, lf₀.compress, .started⟩]
      rolls := w.rolls ++ [⟨lf₀.path, lf₀.compress, w.disk, disk⟩] }
  have hsegments : closedSegments plat lf₀.path w' =
      closedSegments plat lf₀.path w ++ [liveContent plat lf₀.path w] :=
    closedSegments_roll rfl
  have hrecent : recent plat lf₀.path w' 0 = some (liveContent plat lf₀.path w) ∧
      ∀ num, recent plat lf₀.path w' (num + 1) = recent plat lf₀.path w num := by
    unfold recent
    rw [hsegments, List.reverse_append]
    exact ⟨rfl, fun num => rfl⟩
  have hread : ∀ k k', disk.find k = w.disk.find k' → disk.read k = w.disk.read k' :=
    fun k k' hk => FileStore.read_congr hnodes hk
  refine ⟨{ lf with rollInterval := lf.rollInterval.setToCurrent plat.calendar env.rollTime }, w',
    ?_, hofs, ?_, hnone, hsegments⟩
  · unfold LogFile.roll
    rw [hroll]
    rfl
  refine ⟨⟨hpath, hkeep, hsize, hcompress, hformat⟩, ?_, ?_, ?_, ?_, ?_, ?_⟩
  · intro st hst
    rw [hofs] at hst
    cases hst
  · exact h.dirs.of_find_eq fun k hk => hother k (hk _) (hk _) fun num => hk _
  · -- Archives have canonical names, and what is there is either moved or as it was.
    intro f digits hf hdigits
    by_cases harchive : ∃ num, f = archiveName lf₀.path lf₀.compress num
    · obtain ⟨num, rfl⟩ := harchive
      refine ⟨num, rfl, ?_⟩
      change (disk.find (archiveKey plat lf₀.path lf₀.compress num)).isSome at hf
      rw [harch] at hf
      split_ifs at hf with hnum
      · have := lf₀.keep.toNat_lt
        omega
      · cases hf
    · refine h.canonical f digits ?_ hdigits
      rw [← hother]
      · exact hf
      · intro heq
        obtain rfl := List.singleton_inj.mp (List.append_cancel_left heq)
        rw [hsite.own.live] at hdigits
        cases hdigits
      · intro heq
        obtain rfl := List.singleton_inj.mp (List.append_cancel_left heq)
        rw [hsite.own.rolled] at hdigits
        cases hdigits
      · intro num heq
        exact harchive ⟨num, List.singleton_inj.mp (List.append_cancel_left heq)⟩
  · -- An archive was one place below, and there is none in the first place.
    intro num hnum
    change (disk.find _).isSome at hnum
    rw [harch] at hnum
    split_ifs at hnum with hup
    · rw [hsegments, List.length_append, List.length_singleton]
      have hknown := h.known (num - 1) hnum
      simp only at hknown
      rcases hknown with ⟨hlt, -⟩ | ⟨hle, hold⟩
      · exact Or.inl ⟨by omega, hup.2⟩
      · refine Or.inr ⟨by omega, ?_⟩
        rwa [Nat.sub_sub, Nat.add_comm 1] at hold
    · cases hnum
  · -- So was what is in it: no compressor is running, and the newest segment had its archive.
    intro num segment hone hlt hsegment
    obtain ⟨num, rfl⟩ := Nat.exists_eq_add_of_le' hone
    rw [hrecent.2] at hsegment
    have hmoved : disk.find (archiveKey plat lf₀.path lf₀.compress (num + 1)) =
        w.disk.find (archiveKey plat lf₀.path lf₀.compress num) := by
      rw [harch, if_pos ⟨hone, hlt⟩, Nat.add_sub_cancel]
    change disk.read _ = _
    rw [hread _ _ hmoved]
    by_cases hzero : num = 0
    · subst hzero
      exact (newest_of_idle hidle).mp h.newest segment hsegment
    · exact h.archives num segment (by omega) (by omega) hsegment
  · -- The live file is now the rolled file, with a compressor.
    have hjobs : w'.jobs = [⟨lf₀.path, rolledString lf₀.path, lf₀.compress, .started⟩] := by
      change w.jobs ++ _ = _
      rw [hidle, List.nil_append]
    refine (newest_of_running _ hjobs).mpr ⟨rfl, rfl, rfl, ?_, ?_, ?_⟩
    · rw [hrecent.1]
      rfl
    · obtain ⟨i, hi⟩ := Option.isSome_iff_exists.mp hlive
      change disk.read _ = _
      rw [hrecent.1, hread _ _ hrolled, liveContent, liveKey_eq hsite, FileStore.read_of_find hi]
      rfl
    · change disk.find _ = none
      rw [harch, if_neg (by omega)]

/-- Opening the file creates it if there is none. -/
theorem Orderly.openFile (hsite : Site plat lf₀ sm) (h : Orderly plat lf₀ sm old (lf, w))
    (henv : env.Succeeds) :
    ∃ lf' w', lf.openFile plat env w = (some true, lf', w') ∧ lf'.ofs.isSome ∧
      Orderly plat lf₀ sm old (lf', w') ∧ w'.rolls = w.rolls ∧
      liveContent plat lf₀.path w' = liveContent plat lf₀.path w := by
  have hpath := h.settings.path
  simp only at hpath
  have hparent : (parentPath lf.path).isEmpty = false := by
    rw [hpath, List.isEmpty_eq_false_iff]
    exact hsite.parent
  have hdirectory := h.dirs.live
  unfold LogFile.openFile
  rw [hparent, henv.ensureParentDirectory, hpath, liveKey_eq hsite]
  simp only [Bool.false_eq_true, if_false, henv.fails, hdirectory, or_self]
  cases hfind : w.disk.find (liveKey plat lf₀.path) with
  | some node =>
    refine ⟨_, _, rfl, rfl, ?_, rfl, rfl⟩
    refine h.of_live hsite ?_ rfl rfl (fun _ _ => rfl) (fun _ _ => rfl) ?_
    · obtain ⟨-, hkeep, hsize, hcompress, hformat⟩ := h.settings
      exact ⟨rfl, hkeep, hsize, hcompress, hformat⟩
    · rintro st hst
      obtain rfl := Option.some.inj hst
      exact ⟨rfl, rfl, hfind⟩
  | none =>
    refine ⟨_, _, rfl, rfl, ?_, rfl, ?_⟩
    · refine h.of_live hsite ?_ rfl rfl (fun k hk => FileStore.find_create_of_ne hk)
        (fun k hk => FileStore.read_create_of_ne hk) ?_
      · obtain ⟨-, hkeep, hsize, hcompress, hformat⟩ := h.settings
        exact ⟨rfl, hkeep, hsize, hcompress, hformat⟩
      · rintro st hst
        obtain rfl := Option.some.inj hst
        exact ⟨rfl, rfl, FileStore.find_create_self⟩
    · unfold liveContent
      rw [liveKey_eq hsite, FileStore.read_create_self, FileStore.read, hfind]
      rfl

/-- Writing a record appends it to the live file. -/
theorem Orderly.writeRecord (hsite : Site plat lf₀ sm) (h : Orderly plat lf₀ sm old (lf, w))
    (henv : env.Succeeds) (hofs : lf.ofs.isSome) (msg : Message) :
    ∃ w', lf.writeRecord plat env w msg = (true, lf, w') ∧ Orderly plat lf₀ sm old (lf, w') ∧
      w'.rolls = w.rolls ∧
      liveContent plat lf₀.path w' = liveContent plat lf₀.path w ++ record plat lf.format msg := by
  obtain ⟨st, hst⟩ := Option.isSome_iff_exists.mp hofs
  obtain ⟨hgood, hpending, hfind⟩ := h.stream st hst
  refine ⟨{ w with disk := append env w.disk st.node (record plat lf.format msg) }, ?_, ?_, rfl, ?_⟩
  · unfold LogFile.writeRecord
    rw [hst]
    simp only [hgood, henv.fails, not_true_eq_false, if_false, Bool.false_eq_true]
  · refine h.of_live hsite h.settings rfl rfl (fun _ _ => rfl) ?_ h.stream
    intro k hk
    exact FileStore.read_setNode_of_ne hfind hk
  · unfold liveContent
    rw [liveKey_eq hsite]
    change ((w.disk.setNode _ _).read _).getD [] = _
    rw [FileStore.read_setNode_of_find hfind, FileStore.read_of_find hfind]
    rfl

/-- Closing the stream leaves the disk as it is. -/
theorem Orderly.close (hsite : Site plat lf₀ sm) (h : Orderly plat lf₀ sm old (lf, w)) (env : Env) :
    ∃ lf', lf.close env w = (lf', w) ∧ lf'.ofs = none ∧ Orderly plat lf₀ sm old (lf', w) ∧
      lf'.rollInterval = lf.rollInterval := by
  cases hofs : lf.ofs with
  | none =>
    refine ⟨lf, ?_, hofs, h, rfl⟩
    unfold LogFile.close
    rw [hofs]
  | some st =>
    obtain ⟨-, hpending, -⟩ := h.stream st hofs
    refine ⟨{ lf with ofs := none }, ?_, rfl, ?_, rfl⟩
    · unfold LogFile.close
      rw [hofs]
      simp [hpending]
    · refine h.of_live hsite ?_ rfl rfl (fun _ _ => rfl) (fun _ _ => rfl) (by simp)
      obtain ⟨hpath, hkeep, hsize, hcompress, hformat⟩ := h.settings
      exact ⟨hpath, hkeep, hsize, hcompress, hformat⟩

/-- A file that is not there needs no roll before it is opened. -/
theorem needRollBeforeOpen_of_none (env : Env) (hsite : Site plat lf₀ sm)
    (h : Orderly plat lf₀ sm old (lf, w)) (hfind : w.disk.find (liveKey plat lf₀.path) = none) :
    lf.needRollBeforeOpen plat env w.disk = false := by
  have hpath := h.settings.path
  simp only at hpath
  have hdirectory := h.dirs.live
  unfold needRollBeforeOpen
  rw [hpath, liveKey_eq hsite]
  simp [hfind, hdirectory]

/-- A file that needs a roll before it is opened is there. -/
theorem isSome_of_needRollBeforeOpen (hsite : Site plat lf₀ sm)
    (h : Orderly plat lf₀ sm old (lf, w)) (hneed : lf.needRollBeforeOpen plat env w.disk = true) :
    (w.disk.find (liveKey plat lf₀.path)).isSome := by
  by_contra hnone
  rw [Option.not_isSome_iff_eq_none] at hnone
  rw [needRollBeforeOpen_of_none env hsite h hnone] at hneed
  cases hneed

/-! ### Compressors -/

/-- Changes of the rolled file and the first archive alone keep the rest in order. -/
theorem Orderly.of_newest (hsite : Site plat lf₀ sm) (h : Orderly plat lf₀ sm old (lf, w))
    (hrolls : w'.rolls = w.rolls)
    (hfind : ∀ k, k ≠ rolledKey plat lf₀.path → k ≠ archiveKey plat lf₀.path lf₀.compress 0 →
      w'.disk.find k = w.disk.find k)
    (hread : ∀ k, k ≠ rolledKey plat lf₀.path → k ≠ archiveKey plat lf₀.path lf₀.compress 0 →
      w'.disk.read k = w.disk.read k)
    (hsome : (recent plat lf₀.path w 0).isSome) (hnewest : Newest plat lf₀ w') :
    Orderly plat lf₀ sm old (lf, w') := by
  have hsegments : closedSegments plat lf₀.path w' = closedSegments plat lf₀.path w := by
    unfold closedSegments
    rw [hrolls]
  -- The first archive may appear: there is a segment that belongs in it.
  have hpos : 0 < (closedSegments plat lf₀.path w).length := by
    obtain ⟨segment, hsegment⟩ := Option.isSome_iff_exists.mp hsome
    obtain ⟨hlt, -⟩ := List.getElem?_eq_some_iff.mp hsegment
    rwa [List.length_reverse] at hlt
  have harch : ∀ num, num ≠ 0 → archiveKey plat lf₀.path lf₀.compress num ≠
      archiveKey plat lf₀.path lf₀.compress 0 := fun num hnum heq => hnum (archiveKey_injective heq)
  refine ⟨h.settings, ?_, ?_, ?_, ?_, ?_, hnewest⟩
  · intro st hst
    obtain ⟨hgood, hpending, hlive⟩ := h.stream st hst
    refine ⟨hgood, hpending, ?_⟩
    simp only
    rw [hfind _ (rolledKey_ne_liveKey _ _).symm (archiveKey_ne_liveKey _ _ _ _).symm]
    exact hlive
  · exact h.dirs.of_find_eq fun k hk => hfind k (hk _) (hk _)
  · intro f digits hf hdigits
    by_cases hzero : f = archiveName lf₀.path lf₀.compress 0
    · exact ⟨0, hzero, by norm_num⟩
    · -- A name other than the first archive's was there before.
      refine h.canonical f digits ?_ hdigits
      simp only at hf ⊢
      rw [← hfind]
      · exact hf
      · intro heq
        obtain rfl := List.singleton_inj.mp (List.append_cancel_left heq)
        rw [hsite.own.rolled] at hdigits
        cases hdigits
      · intro heq
        exact hzero (List.singleton_inj.mp (List.append_cancel_left heq))
  · intro num hnum
    simp only at hnum ⊢
    rw [hsegments]
    by_cases hzero : num = 0
    · rw [hzero]
      exact Or.inl ⟨hpos, hsite.keep⟩
    · refine h.known num ?_
      simp only
      rw [← hfind _ (archiveKey_ne_rolledKey _ _ _ _) (harch num hzero)]
      exact hnum
  · intro num segment hone hkeep hsegment
    simp only
    rw [hread _ (archiveKey_ne_rolledKey _ _ _ _) (harch num (by omega))]
    refine h.archives num segment hone hkeep ?_
    unfold recent at hsegment ⊢
    rw [← hsegments]
    exact hsegment

/-- A compressor works on the rolled file. -/
theorem Compressing.source (hsite : Site plat lf₀ sm) {job : Job}
    (hrun : Compressing plat lf₀ w job) : resolve plat.cwd job.file = rolledKey plat lf₀.path := by
  rw [hrun.file]
  exact key_rolledString plat hsite.ordinary

/-- It makes the first archive. -/
theorem Compressing.target {job : Job} (hrun : Compressing plat lf₀ w job) :
    resolve plat.cwd (job.file ++ dot :: archiveExtension job.compress) =
      archiveKey plat lf₀.path lf₀.compress 0 := by
  rw [hrun.file, hrun.compress, rolledString_append_extension]
  exact key_archiveString plat _ 0 lf₀.compress

/-- A compressor that has been started opens the rolled file. -/
theorem Orderly.compressorStep_started (hsite : Site plat lf₀ sm)
    (h : Orderly plat lf₀ sm old (lf, w)) {job : Job} (hjob : w.jobs = [job])
    (hrun : Compressing plat lf₀ w job) (hstate : job.phase = .started) :
    Orderly plat lf₀ sm old (lf, w.compressorStep plat 0) ∧
      (w.compressorStep plat 0).rolls = w.rolls ∧
      liveContent plat lf₀.path (w.compressorStep plat 0) = liveContent plat lf₀.path w := by
  obtain ⟨node, hnode⟩ : ∃ node, w.disk.find (rolledKey plat lf₀.path) = some node := by
    obtain ⟨segment, hsegment⟩ := Option.isSome_iff_exists.mp hrun.isSome
    have hrolled := hrun.rolled
    rw [hsegment, FileStore.read, Option.map_eq_some_iff] at hrolled
    obtain ⟨node, hnode, -⟩ := hrolled
    exact ⟨node, hnode⟩
  have hstep : w.compressorStep plat 0 = { w with jobs := [{ job with phase := .opened node }] } := by
    unfold World.compressorStep
    simp [hjob, hstate, hrun.source hsite, hnode]
  have hphase := hrun.phase
  rw [hstate] at hphase
  rw [hstep]
  refine ⟨?_, rfl, rfl⟩
  refine h.of_newest hsite rfl (fun _ _ _ => rfl) (fun _ _ _ => rfl) hrun.isSome ?_
  refine (newest_of_running { job with phase := .opened node } rfl).mpr ?_
  exact ⟨hrun.path, hrun.file, hrun.compress, hrun.isSome, hrun.rolled, hphase, hnode⟩

/-- One that has opened it creates the first archive from what it has read. -/
theorem Orderly.compressorStep_opened (hsite : Site plat lf₀ sm)
    (h : Orderly plat lf₀ sm old (lf, w)) {job : Job} (hjob : w.jobs = [job])
    (hrun : Compressing plat lf₀ w job) {node : Nat} (hstate : job.phase = .opened node) :
    Orderly plat lf₀ sm old (lf, w.compressorStep plat 0) ∧
      (w.compressorStep plat 0).rolls = w.rolls ∧
      liveContent plat lf₀.path (w.compressorStep plat 0) = liveContent plat lf₀.path w := by
  obtain ⟨segment, hsegment⟩ := Option.isSome_iff_exists.mp hrun.isSome
  have hphase := hrun.phase
  rw [hstate] at hphase
  obtain ⟨hnone, hnode⟩ := hphase
  have hpresent : ¬ w.disk.Present (archiveKey plat lf₀.path lf₀.compress 0) := by
    rintro ⟨k, hk, hpre⟩
    by_cases heq : archiveKey plat lf₀.path lf₀.compress 0 = k
    · obtain ⟨j, hj⟩ := FileStore.mem_keys_iff.mp hk
      rw [← heq, hnone] at hj
      cases hj
    · exact h.dirs.archive 0 ⟨k, hk, hpre, heq⟩
  have hdata : (w.disk.nodes node).data = segment := by
    have hrolled := hrun.rolled
    rw [hsegment, FileStore.read_of_find hnode] at hrolled
    exact Option.some.inj hrolled
  obtain ⟨w', hstep, hjobs', hrolls', hdisk'⟩ : ∃ w', w.compressorStep plat 0 = w' ∧
      w'.jobs = [{ job with phase := .created }] ∧ w'.rolls = w.rolls ∧
      w'.disk = w.disk.create (archiveKey plat lf₀.path lf₀.compress 0)
        { w.disk.nodes node with data := packed plat job.compress segment } := by
    unfold World.compressorStep
    simp [hjob, hstate, hrun.target, hpresent, hdata, packed]
  rw [hstep]
  have hfind : ∀ k, k ≠ archiveKey plat lf₀.path lf₀.compress 0 →
      w'.disk.find k = w.disk.find k := by
    intro k hk
    rw [hdisk', FileStore.find_create_of_ne hk]
  have hread : ∀ k, k ≠ archiveKey plat lf₀.path lf₀.compress 0 →
      w'.disk.read k = w.disk.read k := by
    intro k hk
    rw [hdisk', FileStore.read_create_of_ne hk]
  have hrecent : recent plat lf₀.path w' 0 = some segment := by
    unfold recent closedSegments
    rw [hrolls']
    exact hsegment
  refine ⟨?_, hrolls', ?_⟩
  · refine h.of_newest hsite hrolls' (fun k _ hk => hfind k hk) (fun k _ hk => hread k hk)
      hrun.isSome ?_
    refine (newest_of_running _ hjobs').mpr
      ⟨hrun.path, hrun.file, hrun.compress, by rw [hrecent]; rfl, ?_, ?_⟩
    · rw [hread _ (archiveKey_ne_rolledKey _ _ _ _).symm, hrecent, hrun.rolled, hsegment]
    · intro segment' hsegment'
      obtain rfl : segment = segment' := Option.some.inj (hrecent.symm.trans hsegment')
      rw [hdisk', FileStore.read_create_self, hrun.compress]
  · unfold liveContent
    rw [liveKey_eq hsite, hread _ (archiveKey_ne_liveKey _ _ _ _).symm]

/-- One that has created the archive unlinks the rolled file. -/
theorem Orderly.compressorStep_created (hsite : Site plat lf₀ sm)
    (h : Orderly plat lf₀ sm old (lf, w)) {job : Job} (hjob : w.jobs = [job])
    (hrun : Compressing plat lf₀ w job) (hstate : job.phase = .created) :
    Orderly plat lf₀ sm old (lf, w.compressorStep plat 0) ∧
      (w.compressorStep plat 0).rolls = w.rolls ∧
      liveContent plat lf₀.path (w.compressorStep plat 0) = liveContent plat lf₀.path w := by
  obtain ⟨w', hstep, hjobs', hrolls', hdisk'⟩ : ∃ w', w.compressorStep plat 0 = w' ∧
      w'.jobs = [] ∧ w'.rolls = w.rolls ∧ w'.disk = w.disk.remove (rolledKey plat lf₀.path) := by
    unfold World.compressorStep
    simp [hjob, hstate, hrun.source hsite]
  have hphase := hrun.phase
  rw [hstate] at hphase
  rw [hstep]
  have hfind : ∀ k, k ≠ rolledKey plat lf₀.path → w'.disk.find k = w.disk.find k := by
    intro k hk
    rw [hdisk', FileStore.find_remove_of_ne hk]
  have hread : ∀ k, k ≠ rolledKey plat lf₀.path → w'.disk.read k = w.disk.read k := by
    intro k hk
    refine FileStore.read_congr ?_ (hfind k hk)
    rw [hdisk']
    rfl
  refine ⟨?_, hrolls', ?_⟩
  · refine h.of_newest hsite hrolls' (fun k hk _ => hfind k hk) (fun k hk _ => hread k hk)
      hrun.isSome ?_
    refine (newest_of_idle hjobs').mpr ?_
    intro segment' hsegment'
    rw [hread _ (archiveKey_ne_rolledKey _ _ _ _)]
    unfold recent closedSegments at hsegment'
    rw [hrolls'] at hsegment'
    exact hphase segment' hsegment'
  · unfold liveContent
    rw [liveKey_eq hsite, hread _ (rolledKey_ne_liveKey _ _).symm]

/-- **A step of a compressor** keeps things in order, and changes neither the live file nor what
    has been closed. -/
theorem Orderly.compressorStep (hsite : Site plat lf₀ sm) (h : Orderly plat lf₀ sm old (lf, w))
    (i : Nat) :
    Orderly plat lf₀ sm old (lf, w.compressorStep plat i) ∧
      (w.compressorStep plat i).rolls = w.rolls ∧
      liveContent plat lf₀.path (w.compressorStep plat i) = liveContent plat lf₀.path w := by
  rcases newest_cases h.newest with ⟨hidle, -⟩ | ⟨job, hjob, hrun⟩
  · -- No compressor is running.
    have hsame : w.compressorStep plat i = w := by
      unfold World.compressorStep
      simp only at hidle
      rw [hidle]
      rfl
    rw [hsame]
    exact ⟨h, rfl, rfl⟩
  · simp only at hjob hrun
    by_cases hi : i = 0
    · subst hi
      cases hstate : job.phase with
      | started => exact h.compressorStep_started hsite hjob hrun hstate
      | opened node => exact h.compressorStep_opened hsite hjob hrun hstate
      | created => exact h.compressorStep_created hsite hjob hrun hstate
    · have hsame : w.compressorStep plat i = w := by
        unfold World.compressorStep
        rw [hjob, List.getElem?_eq_none (by simp; omega)]
      rw [hsame]
      exact ⟨h, rfl, rfl⟩

/-! ### One step -/

/-- What a step does to the contents: the live segment may be closed, and records are appended. -/
structure Advance (plat : Platform) (path : Str) (w w' : World) (rolled : Bool) (out : List Str) :
    Prop where
  closed : closedSegments plat path w' =
    closedSegments plat path w ++ if rolled then [liveContent plat path w] else []
  live : liveContent plat path w' = (if rolled then [] else liveContent plat path w) ++ out.flatten

/-- Neither rolled nor written. -/
theorem Advance.of_same {path : Str} (hrolls : w'.rolls = w.rolls)
    (hlive : liveContent plat path w' = liveContent plat path w) :
    Advance plat path w w' false [] := by
  refine ⟨?_, by simpa using hlive⟩
  unfold closedSegments
  simp [hrolls]

/-- The call, or the step, makes the log file roll. -/
def Rolls (plat : Platform) (s : LogFile × World) : LogFileEvent → Prop
  | .open env => s.1.ofs = none ∧ s.1.needRollBeforeOpen plat env s.2.disk = true
  | .process env msg => s.1.ofs.isSome ∧ s.1.rollCriteriaMet env msg = true
  | .close _ => False
  | .compressor _ => False

instance (plat : Platform) (s : LogFile × World) : ∀ e, Decidable (Rolls plat s e)
  | .open _ => instDecidableAnd
  | .process _ _ => instDecidableAnd
  | .close _ => instDecidableFalse
  | .compressor _ => instDecidableFalse

/-- All system calls of the call succeed. -/
def EventSucceeds : LogFileEvent → Prop
  | .open env => env.Succeeds
  | .process env _ => env.Succeeds
  | .close env => env.Succeeds
  | .compressor _ => True

/-- All system calls succeed, and there is no roll while a compressor is running. -/
def RollsWhenIdle (plat : Platform) (s : LogFile × World) (e : LogFileEvent) : Prop :=
  EventSucceeds e ∧ (Rolls plat s e → s.2.jobs = [])

/-- `tellp` gives the number of bytes in the live file. -/
def TellsSize (plat : Platform) (s : LogFile × World) : LogFileEvent → Prop
  | .process env _ => env.tellp = (liveContent plat s.1.path s.2).length
  | .open _ => True
  | .close _ => True
  | .compressor _ => True

/-- Opening rolls an old file, if no compressor is running then. -/
theorem Orderly.openNoLock (hsite : Site plat lf₀ sm) (h : Orderly plat lf₀ sm old (lf, w))
    (henv : env.Succeeds)
    (hidle : lf.ofs = none → lf.needRollBeforeOpen plat env w.disk = true → w.jobs = []) :
    ∃ lf' w' rolled, lf.openNoLock plat env w = (some true, lf', w') ∧ lf'.ofs.isSome ∧
      Orderly plat lf₀ sm old (lf', w') ∧ Advance plat lf₀.path w w' rolled [] ∧
      (rolled = true → lf.needRollBeforeOpen plat env w.disk = true) := by
  unfold LogFile.openNoLock
  by_cases hofs : lf.ofs.isSome
  · rw [if_pos hofs]
    exact ⟨lf, w, false, rfl, hofs, h, .of_same rfl rfl, by simp⟩
  · rw [if_neg hofs]
    rw [Option.not_isSome_iff_eq_none] at hofs
    by_cases hneed : lf.needRollBeforeOpen plat env w.disk = true
    · rw [if_pos hneed]
      obtain ⟨lf₁, w₁, hroll, hofs₁, h₁, hnone, hclosed⟩ :=
        h.roll hsite henv (hidle hofs hneed) hofs (isSome_of_needRollBeforeOpen hsite h hneed)
      obtain ⟨lf', w', hopen, hofs', h', hrolls, hlive⟩ := h₁.openFile hsite henv
      rw [hroll]
      refine ⟨lf', w', true, hopen, hofs', h', ⟨?_, ?_⟩, fun _ => hneed⟩
      · unfold closedSegments at hclosed ⊢
        rw [hrolls, hclosed]
        simp
      · rw [hlive, liveContent, liveKey_eq hsite, FileStore.read, hnone]
        rfl
    · rw [if_neg hneed]
      obtain ⟨lf', w', hopen, hofs', h', hrolls, hlive⟩ := h.openFile hsite henv
      exact ⟨lf', w', false, hopen, hofs', h', .of_same hrolls hlive, by simp⟩

/-- A record written after a step that wrote none. -/
theorem Advance.write {path : Str} {w'' : World} {rolled : Bool} {r : Str}
    (h : Advance plat path w w' rolled []) (hrolls : w''.rolls = w'.rolls)
    (hlive : liveContent plat path w'' = liveContent plat path w' ++ r) :
    Advance plat path w w'' rolled [r] := by
  obtain ⟨hclosed, hbefore⟩ := h
  refine ⟨?_, ?_⟩
  · rw [← hclosed]
    unfold closedSegments
    rw [hrolls]
  · rw [hlive, hbefore]
    simp

/-- `Process` writes the message, after a roll if the criteria are met. -/
theorem Orderly.process (hsite : Site plat lf₀ sm) (h : Orderly plat lf₀ sm old (lf, w))
    (henv : env.Succeeds) (msg : Message) (hofs : lf.ofs.isSome)
    (hidle : lf.rollCriteriaMet env msg = true → w.jobs = []) :
    ∃ lf' w', lf.process plat env w msg = (some true, lf', w') ∧
      Orderly plat lf₀ sm old (lf', w') ∧
      Advance plat lf₀.path w w' (lf.rollCriteriaMet env msg) [record plat lf₀.format msg] := by
  unfold LogFile.process
  rw [if_pos hofs]
  by_cases hroll : lf.rollCriteriaMet env msg = true
  · rw [if_pos hroll, hroll]
    obtain ⟨st, hst⟩ := Option.isSome_iff_exists.mp hofs
    obtain ⟨-, -, hfind⟩ := h.stream st hst
    obtain ⟨lf₁, hclose, hofs₁, h₁, -⟩ := h.close hsite env
    obtain ⟨lf₂, w₂, hrolled, hofs₂, h₂, hnone, hclosed⟩ := h₁.roll hsite henv (hidle hroll) hofs₁
      (Option.isSome_iff_exists.mpr ⟨_, hfind⟩)
    -- There is no live file now, so opening it rolls nothing.
    have hneed := needRollBeforeOpen_of_none env hsite h₂ hnone
    obtain ⟨lf₃, w₃, rolled, hopen, hofs₃, h₃, hadvance, hagain⟩ := h₂.openNoLock hsite henv
      (fun _ hneed' => by rw [hneed] at hneed'; cases hneed')
    obtain rfl : rolled = false := by
      rw [← Bool.not_eq_true]
      intro htrue
      rw [hagain htrue] at hneed
      cases hneed
    obtain ⟨w₄, hwrite, h₄, hrolls, hlive⟩ := h₃.writeRecord hsite henv hofs₃ msg
    refine ⟨lf₃, w₄, ?_, h₄, ?_⟩
    · simp only [hclose, hrolled, hopen, hwrite]
    · have hempty : liveContent plat lf₀.path w₂ = [] := by
        rw [liveContent, liveKey_eq hsite, FileStore.read, hnone]
        rfl
      have hbefore : Advance plat lf₀.path w w₃ true [] := by
        refine ⟨?_, ?_⟩
        · rw [hadvance.closed, hclosed]
          simp
        · rw [hadvance.live, hempty]
          rfl
      rw [← h₃.settings.format]
      exact hbefore.write hrolls hlive
  · rw [if_neg hroll]
    obtain ⟨w', hwrite, h', hrolls, hlive⟩ := h.writeRecord hsite henv hofs msg
    refine ⟨lf, w', ?_, h', ?_⟩
    · simp only [hwrite]
    · rw [Bool.eq_false_iff.mpr hroll, ← h.settings.format]
      exact (Advance.of_same rfl rfl).write hrolls hlive

/-- Without a roll the live file has not reached the size at which it is rolled. -/
theorem length_lt_of_not_rollCriteriaMet (h : lf.SameSettings lf₀) {msg : Message}
    (hofs : lf.ofs.isSome) (hroll : lf.rollCriteriaMet env msg = false) (hsize : 0 < lf₀.rollSize)
    (htell : env.tellp = (liveContent plat lf.path w).length) :
    (liveContent plat lf₀.path w).length < lf₀.rollSize.toNat := by
  unfold rollCriteriaMet at hroll
  split_ifs at hroll with hcriterion
  all_goals
    rw [h.rollSize, h.path] at *
    by_contra hle
    exact hcriterion ⟨hsize, hofs, by omega⟩

/-- **One step** keeps things in order, and is a step of a segmented log: the live segment is closed
    if the log file rolls, and the records written are appended. -/
theorem orderly_step (hsite : Site plat lf₀ sm) {s : LogFile × World}
    (h : Orderly plat lf₀ sm old s) {e : LogFileEvent} (hok : RollsWhenIdle plat s e) :
    ∃ s' out rolled, machine plat s e = some (s', out) ∧ Orderly plat lf₀ sm old s' ∧
      Advance plat lf₀.path s.2 s'.2 rolled out ∧
      (out = [] ∨ ∃ r, out = [r] ∧ (0 < lf₀.rollSize → TellsSize plat s e → rolled = false →
        (liveContent plat lf₀.path s.2).length < lf₀.rollSize.toNat)) := by
  obtain ⟨lf, w⟩ := s
  obtain ⟨hsucceeds, hidle⟩ := hok
  cases e with
  | «open» env =>
    obtain ⟨lf', w', rolled, hopen, -, h', hadvance, -⟩ :=
      h.openNoLock hsite hsucceeds fun hofs hneed => hidle ⟨hofs, hneed⟩
    refine ⟨(lf', w'), [], rolled, ?_, h', hadvance, Or.inl rfl⟩
    unfold machine
    simp only [hopen]
  | process env msg =>
    by_cases hofs : lf.ofs.isSome
    · obtain ⟨lf', w', hprocess, h', hadvance⟩ :=
        h.process hsite hsucceeds msg hofs fun hroll => hidle ⟨hofs, hroll⟩
      have hformat : lf.format = lf₀.format := h.settings.format
      refine ⟨(lf', w'), _, _, ?_, h', hadvance, Or.inr ⟨_, rfl, ?_⟩⟩
      · unfold machine
        simp only [hprocess, hformat, if_true]
      · intro hsize htell hroll
        exact length_lt_of_not_rollCriteriaMet h.settings hofs hroll hsize htell
    · refine ⟨(lf, w), [], false, ?_, h, .of_same rfl rfl, Or.inl rfl⟩
      unfold machine LogFile.process
      simp only [if_neg hofs, Bool.false_eq_true, if_false]
  | close env =>
    obtain ⟨lf', hclose, -, h', -⟩ := h.close hsite env
    refine ⟨(lf', w), [], false, ?_, h', .of_same rfl rfl, Or.inl rfl⟩
    unfold machine
    simp only [hclose]
  | compressor i =>
    obtain ⟨h', hrolls, hlive⟩ := h.compressorStep hsite i
    exact ⟨(lf, w.compressorStep plat i), [], false, rfl, h', .of_same hrolls hlive, Or.inl rfl⟩

end

end LogFile

end Mclog
