import Mclog.Equiv.Rolling

/-!
# What a log file guarantees

As long as no system call fails and no compressor of an earlier roll is running when the log file
rolls, the closed segments and the live file are the records written, in order
(`rolling_refines`), and the segments to be kept are on the disk (`recent_segments_present`).
Nothing makes a roll wait for a compressor, though, and one that comes too early loses a segment
(`segment_lost`): the compressor unlinks `path.0`, whatever that has become.
-/

namespace Mclog

open General

namespace LogFile

variable {plat : Platform} {lf : LogFile} {w w' : World}

/-- The contents of a log file are those of a segmented log of records. -/
structure Refines (plat : Platform) (path : Str) (w : World) (log : SegmentedLog Str) : Prop where
  closed : closedSegments plat path w = log.closed.map List.flatten
  live : liveContent plat path w = log.live.flatten

/-- What a step does to the log. -/
def advance (log : SegmentedLog Str) (rolled : Bool) (out : List Str) : SegmentedLog Str :=
  (if rolled then log.cut else log).append out

theorem Advance.refines {path : Str} {rolled : Bool} {out : List Str} {log : SegmentedLog Str}
    (h : Advance plat path w w' rolled out) (hlog : Refines plat path w log) :
    Refines plat path w' (advance log rolled out) := by
  obtain ⟨hclosed, hlive⟩ := h
  unfold advance
  cases rolled with
  | true =>
    refine ⟨?_, ?_⟩
    · rw [hclosed, hlog.closed, hlog.live]
      simp [SegmentedLog.cut, SegmentedLog.append]
    · rw [hlive]
      simp [SegmentedLog.cut, SegmentedLog.append]
  | false =>
    refine ⟨?_, ?_⟩
    · rw [hclosed, hlog.closed]
      simp [SegmentedLog.append]
    · rw [hlive, hlog.live]
      simp [SegmentedLog.append]

theorem history_advance (log : SegmentedLog Str) (rolled : Bool) (out : List Str) :
    (advance log rolled out).history = log.history ++ out := by
  unfold advance
  cases rolled <;> simp

theorem bounded_advance {log : SegmentedLog Str} {n : Nat} (hn : 0 < n)
    (h : log.Bounded List.length n) (rolled : Bool) {out : List Str}
    (hout : out = [] ∨ ∃ r, out = [r] ∧ (rolled = false → log.live.flatten.length < n)) :
    (advance log rolled out).Bounded List.length n := by
  have htotal : ∀ seg : List Str, SegmentedLog.total List.length seg = seg.flatten.length :=
    fun seg => List.length_flatten.symm
  unfold advance
  rcases hout with rfl | ⟨r, rfl, hlive⟩
  · have hsame : ∀ log : SegmentedLog Str, log.append [] = log := by
      intro log
      simp [SegmentedLog.append]
    rw [hsame]
    cases rolled with
    | true => exact SegmentedLog.bounded_cut hn h
    | false => exact h
  · cases rolled with
    | true => exact SegmentedLog.bounded_append (SegmentedLog.bounded_cut hn h) hn r
    | false =>
      refine SegmentedLog.bounded_append h ?_ r
      rw [htotal]
      exact hlive rfl

/-- A log file that has not been opened is in order, if no directory stands where its files go and
    nothing else looks like its archives. -/
theorem orderly_start {sm : Str → Option Str} {disk : Disk} (hofs : lf.ofs = none)
    (hdirs : NoDirectories plat lf.path lf.compress disk)
    (hcanonical : CanonicalArchives plat lf.path lf.compress sm disk) :
    Orderly plat lf sm (fun num => (disk.find (archiveKey plat lf.path lf.compress num)).isSome)
      (lf, { disk }) := by
  have hrecent : ∀ num segment, recent plat lf.path { disk } num ≠ some segment := by
    intro num segment hsegment
    simp [recent, closedSegments] at hsegment
  refine ⟨⟨rfl, rfl, rfl, rfl, rfl⟩, ?_, hdirs, hcanonical, ?_, ?_, ?_⟩
  · intro st hst
    rw [hofs] at hst
    cases hst
  · intro num hnum
    exact Or.inr ⟨Nat.zero_le _, hnum⟩
  · intro num segment _ _ hsegment
    exact absurd hsegment (hrecent num segment)
  · refine (newest_of_idle rfl).mpr ?_
    intro segment hsegment
    exact absurd hsegment (hrecent 0 segment)

/-- A run that is orderly at its start is so at its end, and follows a segmented log. -/
theorem run_orderly {sm : Str → Option Str} {old : Nat → Prop} {disk : Disk}
    (hsite : Site plat lf sm) (hstart : Orderly plat lf sm old (lf, { disk }))
    (events : List LogFileEvent)
    (hmeets : (machine plat).Meets (RollsWhenIdle plat) (lf, { disk }) events) :
    ∃ s out, (machine plat).run (lf, { disk }) events = some (s, out) ∧
      Orderly plat lf sm old s ∧
      ∀ log₀, Refines plat lf.path { disk } log₀ → ∃ log : SegmentedLog Str,
        Refines plat lf.path s.2 log ∧ log.history = log₀.history ++ out ∧
        (0 < lf.rollSize → log₀.Bounded List.length lf.rollSize.toNat →
          (machine plat).Meets (TellsSize plat) (lf, { disk }) events →
          log.Bounded List.length lf.rollSize.toNat) := by
  let R : List LogFileEvent → List Str → LogFile × World → Prop := fun before emitted s =>
    (machine plat).run (lf, { disk }) before = some (s, emitted) ∧ Orderly plat lf sm old s ∧
      ∀ log₀, Refines plat lf.path { disk } log₀ → ∃ log : SegmentedLog Str,
        Refines plat lf.path s.2 log ∧ log.history = log₀.history ++ emitted ∧
        (0 < lf.rollSize → log₀.Bounded List.length lf.rollSize.toNat →
          (machine plat).Meets (TellsSize plat) (lf, { disk }) before →
          log.Bounded List.length lf.rollSize.toNat)
  have hstep : ∀ before emitted s e, R before emitted s → RollsWhenIdle plat s e →
      ∃ s' out, machine plat s e = some (s', out) ∧ R (before ++ [e]) (emitted ++ out) s' := by
    rintro before emitted s e ⟨hrun, horderly, hlogs⟩ hok
    obtain ⟨s', out, rolled, hmachine, horderly', hadvance, hout⟩ := orderly_step hsite horderly hok
    refine ⟨s', out, hmachine, (machine plat).run_append_singleton hrun hmachine, horderly', ?_⟩
    intro log₀ hlog₀
    obtain ⟨log, hlog, hhistory, hbounded⟩ := hlogs log₀ hlog₀
    refine ⟨advance log rolled out, hadvance.refines hlog, ?_, ?_⟩
    · rw [history_advance, hhistory, List.append_assoc]
    · intro hsize hbounded₀ htells
      obtain ⟨htells, htell⟩ := htells.of_append_singleton hrun
      refine bounded_advance (by omega) (hbounded hsize hbounded₀ htells) rolled ?_
      rcases hout with hnil | ⟨r, hr, hshort⟩
      · exact Or.inl hnil
      · refine Or.inr ⟨r, hr, fun hrolled => ?_⟩
        rw [← hlog.live]
        exact hshort hsize htell hrolled
  obtain ⟨s, out, hrun, -, horderly, hlogs⟩ := (machine plat).run_history hstep events [] []
    (lf, { disk }) ⟨rfl, hstart, fun log₀ hlog₀ => ⟨log₀, hlog₀, by simp, fun _ h _ => h⟩⟩ hmeets
  exact ⟨s, out, hrun, horderly, hlogs⟩

/-! ### A fresh directory -/

/-- The file name is not empty and uses letters, digits, `-` and `_` only. -/
structure PlainName (name : Str) : Prop where
  ne_nil : name ≠ []
  chars : ∀ c ∈ name, isalnum c = true ∨ c = hyphen ∨ c = underscore

instance (name : Str) : Decidable (PlainName name) :=
  decidable_of_iff
    (name ≠ [] ∧ name.all (fun c => isalnum c || c = hyphen || c = underscore) = true) <| by
      rw [List.all_eq_true]
      simp only [Bool.or_eq_true, decide_eq_true_eq, or_assoc]
      exact ⟨fun h => ⟨h.1, h.2⟩, fun h => ⟨h.ne_nil, h.chars⟩⟩

theorem PlainName.dot_notMem {name : Str} (h : PlainName name) : dot ∉ name := by
  intro hdot
  rcases h.chars dot hdot with hc | hc | hc <;> cases hc

theorem PlainName.all_isPlain {name : Str} (h : PlainName name) : name.all isPlain = true := by
  rw [List.all_eq_true]
  intro c hc
  unfold isPlain
  rcases h.chars c hc with hc | rfl | rfl
  · simp [hc]
  · rfl
  · rfl

theorem PlainName.ordinary {name : Str} (h : PlainName name) : Ordinary name := by
  refine ⟨h.ne_nil, ?_, ?_⟩
  all_goals
    rintro rfl
    exact h.dot_notMem (by simp)

/-- The directory of the path holds nothing whose name starts with the file name. -/
def FreshDirectory (plat : Platform) (path : Str) (disk : Disk) : Prop :=
  ∀ f rest, filename path <+: f → disk.find (directoryOf plat path ++ f :: rest) = none

theorem FreshDirectory.not_isDirectory {path f : Str} {disk : Disk}
    (h : FreshDirectory plat path disk) (hf : filename path <+: f) :
    ¬ disk.IsDirectory (directoryOf plat path ++ [f]) := by
  rintro ⟨k, hk, ⟨rest, rfl⟩, -⟩
  obtain ⟨i, hi⟩ := FileStore.mem_keys_iff.mp hk
  rw [List.append_assoc, List.singleton_append, h f rest hf] at hi
  cases hi

theorem FreshDirectory.noDirectories {path : Str} {disk : Disk}
    (h : FreshDirectory plat path disk) (compress : Str) : NoDirectories plat path compress disk :=
  ⟨h.not_isDirectory (List.prefix_refl _), h.not_isDirectory (List.prefix_append _ _),
    fun num => h.not_isDirectory (prefix_archiveName path compress num)⟩

/-- A fresh directory holds no archives. -/
theorem FreshDirectory.canonicalArchives {path compress : Str} {disk : Disk}
    (h : FreshDirectory plat path disk) (hname : PlainName (filename path))
    {sm : Str → Option Str} (hown : RecognizesOwn plat path compress sm) :
    CanonicalArchives plat path compress sm disk := by
  intro f digits hf hdigits
  have hpre := prefix_of_archiveRegex hname.all_isPlain hname.dot_notMem hown.regex hdigits
  rw [h f [] hpre] at hf
  cases hf

/-! ### A log file that rolls -/

/-- A platform without time zones, where nothing but plain names is used. -/
def plainPlatform : Platform where
  io := prefixedStreams
  calendar.localtime t := ⟨t % 60, t / 60 % 60, t / 3600 % 24, t / 86400, 0, 70, 0⟩
  calendar.mktime tms := tms.tm_sec + 60 * tms.tm_min + 3600 * tms.tm_hour + 86400 * tms.tm_mday
  timestampText timestamp := decimal timestamp.usecs.toNat
  cwd := []
  regex _ _ := none
  shell _ := []
  pack command s := command ++ s

/-- A log file that rolls before every message but the first. -/
def appLog : LogFile := .of plainPlatform (str "/log/app") { size := 1 } 0

/-- No files at all. -/
def emptyDisk : Disk := .empty ⟨[], 0⟩

/-- A message of the given time. -/
def messageAt (usecs : UInt64) : Message :=
  ⟨⟨⟨usecs⟩, .user, .info, ⟨⟨str "host", length_host_le⟩, ⟨str "app", length_app_le⟩, 1⟩⟩,
    ⟨str "text", length_text_le⟩⟩

theorem plainName_appLog : PlainName (filename appLog.path) := by decide

theorem freshDirectory_emptyDisk (plat : Platform) (path : Str) :
    FreshDirectory plat path emptyDisk := fun _ _ _ => rfl

/-- Two rolls, the second after the compressor of the first has ended. -/
def rollsTwice : List LogFileEvent :=
  [.open {}, .process {} (messageAt 1), .process { tellp := 29 } (messageAt 2), .compressor 0,
   .compressor 0, .compressor 0, .process { tellp := 29 } (messageAt 3)]

theorem meets_rollsTwice :
    (machine plainPlatform).Meets (RollsWhenIdle plainPlatform) (appLog, { disk := emptyDisk })
      rollsTwice := by
  have hidle : (machine plainPlatform).Meets (fun s e => Rolls plainPlatform s e → s.2.jobs = [])
      (appLog, { disk := emptyDisk }) rollsTwice := by decide
  refine hidle.and_forall fun e he => ?_
  fin_cases he
  all_goals first | trivial | exact ⟨fun _ => rfl, rfl⟩

/-! ### Rolling refines an append-only history -/

/-- **Rolling refines an append-only history.**  Take a log file with a plain name in a fresh
    directory, and any calls and any clock, such that all system calls succeed and there is no roll
    while a compressor is running.  Then the closed segments and the live file are the segments of a
    log whose history is what was written.  The archives hold the most recent closed segments, the
    last of them once its compressor has created its archive, and it is in `path.0` until then.
    Segments exceed `rollSize` by less than their last record, if `tellp` tells the size of the
    file. -/
theorem rolling_refines (plat : Platform) (lf : LogFile) (disk : Disk) (events : List LogFileEvent)
    (hparent : parentPath lf.path ≠ []) (hname : PlainName (filename lf.path))
    (hshell : compressorArguments plat (rolledString lf.path) = [rolledString lf.path])
    (hkeep : 1 ≤ lf.keep.toNat) (hofs : lf.ofs = none) (hfresh : FreshDirectory plat lf.path disk)
    (hmeets : (machine plat).Meets (RollsWhenIdle plat) (lf, { disk }) events) :
    ∃ (s : LogFile × World) (out : List Str) (log : SegmentedLog Str),
      (machine plat).run (lf, { disk }) events = some (s, out) ∧
      closedSegments plat lf.path s.2 = log.closed.map List.flatten ∧
      liveContent plat lf.path s.2 = log.live.flatten ∧ log.history = out ∧
      (∀ num segment, num < lf.keep.toNat → recent plat lf.path s.2 num = some segment →
        (num = 0 → ∀ job ∈ s.2.jobs, job.phase = .created) →
        s.2.disk.read (key plat (archiveString lf.path num lf.compress)) =
          some (plat.pack (compressCommand lf.compress) segment)) ∧
      (∀ num, (s.2.disk.read (key plat (archiveString lf.path num lf.compress))).isSome →
        num < log.closed.length ∧ num < lf.keep.toNat) ∧
      (∀ job ∈ s.2.jobs,
        s.2.disk.read (key plat (rolledString lf.path)) = recent plat lf.path s.2 0) ∧
      (0 < lf.rollSize → (machine plat).Meets (TellsSize plat) (lf, { disk }) events →
        log.Bounded List.length lf.rollSize.toNat) := by
  obtain ⟨sm, hown⟩ := recognizesOwn_of_plain plat lf.compress hname.all_isPlain
  have hsite : Site plat lf sm := ⟨hparent, hname.ordinary, hown, hshell, hkeep⟩
  have hstart := orderly_start hofs (hfresh.noDirectories lf.compress)
    (hfresh.canonicalArchives hname hown)
  obtain ⟨s, out, hrun, horderly, hlogs⟩ := run_orderly hsite hstart events hmeets
  have hempty : Refines plat lf.path { disk } SegmentedLog.empty := by
    refine ⟨rfl, ?_⟩
    have hnone := hfresh (filename lf.path) [] (List.prefix_refl _)
    rw [liveContent, liveKey_eq hsite, liveKey, FileStore.read, hnone]
    rfl
  obtain ⟨log, hlog, hhistory, hbounded⟩ := hlogs SegmentedLog.empty hempty
  refine ⟨s, out, log, hrun, hlog.closed, hlog.live, hhistory, ?_, ?_, ?_, ?_⟩
  · intro num segment hlt hsegment hcreated
    rw [key_archiveString]
    by_cases hzero : num = 0
    · subst hzero
      rcases newest_cases horderly.newest with ⟨-, hdone⟩ | ⟨job, hjob, hrun⟩
      · exact hdone segment hsegment
      · have hphase := hrun.phase
        rw [hcreated rfl job (by rw [hjob]; simp)] at hphase
        exact hphase segment hsegment
    · exact horderly.archives num segment (by omega) hlt hsegment
  · intro num hnum
    rw [key_archiveString, FileStore.read, Option.isSome_map] at hnum
    have hlength : log.closed.length = (closedSegments plat lf.path s.2).length := by
      rw [hlog.closed, List.length_map]
    rw [hlength]
    rcases horderly.known num hnum with hknown | ⟨-, hold⟩
    · exact hknown
    · -- There were no archives at first.
      rw [archiveKey, hfresh _ [] (prefix_archiveName _ _ _)] at hold
      cases hold
  · intro job hmem
    rw [key_rolledString plat hsite.ordinary]
    rcases newest_cases horderly.newest with ⟨hidle, -⟩ | ⟨job', hjob', hrun⟩
    · rw [hidle] at hmem
      cases hmem
    · exact hrun.rolled
  · intro hsize htells
    exact hbounded hsize (SegmentedLog.bounded_empty (by omega)) htells

/-- A run with two rolls. -/
theorem rolling_refines_rollsTwice :
    ∃ (s : LogFile × World) (out : List Str) (log : SegmentedLog Str),
      (machine plainPlatform).run (appLog, { disk := emptyDisk }) rollsTwice = some (s, out) ∧
      closedSegments plainPlatform appLog.path s.2 = log.closed.map List.flatten ∧
      liveContent plainPlatform appLog.path s.2 = log.live.flatten ∧ log.history = out := by
  obtain ⟨s, out, log, hrun, hclosed, hlive, hhistory, -⟩ :=
    rolling_refines plainPlatform appLog emptyDisk rollsTwice (by decide) plainName_appLog
      (by decide) (by decide) rfl (freshDirectory_emptyDisk _ _) meets_rollsTwice
  exact ⟨s, out, log, hrun, hclosed, hlive, hhistory⟩

/-- **The last closed segment has no archive yet.**  In a run with two rolls, the first compressor
    having ended before the second, there is a closed segment to be kept after the second roll that
    no archive `path.0.<ext>` holds. -/
theorem newest_segment_not_archived :
    (machine plainPlatform).Meets (RollsWhenIdle plainPlatform) (appLog, { disk := emptyDisk })
        rollsTwice ∧
      ∃ s out, (machine plainPlatform).run (appLog, { disk := emptyDisk }) rollsTwice =
          some (s, out) ∧
        0 < (closedSegments plainPlatform appLog.path s.2).length ∧ 0 < appLog.keep.toNat ∧
        s.2.disk.read (key plainPlatform (archiveString appLog.path 0 appLog.compress)) = none := by
  refine ⟨meets_rollsTwice, ?_⟩
  have hend : ((machine plainPlatform).run (appLog, { disk := emptyDisk }) rollsTwice).map
      (fun p => ((closedSegments plainPlatform appLog.path p.1.2).length,
        p.1.2.disk.read (key plainPlatform (archiveString appLog.path 0 appLog.compress)))) =
      some (2, none) := by decide
  obtain ⟨⟨s, out⟩, hrun, hvalues⟩ := Option.map_eq_some_iff.mp hend
  obtain ⟨hlength, hread⟩ := Prod.mk.inj hvalues
  exact ⟨s, out, hrun, by rw [hlength]; decide, by decide, hread⟩

/-! ### The most recent segments -/

/-- **The segments to be kept are on the disk.**  Let the file name recognize its own archives and
    be a plain word to the shell, and the directory hold no others that look like them.  In every
    run in which all system calls succeed and there is no roll while a compressor is running, each
    of the `keep` most recent closed segments is in `path.0` or in an archive. -/
theorem recent_segments_present (plat : Platform) (lf : LogFile) (disk : Disk)
    (sm : Str → Option Str) (events : List LogFileEvent) (hsite : Site plat lf sm)
    (hofs : lf.ofs = none) (hdirs : NoDirectories plat lf.path lf.compress disk)
    (hcanonical : CanonicalArchives plat lf.path lf.compress sm disk)
    (hmeets : (machine plat).Meets (RollsWhenIdle plat) (lf, { disk }) events) :
    ∃ s out, (machine plat).run (lf, { disk }) events = some (s, out) ∧
      ∀ i segment, i < lf.keep.toNat → recent plat lf.path s.2 i = some segment →
        s.2.disk.read (key plat (rolledString lf.path)) = some segment ∨
          ∃ num, s.2.disk.read (key plat (archiveString lf.path num lf.compress)) =
            some (plat.pack (compressCommand lf.compress) segment) := by
  obtain ⟨s, out, hrun, horderly, -⟩ := run_orderly hsite
    (orderly_start hofs hdirs hcanonical) events hmeets
  refine ⟨s, out, hrun, ?_⟩
  intro i segment hlt hsegment
  rw [key_rolledString plat hsite.ordinary]
  by_cases hzero : i = 0
  · subst hzero
    rcases newest_cases horderly.newest with ⟨-, hdone⟩ | ⟨job, -, hrun⟩
    · refine Or.inr ⟨0, ?_⟩
      rw [key_archiveString]
      exact hdone segment hsegment
    · exact Or.inl (hrun.rolled.trans hsegment)
  · refine Or.inr ⟨i, ?_⟩
    rw [key_archiveString]
    exact horderly.archives i segment (by omega) hlt hsegment

/-- A run with two rolls. -/
theorem recent_segments_present_rollsTwice :
    ∃ s out, (machine plainPlatform).run (appLog, { disk := emptyDisk }) rollsTwice =
        some (s, out) ∧
      ∀ i segment, i < appLog.keep.toNat →
        recent plainPlatform appLog.path s.2 i = some segment →
        s.2.disk.read (key plainPlatform (rolledString appLog.path)) = some segment ∨
          ∃ num, s.2.disk.read
              (key plainPlatform (archiveString appLog.path num appLog.compress)) =
            some (plainPlatform.pack (compressCommand appLog.compress) segment) := by
  obtain ⟨sm, hown⟩ :=
    recognizesOwn_of_plain plainPlatform appLog.compress plainName_appLog.all_isPlain
  have hfresh := freshDirectory_emptyDisk plainPlatform appLog.path
  exact recent_segments_present plainPlatform appLog emptyDisk sm rollsTwice
    ⟨by decide, plainName_appLog.ordinary, hown, by decide, by decide⟩ rfl
    (hfresh.noDirectories _) (hfresh.canonicalArchives plainName_appLog hown) meets_rollsTwice

/-- The second roll comes when the compressor of the first has only opened its file. -/
def overtakesCompressor : List LogFileEvent :=
  [.open {}, .process {} (messageAt 1), .process { tellp := 29 } (messageAt 2), .compressor 0,
   .process { tellp := 29 } (messageAt 3), .compressor 0, .compressor 0, .compressor 0]

/-- **A roll that overtakes a compressor loses a segment.**  The first compressor makes an archive of
    the first segment, and unlinks `path.0`, which is the second by then.  The second compressor
    finds nothing. -/
theorem segment_lost :
    (∀ e ∈ overtakesCompressor, EventSucceeds e) ∧
      ∃ s out segment,
        (machine plainPlatform).run (appLog, { disk := emptyDisk }) overtakesCompressor =
          some (s, out) ∧
        0 < appLog.keep.toNat ∧ recent plainPlatform appLog.path s.2 0 = some segment ∧
        ∀ k, s.2.disk.read k ≠ some segment ∧
          s.2.disk.read k ≠ some (packed plainPlatform appLog.compress segment) := by
  refine ⟨?_, ?_⟩
  · intro e he
    fin_cases he
    all_goals first | trivial | exact ⟨fun _ => rfl, rfl⟩
  have hend : ((machine plainPlatform).run (appLog, { disk := emptyDisk })
      overtakesCompressor).map (fun p => (recent plainPlatform appLog.path p.1.2 0,
        p.1.2.disk.names.keys.map p.1.2.disk.read)) =
      some (some (record plainPlatform .text (messageAt 2)),
        [some (packed plainPlatform appLog.compress (record plainPlatform .text (messageAt 1))),
          some (record plainPlatform .text (messageAt 3))]) := by decide
  obtain ⟨⟨s, out⟩, hrun, hvalues⟩ := Option.map_eq_some_iff.mp hend
  obtain ⟨hrecent, hfiles⟩ := Prod.mk.inj hvalues
  refine ⟨s, out, _, hrun, by decide, hrecent, fun k => ?_⟩
  have hread : s.2.disk.read k = none ∨ s.2.disk.read k ∈ s.2.disk.names.keys.map s.2.disk.read := by
    by_cases hk : k ∈ s.2.disk.names.keys
    · exact Or.inr (List.mem_map_of_mem hk)
    · exact Or.inl (FileStore.read_eq_none_of_notMem hk)
  rw [hfiles] at hread
  have hne : ∀ r ∈ [none, some (packed plainPlatform appLog.compress
        (record plainPlatform .text (messageAt 1))),
      some (record plainPlatform .text (messageAt 3))],
      r ≠ some (record plainPlatform .text (messageAt 2)) ∧
        r ≠ some (packed plainPlatform appLog.compress
          (record plainPlatform .text (messageAt 2))) := by decide
  refine hne _ ?_
  rcases hread with h | h
  · rw [h]
    exact List.mem_cons_self
  · exact List.mem_cons_of_mem _ h

end LogFile

end Mclog
