import Mclog.Equiv.CompletedRoll
import Mclog.Equiv.RollInterval
import Mclog.General.SegmentedLog

/-!
# What restarts do to the segments

A log file that rolls by time alone decides when a message comes, from the end of its interval; one
that has been made anew decides when it is opened, from the start of its interval and the
modification time of the file.  Both cut the log where the interval changes, though not at the same
moment: a file that is opened in a new interval is rolled at once, and a file that is open only when
the next message comes.  `Follows` has these two cases, and `segments_of_restarts` says that the
segments are the same at the end, but for empty ones.
-/

namespace Mclog

open General

/-! ### Intervals -/

section

variable {gmtoff : Int} {rp : RollPeriod}

theorem nextMark_mono (hrp : rp ≠ .days_7) {t₁ t₂ : Int} (h : t₁ ≤ t₂) :
    nextMark (.fixedOffset gmtoff) rp t₁ ≤ nextMark (.fixedOffset gmtoff) rp t₂ := by
  have hpos := incrementSeconds_pos rp
  rcases nextMark_partition gmtoff hrp h with heq | hle
  · exact heq.le
  · omega

/-- All times of an interval have the same next mark. -/
theorem nextMark_eq_of_spans (hrp : rp ≠ .days_7) {t₁ t₂ : Int}
    (hstart : nextMark (.fixedOffset gmtoff) rp t₁ - incrementSeconds rp ≤ t₂)
    (hend : t₂ < nextMark (.fixedOffset gmtoff) rp t₁) :
    nextMark (.fixedOffset gmtoff) rp t₂ = nextMark (.fixedOffset gmtoff) rp t₁ := by
  obtain ⟨hlo₁, hhi₁⟩ := nextMark_spans gmtoff rp t₁
  obtain ⟨hlo₂, hhi₂⟩ := nextMark_spans gmtoff rp t₂
  rcases le_total t₁ t₂ with hle | hle
  · rcases nextMark_partition gmtoff hrp hle with heq | hle
    · exact heq.symm
    · omega
  · rcases nextMark_partition gmtoff hrp hle with heq | hle
    · exact heq
    · omega

theorem incrementSeconds_le (hrp : rp ≠ .days_7) : incrementSeconds rp ≤ 86400 := by
  cases rp <;> first | exact absurd rfl hrp | decide

end

/-! ### Events in time -/

/-- The reading of the clock at a call, or when the log file is constructed. -/
def LifetimeEvent.time? : LifetimeEvent → Option Int
  | .call (.open env) => some env.time
  | .call (.process env _) => some env.time
  | .call (.close env) => some env.time
  | .call (.compressor _) => none
  | .restart _ _ t => some t

/-- The message that is processed, and when. -/
def LifetimeEvent.processed? : LifetimeEvent → Option (Int × Message)
  | .call (.process env msg) => some (env.time, msg)
  | _ => none

namespace LogFile

/-- A call reads the clock once, a message is processed in the interval of its timestamp, and a log
    file that is constructed has the same period and format, and no size at which it rolls. -/
def Regular (plat : Platform) (cfg : LogFileConfig) : LifetimeEvent → Prop
  | .call (.open env) => env.rollTime = env.time ∧ env.writeTime = env.time
  | .call (.process env msg) =>
    (env.rollTime = env.time ∧ env.writeTime = env.time) ∧
      (RollInterval.of plat.calendar cfg.period env.time).Spans
        (msg.header.timestamp.usecs.toNat / 1000000 : Nat)
  | .call _ => True
  | .restart _ cfg' _ => cfg'.period = cfg.period ∧ cfg'.size ≤ 0 ∧ cfg'.format = cfg.format

/-- `Open` and `Process` return true. -/
def CallSucceeds (plat : Platform) (s : LogFile × World) : LifetimeEvent → Prop
  | .call (.open env) => (s.1.openNoLock plat env s.2).1 = some true
  | .call (.process env msg) => (s.1.process plat env s.2 msg).1 = some true
  | _ => True

instance (plat : Platform) (s : LogFile × World) : ∀ e, Decidable (CallSucceeds plat s e)
  | .call (.open _) => inferInstanceAs (Decidable (_ = some true))
  | .call (.process _ _) => inferInstanceAs (Decidable (_ = some true))
  | .call (.close _) => instDecidableTrue
  | .call (.compressor _) => instDecidableTrue
  | .restart _ _ _ => instDecidableTrue

/-- The clock never goes back, from `t₀` on. -/
structure Timely (plat : Platform) (cfg : LogFileConfig) (t₀ : Int) (events : List LifetimeEvent) :
    Prop where
  regular : ∀ e ∈ events, Regular plat cfg e
  sorted : (t₀ :: events.filterMap LifetimeEvent.time?).Pairwise (· ≤ ·)

/-- No compressor works on the live file, or makes an archive of its name. -/
def SparesLive (plat : Platform) (path : Str) : Prop :=
  ∀ file ∈ compressorArguments plat (rolledString path), key plat file ≠ key plat path ∧
    ∀ compress, key plat (file ++ dot :: archiveExtension compress) ≠ key plat path

/-- The closed segments and the live file, in bytes. -/
def segmentedLog (plat : Platform) (path : Str) (w : World) : SegmentedLog UInt8 :=
  ⟨closedSegments plat path w, liveContent plat path w⟩

/-- The log that is cut where the interval changes. -/
def addRecord (plat : Platform) (cfg : LogFileConfig) (log : TimedLog UInt8 Int)
    (p : Int × Message) : TimedLog UInt8 Int :=
  log.add (nextMark plat.calendar cfg.period) p.1 (record plat cfg.format p.2)

/-- The log file and its world when the clock is at `now`, and what has been written is `log`. -/
structure Follows (plat : Platform) (path : Str) (cfg : LogFileConfig) (log : TimedLog UInt8 Int)
    (now : Int) (s : LogFile × World) : Prop where
  path_eq : s.1.path = path
  period : s.1.rollInterval.rp = cfg.period
  size : s.1.rollSize ≤ 0
  format : s.1.format = cfg.format
  /-- The interval has been set. -/
  interval : ∃ t, 0 ≤ t ∧ t ≤ now ∧ s.1.rollInterval.endTime = nextMark plat.calendar cfg.period t
  jobs : ∀ job ∈ s.2.jobs, job.file ∈ compressorArguments plat (rolledString path)
  stream : ∀ st, s.1.ofs = some st → st.pending = [] ∧
    s.2.disk.find (key plat path) = some st.node
  past : ∀ l, log.last = some l → l ≤ now
  /-- The live file is the live segment, or the live segment has been closed already. -/
  content :
    (SegmentedLog.Same (segmentedLog plat path s.2) log.log ∧
      ∃ node, s.2.disk.find (key plat path) = some node ∧
        log.last = some (s.2.disk.nodes node).mtime ∧
        (s.2.disk.nodes node).mtime < s.1.rollInterval.endTime ∧
        (s.1.ofs.isSome → s.1.rollInterval.startTime ≤ (s.2.disk.nodes node).mtime)) ∨
    (SegmentedLog.Same (segmentedLog plat path s.2) log.log.cut ∧
      ∀ l, log.last = some l → l < s.1.rollInterval.startTime)

section

variable {plat : Platform} {path : Str} {env : Env} {lf lf' : LogFile} {w w' : World}

/-! ### The content of a log file -/

theorem liveContent_of_find_eq_none (hfind : w.disk.find (key plat path) = none) :
    liveContent plat path w = [] := by
  unfold liveContent FileStore.read
  rw [hfind]
  rfl

theorem content_congr (hrolls : w'.rolls = w.rolls)
    (hread : w'.disk.read (key plat path) = w.disk.read (key plat path)) :
    segmentedLog plat path w' = segmentedLog plat path w := by
  unfold segmentedLog closedSegments liveContent
  rw [hrolls, hread]

/-- A roll is a cut. -/
theorem RollDone.content (h : RollDone plat env lf w lf' w') :
    segmentedLog plat lf.path w' = (segmentedLog plat lf.path w).cut := by
  have hkey := key_path plat h.ordinary
  have hnone : w'.disk.find (key plat lf.path) = none := by
    rw [hkey]
    exact FileStore.find_eq_none_of_not_present h.live
  have hclosed : closedSegments plat lf.path w' =
      closedSegments plat lf.path w ++ [liveContent plat lf.path w] :=
    closedSegments_roll h.rolls
  unfold segmentedLog
  rw [hclosed, liveContent_of_find_eq_none hnone]
  rfl

/-- A file that is created is empty. -/
theorem content_create (hfind : w.disk.find (key plat path) = none) (t : Int) :
    segmentedLog plat path { w with disk := w.disk.create (key plat path) ⟨[], t⟩ } =
      segmentedLog plat path w := by
  have hlive : liveContent plat path { w with disk := w.disk.create (key plat path) ⟨[], t⟩ } =
      liveContent plat path w := by
    rw [liveContent_of_find_eq_none hfind]
    unfold liveContent
    rw [FileStore.read_create_self]
    rfl
  unfold segmentedLog
  rw [hlive]
  rfl

theorem content_append {node : Nat} (hfind : w.disk.find (key plat path) = some node)
    (bytes : Str) :
    segmentedLog plat path { w with disk := append env w.disk node bytes } =
      (segmentedLog plat path w).append bytes := by
  have hlive : liveContent plat path { w with disk := append env w.disk node bytes } =
      liveContent plat path w ++ bytes := by
    show ((w.disk.setNode node _).read (key plat path)).getD [] =
      (w.disk.read (key plat path)).getD [] ++ bytes
    rw [FileStore.read_setNode_of_find hfind, FileStore.read_of_find hfind]
    rfl
  unfold segmentedLog
  rw [hlive]
  rfl

/-! ### The steps of a log file -/

variable {gmtoff : Int} {cfg : LogFileConfig} {log : TimedLog UInt8 Int} {now t : Int}

theorem Follows.close (h : Follows plat path cfg log now (lf, w)) (env : Env) (hnow : now ≤ t) :
    (lf.close env w).2 = w ∧ Follows plat path cfg log t ({ lf with ofs := none }, w) := by
  refine ⟨?_, ?_⟩
  · unfold LogFile.close
    split
    · rfl
    · rename_i st hst
      rw [(h.stream st hst).1, List.take_nil]
      rfl
  · obtain ⟨t₀, hzero, hle, hend⟩ := h.interval
    refine ⟨h.path_eq, h.period, h.size, h.format, ⟨t₀, hzero, by omega, hend⟩, h.jobs, by simp,
      fun l hl => (h.past l hl).trans hnow, ?_⟩
    rcases h.content with ⟨hsame, node, hfind, hlast, hlt, -⟩ | hcut
    · exact Or.inl ⟨hsame, node, hfind, hlast, hlt, by simp⟩
    · exact Or.inr hcut

/-- A roll in a later interval than that of the last record. -/
theorem Follows.roll (h : Follows plat path cfg log now (lf, w)) (hofs : lf.ofs = none)
    (hdone : RollDone plat env lf w lf' w') (htime : 0 ≤ t) (hnow : now ≤ t)
    (hroll : env.rollTime = t)
    (hlast : ∀ l, log.last = some l →
      l < nextMark plat.calendar cfg.period t - incrementSeconds cfg.period) :
    Follows plat path cfg log t (lf', w') ∧ lf'.ofs = none ∧
      lf'.rollInterval.endTime = nextMark plat.calendar cfg.period t ∧
      w'.disk.find (key plat path) = none := by
  have hperiod := h.period
  have hpath := h.path_eq
  simp only at hperiod hpath
  have hinterval : lf'.rollInterval = ⟨cfg.period, nextMark plat.calendar cfg.period t⟩ := by
    rw [hdone.logFile]
    unfold RollInterval.setToCurrent
    rw [hperiod, hroll]
  have hnone : w'.disk.find (key plat path) = none := by
    rw [← hpath, key_path plat hdone.ordinary]
    exact FileStore.find_eq_none_of_not_present hdone.live
  have hofs' : lf'.ofs = none := by
    rw [hdone.logFile]
    exact hofs
  refine ⟨⟨?_, ?_, ?_, ?_, ?_, ?_, ?_, fun l hl => (h.past l hl).trans hnow, ?_⟩, hofs', ?_, hnone⟩
  · exact hdone.path_eq.trans hpath
  · simp only
    rw [hinterval]
  · simp only
    rw [hdone.logFile]
    exact h.size
  · simp only
    rw [hdone.logFile]
    exact h.format
  · exact ⟨t, htime, le_rfl, by simp only; rw [hinterval]⟩
  · intro job hjob
    simp only at hjob
    rw [hdone.jobs] at hjob
    rcases List.mem_append.mp hjob with hold | hnew
    · exact h.jobs job hold
    · obtain ⟨file, hfile, rfl⟩ := List.mem_map.mp hnew
      rw [← hpath]
      split_ifs at hfile
      · cases hfile
      · exact hfile
  · intro st hst
    simp only at hst
    rw [hofs'] at hst
    cases hst
  · -- The live segment is closed, whether it had records or not.
    refine Or.inr ⟨?_, ?_⟩
    · have hcontent := hdone.content
      rw [hpath] at hcontent
      show SegmentedLog.Same (segmentedLog plat path w') log.log.cut
      rw [hcontent]
      rcases h.content with ⟨hsame, -⟩ | ⟨hsame, -⟩
      · exact hsame.cut
      · exact hsame.cut_of_cut
    · intro l hl
      unfold RollInterval.startTime
      simp only
      rw [hinterval]
      exact hlast l hl
  · rw [hinterval]

/-- Opening a file that is not older than the interval. -/
theorem Follows.openFile (h : Follows plat path cfg log now (lf, w))
    (hcurrent : ∀ node, w.disk.find (key plat path) = some node →
      lf.rollInterval.startTime ≤ (w.disk.nodes node).mtime)
    (hopen : lf.openFile plat env w = (some true, lf', w')) :
    Follows plat path cfg log now (lf', w') ∧ lf'.rollInterval = lf.rollInterval := by
  have hpath := h.path_eq
  simp only at hpath
  rcases openFile_cases hopen with ⟨node, hfind, rfl, rfl⟩ | ⟨hfind, rfl, rfl⟩
  · rw [hpath] at hfind
    refine ⟨⟨h.path_eq, h.period, h.size, h.format, h.interval, h.jobs, ?_, h.past, ?_⟩, rfl⟩
    · rintro st hst
      obtain rfl := Option.some.inj hst
      exact ⟨rfl, hfind⟩
    · rcases h.content with ⟨hsame, node', hfind', hlast, hlt, -⟩ | hcut
      · exact Or.inl ⟨hsame, node', hfind', hlast, hlt, fun _ => hcurrent node' hfind'⟩
      · exact Or.inr hcut
  · rw [hpath] at hfind ⊢
    refine ⟨⟨rfl, h.period, h.size, h.format, h.interval, h.jobs, ?_, h.past, ?_⟩, rfl⟩
    · rintro st hst
      obtain rfl := Option.some.inj hst
      exact ⟨rfl, FileStore.find_create_self⟩
    · refine Or.inr ?_
      show SegmentedLog.Same (segmentedLog plat path { w with
        disk := w.disk.create (key plat path) ⟨[], env.writeTime⟩ }) _ ∧ _
      rw [content_create hfind]
      rcases h.content with ⟨-, node, hfind', -⟩ | hcut
      · simp only at hfind'
        rw [hfind] at hfind'
        cases hfind'
      · exact hcut

/-- The record of a message that is processed in the interval. -/
theorem Follows.writeRecord (hcalendar : plat.calendar = .fixedOffset gmtoff)
    (hperiod : cfg.period ≠ .days_7) (h : Follows plat path cfg log now (lf, w)) {msg : Message}
    (hnow : now ≤ t) (hend : t < lf.rollInterval.endTime) (htime : env.writeTime = t)
    (hwrite : lf.writeRecord plat env w msg = (true, lf', w')) :
    Follows plat path cfg (addRecord plat cfg log (t, msg)) t (lf', w') := by
  obtain ⟨st, hst, rfl, rfl⟩ := writeRecord_cases hwrite
  obtain ⟨hpending, hfind⟩ := h.stream st hst
  obtain ⟨t₀, hzero, hle, hmark⟩ := h.interval
  have hformat := h.format
  have hrp := h.period
  simp only at hfind hmark hformat hrp
  have hmono : nextMark plat.calendar cfg.period t₀ ≤ nextMark plat.calendar cfg.period t := by
    rw [hcalendar]
    exact nextMark_mono hperiod (by omega)
  have hspans : ∀ t', nextMark plat.calendar cfg.period t' - incrementSeconds cfg.period ≤ t' ∧
      t' < nextMark plat.calendar cfg.period t' := by
    intro t'
    rw [hcalendar]
    exact nextMark_spans gmtoff cfg.period t'
  have hsame : ∀ l, lf'.rollInterval.startTime ≤ l → l < lf'.rollInterval.endTime →
      nextMark plat.calendar cfg.period l = nextMark plat.calendar cfg.period t₀ := by
    intro l hlo hhi
    unfold RollInterval.startTime at hlo
    rw [hmark, hrp] at hlo
    rw [hmark] at hhi
    rw [hcalendar] at hlo hhi ⊢
    exact nextMark_eq_of_spans hperiod hlo hhi
  have hstart : lf'.rollInterval.startTime ≤ t := by
    unfold RollInterval.startTime
    rw [hmark, hrp]
    have := (hspans t₀).1
    omega
  have hcontent : segmentedLog plat path
      { w with disk := append env w.disk st.node (record plat lf'.format msg) } =
      (segmentedLog plat path w).append (record plat cfg.format msg) := by
    rw [hformat]
    exact content_append hfind _
  have hmtime : ((append env w.disk st.node (record plat lf'.format msg)).nodes st.node).mtime =
      t := by
    rw [← htime]
    simp [append, FileStore.setNode]
  refine ⟨h.path_eq, h.period, h.size, h.format, ⟨t₀, hzero, by omega, hmark⟩, h.jobs, ?_, ?_, ?_⟩
  · intro st' hst'
    exact h.stream st' hst'
  · rintro l hl
    obtain rfl := Option.some.inj hl
    exact le_rfl
  refine Or.inl ⟨?_, st.node, hfind, ?_, ?_, ?_⟩
  · show SegmentedLog.Same (segmentedLog plat path
      { w with disk := append env w.disk st.node (record plat lf'.format msg) }) _
    rw [hcontent]
    apply SegmentedLog.Same.append
    rcases h.content with ⟨hlog, node, hfind', hlast, hlt, hopen⟩ | ⟨hlog, hlast⟩
    · -- The last record is of this interval.
      obtain rfl : st.node = node := by
        simp only at hfind'
        rw [hfind] at hfind'
        exact Option.some.inj hfind'
      have hperiods : log.last.map (nextMark plat.calendar cfg.period) =
          some (nextMark plat.calendar cfg.period t) := by
        rw [hlast, Option.map_some, hsame _ (hopen (by rw [hst]; rfl)) hlt, hsame t hstart hend]
      rw [if_pos hperiods]
      exact hlog
    · -- The last record is of an earlier one.
      have hperiods : log.last.map (nextMark plat.calendar cfg.period) ≠
          some (nextMark plat.calendar cfg.period t) := by
        intro heq
        obtain ⟨l, hl, hsame'⟩ := Option.map_eq_some_iff.mp heq
        have hbefore := hlast l hl
        unfold RollInterval.startTime at hbefore
        simp only at hbefore
        rw [hmark, hrp] at hbefore
        have := (hspans l).1
        omega
      rw [if_neg hperiods]
      exact hlog
  · simp only
    rw [hmtime]
    rfl
  · simp only
    rw [hmtime]
    exact hend
  · intro _
    simp only
    rw [hmtime]
    exact hstart

/-- The criteria are met if the time is past the interval. -/
theorem Follows.rollCriteriaMet (hcalendar : plat.calendar = .fixedOffset gmtoff)
    (hperiod : cfg.period ≠ .days_7) (h : Follows plat path cfg log now (lf, w)) {msg : Message}
    (hnow : now ≤ env.time)
    (hspans : (RollInterval.of plat.calendar cfg.period env.time).Spans
      (msg.header.timestamp.usecs.toNat / 1000000 : Nat)) :
    lf.rollCriteriaMet env msg = true ↔ lf.rollInterval.endTime ≤ env.time := by
  obtain ⟨t₀, hzero, hle, hmark⟩ := h.interval
  have hsize := h.size
  simp only at hmark hsize
  obtain ⟨hlo, hhi⟩ := hspans
  simp only [RollInterval.startTime, RollInterval.of] at hlo hhi
  have hpos : t₀ < nextMark plat.calendar cfg.period t₀ := by
    rw [hcalendar]
    exact (nextMark_spans gmtoff cfg.period t₀).2
  have hmarks : nextMark plat.calendar cfg.period t₀ = nextMark plat.calendar cfg.period env.time ∨
      nextMark plat.calendar cfg.period t₀ ≤
        nextMark plat.calendar cfg.period env.time - incrementSeconds cfg.period := by
    rw [hcalendar]
    exact nextMark_partition gmtoff hperiod (by omega)
  have hnext : env.time < nextMark plat.calendar cfg.period env.time := by
    rw [hcalendar]
    exact (nextMark_spans gmtoff cfg.period env.time).2
  have hincrement := incrementSeconds_le hperiod
  have hincrement' := incrementSeconds_pos cfg.period
  have husecs := msg.header.timestamp.usecs.toNat_lt
  -- The end of the interval fits in 64 bits, because the timestamp does.
  have hmod : lf.rollInterval.endTime % 2 ^ 64 = lf.rollInterval.endTime := by
    rw [hmark]
    apply Int.emod_eq_of_lt
    · omega
    · omega
  unfold LogFile.rollCriteriaMet
  rw [if_neg (by omega), hmod, hmark]
  split_ifs with hlate
  · simp
  · constructor
    · intro hfalse
      cases hfalse
    · intro hpast
      exact absurd hpast (by omega)

/-- A step of a compressor leaves the live file as it is. -/
theorem Follows.compressorStep (hspares : SparesLive plat path)
    (h : Follows plat path cfg log now (lf, w)) (i : Nat) :
    Follows plat path cfg log now (lf, w.compressorStep plat i) := by
  -- What a step may do.
  have hlive : ∀ w' : World, w'.rolls = w.rolls →
      (∀ job ∈ w'.jobs, job.file ∈ compressorArguments plat (rolledString path)) →
      w'.disk.find (key plat path) = w.disk.find (key plat path) →
      (∀ node, w.disk.find (key plat path) = some node →
        w'.disk.nodes node = w.disk.nodes node) →
      Follows plat path cfg log now (lf, w') := by
    intro w' hrolls hjobs hfind hnodes
    have hread : w'.disk.read (key plat path) = w.disk.read (key plat path) := by
      unfold FileStore.read
      rw [hfind]
      exact Option.map_congr fun node hnode => by rw [hnodes node hnode]
    have hcontent : segmentedLog plat path w' = segmentedLog plat path w := content_congr hrolls hread
    refine ⟨h.path_eq, h.period, h.size, h.format, h.interval, hjobs, ?_, h.past, ?_⟩
    · intro st hst
      simp only
      rw [hfind]
      exact h.stream st hst
    · simp only
      rw [hcontent, hfind]
      rcases h.content with ⟨hsame, node, hnode, hlast, hlt, hopen⟩ | hcut
      · refine Or.inl ⟨hsame, node, hnode, ?_⟩
        rw [hnodes node hnode]
        exact ⟨hlast, hlt, hopen⟩
      · exact Or.inr hcut
  have hold := h.jobs
  simp only at hold
  have hset : ∀ (job job' : Job), w.jobs[i]? = some job → job'.file = job.file →
      ∀ j ∈ w.jobs.set i job', j.file ∈ compressorArguments plat (rolledString path) := by
    intro job job' hjob hfile j hj
    rcases List.mem_or_eq_of_mem_set hj with hj | rfl
    · exact hold j hj
    · rw [hfile]
      exact hold job (List.mem_of_getElem? hjob)
  have herase : ∀ j ∈ w.jobs.eraseIdx i,
      j.file ∈ compressorArguments plat (rolledString path) :=
    fun j hj => hold j (List.mem_of_mem_eraseIdx hj)
  unfold World.compressorStep
  cases hjob : w.jobs[i]? with
  | none => exact h
  | some job =>
    obtain ⟨hsrc, hdst⟩ := hspares job.file (hold job (List.mem_of_getElem? hjob))
    cases hphase : job.phase with
    | started =>
      simp only [hphase]
      split
      · exact hlive _ rfl (hset job _ hjob rfl) rfl fun _ _ => rfl
      · exact hlive _ rfl herase rfl fun _ _ => rfl
    | opened node =>
      simp only [hphase]
      split_ifs
      · exact hlive _ rfl herase rfl fun _ _ => rfl
      · refine hlive _ rfl (hset job _ hjob rfl) ?_ ?_
        · exact FileStore.find_create_of_ne (hdst job.compress).symm
        · intro n hn
          have hne : n ≠ w.disk.next := (w.disk.find_lt hn).ne
          simp [FileStore.create, hne]
    | created =>
      simp only [hphase]
      refine hlive _ rfl herase ?_ fun _ _ => rfl
      exact FileStore.find_remove_of_ne hsrc.symm

/-- `Open` rolls a file that is older than the interval, and opens it. -/
theorem Follows.openNoLock (hcalendar : plat.calendar = .fixedOffset gmtoff)
    (hperiod : cfg.period ≠ .days_7) (h : Follows plat path cfg log now (lf, w))
    (hnow : now ≤ t) (hroll : env.rollTime = t)
    (hopen : lf.openNoLock plat env w = (some true, lf', w')) :
    Follows plat path cfg log t (lf', w') := by
  have hpath := h.path_eq
  have hperiod' := h.period
  simp only at hpath hperiod'
  rcases openNoLock_cases hopen with ⟨-, -, rfl, rfl⟩ | ⟨hofs, hneed, hfile⟩ |
    ⟨hofs, hneed, lf₁, w₁, hdone, hfile⟩
  · obtain ⟨t₀, hzero, hle, hend⟩ := h.interval
    exact ⟨h.path_eq, h.period, h.size, h.format, ⟨t₀, hzero, by omega, hend⟩, h.jobs, h.stream,
      fun l hl => (h.past l hl).trans hnow, h.content⟩
  · have hclosed : { lf with ofs := none } = lf := by rw [← hofs]
    have h' := (h.close env hnow).2
    rw [hclosed] at h'
    refine (h'.openFile ?_ hfile).1
    intro node hnode
    rw [needRollBeforeOpen_of_find (by rw [hpath]; exact hnode), decide_eq_false_iff_not] at hneed
    omega
  · -- The last record is of an earlier interval.
    obtain ⟨t₀, hzero, hle, hend⟩ := h.interval
    simp only at hend
    have hmono : nextMark plat.calendar cfg.period t₀ ≤ nextMark plat.calendar cfg.period t := by
      rw [hcalendar]
      exact nextMark_mono hperiod (by omega)
    have hlast : ∀ l, log.last = some l →
        l < nextMark plat.calendar cfg.period t - incrementSeconds cfg.period := by
      intro l hl
      have hbefore : l < lf.rollInterval.startTime := by
        rcases h.content with ⟨-, node, hnode, hlast, -⟩ | ⟨-, hlast⟩
        · simp only at hnode hlast
          rw [needRollBeforeOpen_of_find (by rw [hpath]; exact hnode), decide_eq_true_eq] at hneed
          rw [hl] at hlast
          rw [Option.some.inj hlast]
          exact hneed
        · exact hlast l hl
      unfold RollInterval.startTime at hbefore
      rw [hend, hperiod'] at hbefore
      omega
    obtain ⟨h₁, hofs₁, -, hnone⟩ := h.roll hofs hdone (by omega) hnow hroll hlast
    refine (h₁.openFile ?_ hfile).1
    intro node hnode
    rw [hnone] at hnode
    cases hnode

/-- `Process` writes the message, after a roll if its time is past the interval. -/
theorem Follows.process (hcalendar : plat.calendar = .fixedOffset gmtoff)
    (hperiod : cfg.period ≠ .days_7) (h : Follows plat path cfg log now (lf, w)) {msg : Message}
    (hnow : now ≤ env.time) (hroll : env.rollTime = env.time) (hwrite : env.writeTime = env.time)
    (hspans : (RollInterval.of plat.calendar cfg.period env.time).Spans
      (msg.header.timestamp.usecs.toNat / 1000000 : Nat))
    (hprocess : lf.process plat env w msg = (some true, lf', w')) :
    Follows plat path cfg (addRecord plat cfg log (env.time, msg)) env.time (lf', w') := by
  have hcriteria := h.rollCriteriaMet hcalendar hperiod hnow hspans
  rcases process_cases hprocess with ⟨-, hfalse, -⟩ | ⟨-, hnot, hrecord⟩ |
    ⟨hofs, hmet, lf₁, w₁, opened, lf₂, w₂, hdone, hfile, hrecord⟩
  · cases hfalse
  · refine h.writeRecord hcalendar hperiod hnow ?_ hwrite hrecord
    rw [← not_le, ← hcriteria, hnot]
    simp
  · have hpast := hcriteria.mp hmet
    obtain ⟨hw, hclosed⟩ := h.close env (t := env.time) hnow
    rw [(close_spec env lf w).1, hw] at hdone
    obtain ⟨t₀, hzero, hle, hend⟩ := h.interval
    have hperiod' := h.period
    simp only at hend hperiod'
    have hpos := incrementSeconds_pos cfg.period
    -- The interval has ended before that of the message.
    have hmarks : nextMark plat.calendar cfg.period t₀ ≤
        nextMark plat.calendar cfg.period env.time - incrementSeconds cfg.period := by
      rw [hend] at hpast
      rw [hcalendar] at hpast ⊢
      have hnext := (nextMark_spans gmtoff cfg.period env.time).2
      rcases nextMark_partition gmtoff hperiod (by omega : t₀ ≤ env.time) with heq | hle
      · omega
      · exact hle
    have hlast : ∀ l, log.last = some l →
        l < nextMark plat.calendar cfg.period env.time - incrementSeconds cfg.period := by
      intro l hl
      rcases h.content with ⟨-, node, -, hlast, hlt, -⟩ | ⟨-, hlast⟩
      · rw [hl] at hlast
        rw [← Option.some.inj hlast, hend] at hlt
        omega
      · have hbefore := hlast l hl
        unfold RollInterval.startTime at hbefore
        simp only at hbefore
        rw [hend, hperiod'] at hbefore
        omega
    obtain ⟨h₁, hofs₁, hend₁, hnone⟩ := hclosed.roll rfl hdone (by omega) le_rfl hroll hlast
    cases opened with
    | false =>
      obtain ⟨rfl, rfl⟩ := openFile_false hfile
      obtain ⟨st, hst, -⟩ := writeRecord_cases hrecord
      rw [hofs₁] at hst
      cases hst
    | true =>
      obtain ⟨h₂, hinterval⟩ := h₁.openFile (by
        intro node hnode
        rw [hnone] at hnode
        cases hnode) hfile
      refine h₂.writeRecord hcalendar hperiod le_rfl ?_ hwrite hrecord
      rw [hinterval, hend₁, hcalendar]
      exact (nextMark_spans gmtoff cfg.period env.time).2

theorem exists_lifetimes_call (s : LogFile × World) (e : LogFileEvent) {s' : LogFile × World}
    {written : List Str} (h : machine plat s e = some (s', written)) :
    ∃ out, lifetimes plat s (.call e) = some (s', out) := by
  unfold lifetimes
  simp only
  rw [h]
  exact ⟨_, rfl⟩

/-- The log file is destroyed, and another one made with the same settings: its interval is that of
    the time when it is made, which is not before the last record's. -/
theorem Follows.restart (hcalendar : plat.calendar = .fixedOffset gmtoff)
    (hperiod : cfg.period ≠ .days_7) {lf : LogFile} {w : World}
    (h : Follows plat path cfg log now (lf, w)) {env : Env} {cfg' : LogFileConfig} {t : Int}
    (hregular : Regular plat cfg (.restart env cfg' t)) (hnow : now ≤ t) :
    Follows plat path cfg log t
      (of plat (lf.close env w).1.path cfg' t, (lf.close env w).2) := by
  obtain ⟨hrp, hsize, hformat⟩ := hregular
  obtain ⟨hw, h'⟩ := h.close env hnow
  obtain ⟨t₀, hzero, hle, hend⟩ := h.interval
  have hpath := h.path_eq
  have hperiod' := h.period
  simp only at hend hpath hperiod'
  rw [(close_spec env lf w).1, hw]
  have hinterval : (of plat lf.path cfg' t).rollInterval.endTime =
      nextMark plat.calendar cfg.period t := by
    rw [← hrp]
    rfl
  have hmark : t < nextMark plat.calendar cfg.period t := by
    rw [hcalendar]
    exact (nextMark_spans gmtoff cfg.period t).2
  have hmono : nextMark plat.calendar cfg.period t₀ ≤ nextMark plat.calendar cfg.period t := by
    rw [hcalendar]
    exact nextMark_mono hperiod (by omega)
  refine ⟨hpath, hrp, hsize, hformat, ⟨t, by omega, le_rfl, hinterval⟩, h.jobs, ?_, h'.past, ?_⟩
  · intro st hst
    cases hst
  · rcases h.content with ⟨hsame, node, hnode, hlast, -⟩ | ⟨hcut, hlast⟩
    · -- The live file goes on; its last record is before the new end.
      refine Or.inl ⟨hsame, node, hnode, hlast, ?_, ?_⟩
      · have := h.past _ hlast
        simp only at this ⊢
        omega
      · intro hofs
        cases hofs
    · -- It has been cut already; the start only moves on.
      refine Or.inr ⟨hcut, ?_⟩
      intro l hl
      have hbefore := hlast l hl
      unfold RollInterval.startTime at hbefore ⊢
      simp only at hbefore ⊢
      rw [hend, hperiod'] at hbefore
      have hrp' : (of plat lf.path cfg' t).rollInterval.rp = cfg.period := hrp
      rw [hinterval, hrp']
      omega

/-- **One step.** -/
theorem Follows.step (hcalendar : plat.calendar = .fixedOffset gmtoff)
    (hperiod : cfg.period ≠ .days_7) (hspares : SparesLive plat path) {s : LogFile × World}
    (h : Follows plat path cfg log now s) {e : LifetimeEvent} (hregular : Regular plat cfg e)
    (hsucceeds : CallSucceeds plat s e) (htime : ∀ t, e.time? = some t → now ≤ t) :
    ∃ s' out, lifetimes plat s e = some (s', out) ∧
      Follows plat path cfg (e.processed?.elim log (addRecord plat cfg log)) (e.time?.getD now)
        s' := by
  obtain ⟨lf, w⟩ := s
  cases e with
  | restart env cfg' t =>
    exact ⟨_, _, rfl, h.restart hcalendar hperiod hregular (htime t rfl)⟩
  | call e =>
    cases e with
    | compressor i => exact ⟨_, _, rfl, h.compressorStep hspares i⟩
    | close env =>
      obtain ⟨hw, h'⟩ := h.close env (htime env.time rfl)
      refine ⟨_, _, rfl, ?_⟩
      show Follows plat path cfg log env.time (lf.close env w)
      have hclose : lf.close env w = ({ lf with ofs := none }, w) :=
        Prod.ext (close_spec env lf w).1 hw
      rw [hclose]
      exact h'
    | «open» env =>
      obtain ⟨hroll, -⟩ := hregular
      unfold CallSucceeds at hsucceeds
      simp only at hsucceeds
      cases hopen : lf.openNoLock plat env w with
      | mk rc s' =>
        rw [hopen] at hsucceeds
        simp only at hsucceeds
        subst hsucceeds
        have h' := h.openNoLock hcalendar hperiod (htime env.time rfl) hroll hopen
        have hmachine : machine plat (lf, w) (.open env) = some (s', []) := by
          unfold machine
          simp only [hopen]
        obtain ⟨out, hstep⟩ := exists_lifetimes_call (lf, w) (.open env) hmachine
        exact ⟨s', out, hstep, h'⟩
    | process env msg =>
      obtain ⟨⟨hroll, hwrite⟩, hspans⟩ := hregular
      unfold CallSucceeds at hsucceeds
      simp only at hsucceeds
      cases hprocess : lf.process plat env w msg with
      | mk rc s' =>
        rw [hprocess] at hsucceeds
        simp only at hsucceeds
        subst hsucceeds
        have h' := h.process hcalendar hperiod (htime env.time rfl) hroll hwrite hspans hprocess
        obtain ⟨out, hstep⟩ := exists_lifetimes_call (lf, w) (.process env msg)
          (show machine plat (lf, w) (.process env msg) = some (s', _) by
            unfold machine
            simp only [hprocess]
            rfl)
        exact ⟨s', out, hstep, h'⟩

/-- **A run**: what has been written is cut where the interval changes. -/
theorem Follows.run (hcalendar : plat.calendar = .fixedOffset gmtoff)
    (hperiod : cfg.period ≠ .days_7) (hspares : SparesLive plat path) (events : List LifetimeEvent)
    {s : LogFile × World} (h : Follows plat path cfg log now s)
    (hregular : ∀ e ∈ events, Regular plat cfg e)
    (htimes : (now :: events.filterMap LifetimeEvent.time?).Pairwise (· ≤ ·))
    (hmeets : (lifetimes plat).Meets (CallSucceeds plat) s events) :
    ∃ s' kept now', (lifetimes plat).run s events = some (s', kept) ∧
      Follows plat path cfg ((events.filterMap LifetimeEvent.processed?).foldl
        (addRecord plat cfg) log) now' s' := by
  induction events generalizing s log now with
  | nil => exact ⟨s, [], now, rfl, h⟩
  | cons e events ih =>
    obtain ⟨hsucceeds, hrest⟩ := hmeets
    have htime : ∀ t, e.time? = some t → now ≤ t := by
      intro t ht
      rw [List.filterMap_cons_some ht] at htimes
      exact (List.pairwise_cons.mp htimes).1 t (by simp)
    obtain ⟨s₁, out, hstep, h₁⟩ :=
      h.step hcalendar hperiod hspares (hregular e (by simp)) hsucceeds htime
    have htimes₁ : (e.time?.getD now :: events.filterMap LifetimeEvent.time?).Pairwise
        (· ≤ ·) := by
      cases ht : e.time? with
      | none =>
        rw [List.filterMap_cons_none ht] at htimes
        exact htimes
      | some t =>
        rw [List.filterMap_cons_some ht] at htimes
        exact (List.pairwise_cons.mp htimes).2
    rw [hstep] at hrest
    obtain ⟨s', kept, now', hrun, h'⟩ :=
      ih h₁ (fun e' he' => hregular e' (by simp [he'])) htimes₁ hrest
    refine ⟨s', out ++ kept, now', ?_, ?_⟩
    · rw [(lifetimes plat).run_cons_of_some hstep, hrun]
      rfl
    · cases hprocessed : e.processed? with
      | none =>
        rw [hprocessed] at h'
        rw [List.filterMap_cons_none hprocessed]
        exact h'
      | some p =>
        rw [hprocessed] at h'
        rw [List.filterMap_cons_some hprocessed]
        exact h'

theorem Follows.segments_eq {s : LogFile × World} (h : Follows plat path cfg log now s) :
    (segmentedLog plat path s.2).segments = log.log.segments := by
  rcases h.content with ⟨hsame, -⟩ | ⟨hcut, -⟩
  · exact hsame.segments_eq
  · rw [hcut.segments_eq, SegmentedLog.segments_cut]

/-- The log that a file holds, written when it was last modified. -/
def initialLog (plat : Platform) (path : Str) (disk : Disk) : TimedLog UInt8 Int :=
  ⟨⟨[], (disk.read (key plat path)).getD []⟩,
    (disk.find (key plat path)).map fun node => (disk.nodes node).mtime⟩

theorem follows_of (hcalendar : plat.calendar = .fixedOffset gmtoff) {disk : Disk}
    (hsize : cfg.size ≤ 0) (hstart : 0 ≤ t)
    (hmtime : ∀ node, disk.find (key plat path) = some node → (disk.nodes node).mtime ≤ t) :
    Follows plat path cfg (initialLog plat path disk) t (of plat path cfg t, { disk }) := by
  have hmark : t < nextMark plat.calendar cfg.period t := by
    rw [hcalendar]
    exact (nextMark_spans gmtoff cfg.period t).2
  refine ⟨rfl, rfl, hsize, rfl, ⟨t, hstart, le_rfl, rfl⟩, by simp, ?_, ?_, ?_⟩
  · intro st hst
    cases hst
  · intro l hl
    obtain ⟨node, hnode, rfl⟩ := Option.map_eq_some_iff.mp hl
    exact hmtime node hnode
  · cases hfind : disk.find (key plat path) with
    | none =>
      refine Or.inr ⟨⟨?_, ?_⟩, ?_⟩
      · simp [segmentedLog, closedSegments, initialLog, SegmentedLog.cut, FileStore.read, hfind]
      · simp [segmentedLog, liveContent, SegmentedLog.cut, FileStore.read, hfind]
      · intro l hl
        unfold initialLog at hl
        rw [hfind] at hl
        cases hl
    | some node =>
      refine Or.inl ⟨⟨rfl, rfl⟩, node, rfl, ?_, ?_, ?_⟩
      · unfold initialLog
        rw [hfind]
        rfl
      · have := hmtime node hfind
        show (disk.nodes node).mtime < nextMark plat.calendar cfg.period t
        omega
      · intro hofs
        cases hofs

/-- A path that is a plain word to the shell is spared. -/
theorem sparesLive_of_word (hordinary : Ordinary (filename path))
    (hshell : compressorArguments plat (rolledString path) = [rolledString path]) :
    SparesLive plat path := by
  intro file hfile
  rw [hshell] at hfile
  obtain rfl := List.mem_singleton.mp hfile
  rw [key_path plat hordinary]
  refine ⟨?_, ?_⟩
  · rw [key_rolledString plat hordinary]
    exact rolledKey_ne_liveKey plat path
  · intro compress
    rw [rolledString_append_extension, key_archiveString]
    exact archiveKey_ne_liveKey plat path compress 0

end

/-- **Restarts do not change the segments.**  Take a log file that rolls by time alone, with a period
    of a day at most, and two sequences of calls of it and of log files made anew for its path, with
    the same messages at the same times, each message in the interval of its timestamp.  If all
    calls succeed, the segments that are not empty are the same at the end, whenever the log files
    were made and opened. -/
theorem segments_of_restarts (plat : Platform) (gmtoff : Int)
    (hcalendar : plat.calendar = .fixedOffset gmtoff) (path : Str) (cfg : LogFileConfig) (t₀ : Int)
    (disk : Disk) (events events' : List LifetimeEvent) (hspares : SparesLive plat path)
    (hperiod : incrementSeconds cfg.period ≤ 86400) (hsize : cfg.size ≤ 0) (hstart : 0 ≤ t₀)
    (hmtime : ∀ node, disk.find (key plat path) = some node → (disk.nodes node).mtime ≤ t₀)
    (hsame : events.filterMap LifetimeEvent.processed? =
      events'.filterMap LifetimeEvent.processed?)
    (htimely : Timely plat cfg t₀ events) (htimely' : Timely plat cfg t₀ events')
    (hmeets : (lifetimes plat).Meets (CallSucceeds plat) (of plat path cfg t₀, { disk }) events)
    (hmeets' : (lifetimes plat).Meets (CallSucceeds plat) (of plat path cfg t₀, { disk }) events') :
    ∃ s kept s' kept',
      (lifetimes plat).run (of plat path cfg t₀, { disk }) events = some (s, kept) ∧
      (lifetimes plat).run (of plat path cfg t₀, { disk }) events' = some (s', kept') ∧
      (segmentedLog plat path s.2).segments = (segmentedLog plat path s'.2).segments := by
  have hrp : cfg.period ≠ .days_7 := by
    intro hrp
    rw [hrp] at hperiod
    exact absurd hperiod (by decide)
  have h := follows_of hcalendar hsize hstart hmtime
  obtain ⟨s, kept, now, hrun, hs⟩ :=
    h.run hcalendar hrp hspares events htimely.regular htimely.sorted hmeets
  obtain ⟨s', kept', now', hrun', hs'⟩ :=
    h.run hcalendar hrp hspares events' htimely'.regular htimely'.sorted hmeets'
  refine ⟨s, kept, s', kept', hrun, hrun', ?_⟩
  rw [hs.segments_eq, hs'.segments_eq, hsame]

/-- The only clock reading of a call. -/
def readingAt (t : Int) : Env := { time := t, rollTime := t, writeTime := t }

/-- Two messages on either side of midnight at an hour ahead of UTC. -/
def acrossMidnight : List LifetimeEvent :=
  [.call (.open (readingAt 0)), .call (.process (readingAt 82799) (messageAt 82799000000)),
   .call (.process (readingAt 82800) (messageAt 82800000000))]

/-- The log file is destroyed after the first message, and made anew after midnight. -/
def restartsAtMidnight : List LifetimeEvent :=
  [.call (.open (readingAt 0)), .call (.process (readingAt 82799) (messageAt 82799000000)),
   .restart (readingAt 82800) {} 82800, .call (.open (readingAt 82800)),
   .call (.process (readingAt 82800) (messageAt 82800000000))]

theorem segments_of_restarts_midnight :
    ∃ s kept s' kept',
      (lifetimes hourAhead).run (of hourAhead (str "/log/app") {} 0, { disk := emptyDisk })
        acrossMidnight = some (s, kept) ∧
      (lifetimes hourAhead).run (of hourAhead (str "/log/app") {} 0, { disk := emptyDisk })
        restartsAtMidnight = some (s', kept') ∧
      (segmentedLog hourAhead (str "/log/app") s.2).segments =
        (segmentedLog hourAhead (str "/log/app") s'.2).segments := by
  have hspans : ∀ t ∈ [82799, 82800],
      (RollInterval.of hourAhead.calendar .days_1 t).Spans t := by
    intro t _
    exact nextMark_spans 3600 .days_1 t
  refine segments_of_restarts hourAhead 3600 rfl (str "/log/app") {} 0 emptyDisk acrossMidnight
    restartsAtMidnight (sparesLive_of_word (by decide) (by decide)) (by decide) (by decide)
    (by decide) (by simp [emptyDisk, FileStore.find, FileStore.empty]) rfl ⟨?_, ?_⟩ ⟨?_, ?_⟩
    (by decide) (by decide)
  · intro e he
    fin_cases he
    · exact ⟨rfl, rfl⟩
    · exact ⟨⟨rfl, rfl⟩, hspans 82799 (by simp)⟩
    · exact ⟨⟨rfl, rfl⟩, hspans 82800 (by simp)⟩
  · decide
  · intro e he
    fin_cases he
    · exact ⟨rfl, rfl⟩
    · exact ⟨⟨rfl, rfl⟩, hspans 82799 (by simp)⟩
    · exact ⟨rfl, by decide, rfl⟩
    · exact ⟨rfl, rfl⟩
    · exact ⟨⟨rfl, rfl⟩, hspans 82800 (by simp)⟩
  · decide

end LogFile

end Mclog
