import Mclog.Equiv.LogFiles

/-!
# The path cache against the path function

The cache of `LogFiles` holds, for each key, the path computed for the first message since
`Configure` that was selected with this key (`run_cacheOf`).  Messages with one key have the same
names and the same pattern but not always the same facility, so a cached path is right exactly when
the facility name is that of the first message or is not part of the path (`cachedPath_eq_iff`).

What `regex_replace` makes of the replacement string is taken from its format syntax: the number of
a conditional is read as up to two digits, so a name that starts with a digit turns `(?1` into a
conditional on a sub-expression there is none of, and is dropped.
-/

namespace Mclog

open General LogFile

/-! ### What is inserted -/

/-- The text a conditional `(?N` of one digit emits when `name` follows it. -/
def emitted (name : Str) : Str := if name.head?.any isdigit then [] else name

/-- `regex_replace` with the replacement string that `LogPath` builds from valid names. -/
def FormatsConditionals (regexReplace : Str → Str → Str) : Prop :=
  ∀ pattern hostname appname facility, isValidHostname hostname = true →
    isValidAppName appname = true →
    regexReplace pattern (replacement hostname appname (facilityName facility)) =
      substitute (emitted hostname) (emitted appname) (facilityName facility) pattern

/-- A `regex_replace` that formats the three conditionals. -/
def formattingRegexReplace (text replacement : Str) : Str :=
  let (h, rest) := readConditional replacement
  let (a, rest) := readConditional rest
  let (f, _) := readConditional rest
  substitute (emitted h) (emitted a) (emitted f) text

theorem formatsConditionals_formattingRegexReplace :
    FormatsConditionals formattingRegexReplace := by
  intro pattern h a facility hh ha
  obtain ⟨rest₁, rest₂, h₁, h₂, h₃⟩ := readConditional_replacement hh ha facility
  have hf : emitted (facilityName facility) = facilityName facility := by
    have htable : ∀ name ∈ str "unknown" :: g_facilities.map Prod.snd, emitted name = name := by
      decide
    exact htable _ (facilityName_mem facility)
  simp only [formattingRegexReplace, h₁, h₂, h₃, hf]

/-- The number of references `%F` in a pattern. -/
def facilityReferences : Str → Nat
  | [] => 0
  | [_] => 0
  | c :: d :: rest =>
    if c = percent ∧ d = 72 then facilityReferences rest
    else if c = percent ∧ d = 73 then facilityReferences rest
    else if c = percent ∧ d = 70 then facilityReferences rest + 1
    else facilityReferences (d :: rest)

/-- A pattern has a reference exactly when `%F` occurs in it: no other reference overlaps it. -/
theorem facilityReferences_eq_zero_iff (p : Str) :
    facilityReferences p = 0 ↔ ¬ str "%F" <:+: p := by
  have hF : str "%F" = [percent, 70] := by decide
  rw [hF]
  -- Past a reference to another name, the scan goes on behind its two characters.
  have hskip : ∀ (d : UInt8) (rest : Str), d ≠ 70 → d ≠ percent →
      ([percent, 70] <:+: percent :: d :: rest ↔ [percent, 70] <:+: rest) := by
    intro d rest hd hd'
    rw [List.infix_cons_iff, List.infix_cons_iff]
    simp [List.cons_prefix_cons, Ne.symm hd, Ne.symm hd']
  induction p using facilityReferences.induct with
  | case1 => simp [facilityReferences]
  | case2 c => simp [facilityReferences, List.infix_cons_iff, List.cons_prefix_cons]
  | case3 c d rest hc ih =>
    obtain ⟨rfl, rfl⟩ := hc
    rw [hskip _ _ (by decide) (by decide)]
    simpa [facilityReferences] using ih
  | case4 c d rest hn hc ih =>
    obtain ⟨rfl, rfl⟩ := hc
    rw [hskip _ _ (by decide) (by decide)]
    simpa [facilityReferences] using ih
  | case5 c d rest hn hn' hc ih =>
    obtain ⟨rfl, rfl⟩ := hc
    have hmem : [percent, 70] <:+: percent :: 70 :: rest := ⟨[], rest, rfl⟩
    simp [facilityReferences, hmem]
  | case6 c d rest h₁ h₂ h₃ ih =>
    rw [facilityReferences, if_neg h₁, if_neg h₂, if_neg h₃, List.infix_cons_iff]
    have hno : ¬ [percent, 70] <+: c :: d :: rest := by
      rw [List.cons_prefix_cons, List.cons_prefix_cons]
      rintro ⟨rfl, rfl, -⟩
      exact h₃ ⟨rfl, rfl⟩
    simpa [hno] using ih

section

variable (h a : Str)

/-- Each reference is replaced by one copy of the facility name. -/
theorem length_substitute (f f' p : Str) :
    (substitute h a f p).length + facilityReferences p * f'.length =
      (substitute h a f' p).length + facilityReferences p * f.length := by
  induction p using substitute.induct with
  | case1 => simp [substitute, facilityReferences]
  | case2 c => simp [substitute, facilityReferences]
  | case3 c d rest hc ih =>
    simp only [substitute, facilityReferences, if_pos hc, List.length_append]
    omega
  | case4 c d rest hn hc ih =>
    simp only [substitute, facilityReferences, if_neg hn, if_pos hc, List.length_append]
    omega
  | case5 c d rest hn hn' hc ih =>
    simp only [substitute, facilityReferences, if_neg hn, if_neg hn', if_pos hc,
      List.length_append, Nat.add_mul]
    omega
  | case6 c d rest h₁ h₂ h₃ ih =>
    simp only [substitute, facilityReferences, if_neg h₁, if_neg h₂, if_neg h₃, List.length_cons]
    omega

/-- Facility names of one length can be told apart by the first reference. -/
theorem substitute_inj_of_length_eq {f f' p : Str} (hlen : f.length = f'.length)
    (hp : facilityReferences p ≠ 0) (heq : substitute h a f p = substitute h a f' p) : f = f' := by
  induction p using substitute.induct with
  | case1 => exact absurd rfl hp
  | case2 c => exact absurd rfl hp
  | case3 c d rest hc ih =>
    simp only [substitute, facilityReferences, if_pos hc] at hp heq
    exact ih hp (List.append_cancel_left heq)
  | case4 c d rest hn hc ih =>
    simp only [substitute, facilityReferences, if_neg hn, if_pos hc] at hp heq
    exact ih hp (List.append_cancel_left heq)
  | case5 c d rest hn hn' hc ih =>
    simp only [substitute, if_neg hn, if_neg hn', if_pos hc] at heq
    exact (List.append_inj heq hlen).1
  | case6 c d rest h₁ h₂ h₃ ih =>
    simp only [substitute, facilityReferences, if_neg h₁, if_neg h₂, if_neg h₃, List.cons.injEq,
      true_and] at hp heq
    exact ih hp heq

/-- Without a reference the facility name does not matter. -/
theorem substitute_of_no_reference {f f' p : Str} (hp : facilityReferences p = 0) :
    substitute h a f p = substitute h a f' p := by
  induction p using substitute.induct with
  | case1 => rfl
  | case2 c => rfl
  | case3 c d rest hc ih =>
    simp only [substitute, facilityReferences, if_pos hc] at hp ⊢
    rw [ih hp]
  | case4 c d rest hn hc ih =>
    simp only [substitute, facilityReferences, if_neg hn, if_pos hc] at hp ⊢
    rw [ih hp]
  | case5 c d rest hn hn' hc ih =>
    simp only [facilityReferences, if_neg hn, if_neg hn', if_pos hc] at hp
    omega
  | case6 c d rest h₁ h₂ h₃ ih =>
    simp only [substitute, facilityReferences, if_neg h₁, if_neg h₂, if_neg h₃] at hp ⊢
    rw [ih hp]

/-- **Inserting two facility names** gives the same text exactly when they are the same or the
    pattern refers to none. -/
theorem substitute_eq_iff (f f' p : Str) :
    substitute h a f p = substitute h a f' p ↔ f = f' ∨ facilityReferences p = 0 := by
  constructor
  · intro heq
    by_cases hp : facilityReferences p = 0
    · exact Or.inr hp
    · refine Or.inl (substitute_inj_of_length_eq h a ?_ hp heq)
      have hlen := length_substitute h a f f' p
      rw [heq, Nat.add_left_cancel_iff] at hlen
      exact (Nat.eq_of_mul_eq_mul_left (by omega) hlen).symm
  · rintro (rfl | hp)
    · rfl
    · exact substitute_of_no_reference h a hp

/-- The facility name does not decide whether the text starts with `'/'`. -/
theorem head_substitute_congr {f f' : Str} (hf : f ≠ [] ∧ slash ∉ f) (hf' : f' ≠ [] ∧ slash ∉ f')
    (p : Str) :
    (substitute h a f p).head? = some slash ↔ (substitute h a f' p).head? = some slash := by
  have hname : ∀ {g : Str} (t : Str), g ≠ [] ∧ slash ∉ g → (g ++ t).head? ≠ some slash := by
    intro g t hg
    cases g with
    | nil => exact absurd rfl hg.1
    | cons c g =>
      intro hc
      simp only [List.cons_append, List.head?_cons, Option.some.injEq] at hc
      exact hg.2 (by simp [hc])
  induction p using substitute.induct with
  | case1 => rfl
  | case2 c => rfl
  | case3 c d rest hc ih =>
    simp only [substitute, if_pos hc]
    cases h with
    | nil => exact ih
    | cons x xs => rfl
  | case4 c d rest hn hc ih =>
    simp only [substitute, if_neg hn, if_pos hc]
    cases a with
    | nil => exact ih
    | cons x xs => rfl
  | case5 c d rest hn hn' hc ih =>
    simp only [substitute, if_neg hn, if_neg hn', if_pos hc]
    exact iff_of_false (hname _ hf) (hname _ hf')
  | case6 c d rest h₁ h₂ h₃ ih =>
    simp only [substitute, if_neg h₁, if_neg h₂, if_neg h₃, List.head?_cons]

end

/-! ### Two messages with one key -/

section

variable {regexReplace : Str → Str → Str} (logDirectory : Str)

/-- **The paths of two messages with the same names**, for one pattern, are the same exactly when
    their facilities have the same name or the pattern does not refer to it. -/
theorem freshLogPath_eq_iff (hfmt : FormatsConditionals regexReplace) {io : StreamIO}
    {m m' : Message} (hm : m.Received io) (hm' : m'.Received io)
    (hhost : m.header.origin.hostname.value = m'.header.origin.hostname.value)
    (happ : m.header.origin.appname.value = m'.header.origin.appname.value) (p : Str) :
    freshLogPath regexReplace logDirectory m p = freshLogPath regexReplace logDirectory m' p ↔
      facilityName m.header.facility = facilityName m'.header.facility ∨
        facilityReferences p = 0 := by
  obtain ⟨bs, rest, hread⟩ := hm
  obtain ⟨bs', rest', hread'⟩ := hm'
  have hacc := Message.acceptable_of_read io hread
  have hacc' := Message.acceptable_of_read io hread'
  by_cases hempty : p = []
  · subst hempty
    simp [freshLogPath, hhost, happ, facilityReferences]
  by_cases hp : percent ∈ p
  · have hne : p.isEmpty = false := by simpa using hempty
    simp only [freshLogPath, hne, Bool.false_eq_true, if_false, if_neg (not_not.mpr hp)]
    rw [hfmt _ _ _ _ hacc.hostname hacc.appname, hfmt _ _ _ _ hacc'.hostname hacc'.appname, ← hhost,
      ← happ, ← substitute_eq_iff (emitted m.header.origin.hostname.value)
        (emitted m.header.origin.appname.value)]
    -- Both texts get the directory in front, or neither.
    have hhead := head_substitute_congr (emitted m.header.origin.hostname.value)
      (emitted m.header.origin.appname.value) (facilityName_plain m.header.facility)
      (facilityName_plain m'.header.facility) p
    by_cases hslash : (substitute (emitted m.header.origin.hostname.value)
        (emitted m.header.origin.appname.value) (facilityName m.header.facility) p).head? = some slash
    · rw [if_neg (not_not.mpr hslash), if_neg (not_not.mpr (hhead.mp hslash))]
    · rw [if_pos hslash, if_pos (fun h => hslash (hhead.mpr h))]
      simp
  · have hno : facilityReferences p = 0 := by
      rw [facilityReferences_eq_zero_iff]
      exact fun hsub => hp (hsub.subset (by decide))
    have hne : p.isEmpty = false := by simpa using hempty
    simp only [freshLogPath, hne, Bool.false_eq_true, if_false, if_pos hp, hno, or_true]

end

/-! ### The cache over a run -/

namespace LogFiles

section

variable (plat : Platform) (driver : MessageFilterDriver) (regexReplace : Str → Str → Str)

/-- The `LogPath` calls made for a message: one for each entry whose filter accepts it. -/
def selections (cfgs : List LogFileConfig) (msg : Message) : List (Message × LogFileConfig) :=
  (cfgs.filter fun cfg => driver.accepts cfg.filter msg).map fun cfg => (msg, cfg)

/-- The messages processed in a sequence of events. -/
def processed (events : List LogFilesEvent) : List Message :=
  events.filterMap fun
    | .process d => some d.msg
    | .compressor _ => none

/-- `LogPathConfigs` calls `LogPath` for the selected entries, one after another. -/
theorem logPathConfigs_cacheOf (logDirectory : Str) (msg : Message) (cfgs : List LogFileConfig)
    (calls : List (Message × LogFileConfig)) (cache : LogPathCache)
    (logPaths : List (Str × LogFileConfig)) (hcache : CacheOf regexReplace logDirectory calls cache) :
    CacheOf regexReplace logDirectory (calls ++ selections driver cfgs msg)
      (logPathConfigs driver regexReplace logDirectory msg cfgs cache logPaths).1 := by
  induction cfgs generalizing calls cache logPaths with
  | nil => simpa [selections, logPathConfigs] using hcache
  | cons cfg cfgs ih =>
    by_cases hacc : driver.accepts cfg.filter msg = true
    · obtain ⟨-, -, -, hcache'⟩ := logPath_spec regexReplace logDirectory hcache (msg, cfg)
      have hcalls : calls ++ selections driver (cfg :: cfgs) msg =
          (calls ++ [(msg, cfg)]) ++ selections driver cfgs msg := by
        simp [selections, hacc]
      rw [hcalls, logPathConfigs, if_pos hacc]
      exact ih _ _ _ hcache'
    · have hcalls : selections driver (cfg :: cfgs) msg = selections driver cfgs msg := by
        simp [selections, hacc]
      rw [hcalls, logPathConfigs, if_neg hacc]
      exact ih _ _ _ hcache

/-- What `Process` does to the log files leaves the configuration and the cache alone. -/
theorem processPath_config (lfs : LogFiles) (w : World) (d : Delivery) (path : Str)
    (cfg : LogFileConfig) :
    let lfs' := (lfs.processPath plat w d path cfg).2.1
    lfs'.filesConfig = lfs.filesConfig ∧ lfs'.filteredLogConfigs = lfs.filteredLogConfigs ∧
      lfs'.logPathCache = lfs.logPathCache := by
  simp only [processPath]
  split
  · exact ⟨rfl, rfl, rfl⟩
  · split <;> exact ⟨rfl, rfl, rfl⟩

theorem processPaths_config (d : Delivery) (logPaths : List (Str × LogFileConfig)) (lfs : LogFiles)
    (w : World) :
    let lfs' := (processPaths plat d logPaths lfs w).2.1
    lfs'.filesConfig = lfs.filesConfig ∧ lfs'.filteredLogConfigs = lfs.filteredLogConfigs ∧
      lfs'.logPathCache = lfs.logPathCache := by
  induction logPaths generalizing lfs w with
  | nil => exact ⟨rfl, rfl, rfl⟩
  | cons e logPaths ih =>
    obtain ⟨path, cfg⟩ := e
    have hpath := processPath_config plat lfs w d path cfg
    simp only [processPaths]
    rcases hstep : lfs.processPath plat w d path cfg with ⟨rc, lfs', w'⟩
    simp only [hstep] at hpath
    cases rc with
    | none => exact hpath
    | some rc =>
      obtain ⟨h₁, h₂, h₃⟩ := ih lfs' w'
      obtain ⟨h₁', h₂', h₃'⟩ := hpath
      exact ⟨h₁.trans h₁', h₂.trans h₂', h₃.trans h₃'⟩

/-- `Process` changes the cache as `LogPathConfigs` does, and the configuration not at all. -/
theorem process_config (lfs : LogFiles) (w : World) (d : Delivery) :
    let lfs' := (lfs.process plat driver regexReplace w d).2.1
    lfs'.filesConfig = lfs.filesConfig ∧ lfs'.filteredLogConfigs = lfs.filteredLogConfigs ∧
      lfs'.logPathCache = (logPathConfigs driver regexReplace lfs.filesConfig.logDirectory d.msg
        lfs.filteredLogConfigs lfs.logPathCache []).1 := by
  simp only [process]
  exact processPaths_config plat d _ _ w

/-- A run goes on with one more event. -/
theorem run_append_singleton (s : LogFiles × World) (events : List LogFilesEvent)
    (e : LogFilesEvent) :
    run plat driver regexReplace s (events ++ [e]) =
      step plat driver regexReplace (run plat driver regexReplace s events) e := by
  simp [run]

/-- The invariant of a run from `Configure`: the configuration has not changed, and the cache is that
    of the `LogPath` calls made. -/
theorem run_cacheOf (filesConfig : FilesConfig) (w : World) (events : List LogFilesEvent) :
    let lfs := (run plat driver regexReplace (configure driver filesConfig, w) events).1
    lfs.filesConfig = filesConfig ∧
      lfs.filteredLogConfigs = (configure driver filesConfig).filteredLogConfigs ∧
      CacheOf regexReplace filesConfig.logDirectory
        ((processed events).flatMap
          (selections driver (configure driver filesConfig).filteredLogConfigs))
        lfs.logPathCache := by
  induction events using List.reverseRecOn with
  | nil =>
    refine ⟨rfl, rfl, ?_⟩
    intro k
    simp [processed, run, configure]
  | append_singleton events e ih =>
    rw [run_append_singleton]
    generalize run plat driver regexReplace (configure driver filesConfig, w) events = s at ih
    obtain ⟨hconfig, hconfigs, hcache⟩ := ih
    cases e with
    | compressor i =>
      have hproc : processed (events ++ [.compressor i]) = processed events := by simp [processed]
      rw [hproc]
      exact ⟨hconfig, hconfigs, hcache⟩
    | process d =>
      have hproc : processed (events ++ [.process d]) = processed events ++ [d.msg] := by
        simp [processed]
      obtain ⟨h₁, h₂, h₃⟩ := process_config plat driver regexReplace s.1 s.2 d
      refine ⟨h₁.trans hconfig, h₂.trans hconfigs, ?_⟩
      rw [hproc, List.flatMap_append, List.flatMap_singleton]
      show CacheOf _ _ _ (s.1.process plat driver regexReplace s.2 d).2.1.logPathCache
      rw [h₃, hconfig, hconfigs]
      exact logPathConfigs_cacheOf driver regexReplace _ _ _ _ _ _ hcache

/-- **The path cache agrees with the path function, exactly when** the first message since
    `Configure` that was looked up under the same key has a facility of the same name, or the
    pattern does not mention the facility. -/
theorem cachedPath_eq_iff (hfmt : FormatsConditionals regexReplace) (io : StreamIO)
    (filesConfig : FilesConfig) (w : World) (events : List LogFilesEvent)
    (hrecv : ∀ m ∈ processed events, m.Received io) (msg : Message) (hmsg : msg.Received io)
    (cfg : LogFileConfig) :
    let lfs := (run plat driver regexReplace (configure driver filesConfig, w) events).1
    (logPath regexReplace lfs.filesConfig.logDirectory lfs.logPathCache msg cfg).1 =
        (logPath regexReplace lfs.filesConfig.logDirectory ∅ msg cfg).1 ↔
      ∀ first, ((processed events).flatMap
          (selections driver (configure driver filesConfig).filteredLogConfigs)).find?
            (fun c => LogPathCacheKey.of c.1 c.2.pathPattern =
              LogPathCacheKey.of msg cfg.pathPattern) = some first →
        facilityName first.1.header.facility = facilityName msg.header.facility ∨
          ¬ str "%F" <:+: cfg.pathPattern := by
  intro lfs
  obtain ⟨hconfig, -, hcache⟩ := run_cacheOf plat driver regexReplace filesConfig w events
  rw [hconfig]
  set calls := (processed events).flatMap
    (selections driver (configure driver filesConfig).filteredLogConfigs) with hcalls
  have hempty : CacheOf regexReplace filesConfig.logDirectory [] ∅ := fun k => by simp
  -- With an empty cache the first call with the key is this one.
  obtain ⟨first₀, hfirst₀, hpath₀, -⟩ :=
    logPath_spec regexReplace filesConfig.logDirectory hempty (msg, cfg)
  obtain rfl : first₀ = (msg, cfg) := by simpa [eq_comm] using hfirst₀
  obtain ⟨first, hfirst, hpath, -⟩ :=
    logPath_spec regexReplace filesConfig.logDirectory hcache (msg, cfg)
  rw [hpath, hpath₀]
  rw [List.find?_append] at hfirst
  cases hfind : calls.find? (fun c => LogPathCacheKey.of c.1 c.2.pathPattern =
      LogPathCacheKey.of msg cfg.pathPattern) with
  | none =>
    rw [hfind, Option.none_or] at hfirst
    obtain rfl : first = (msg, cfg) := by simpa [eq_comm] using hfirst
    simp
  | some found =>
    rw [hfind, Option.some_or, Option.some.injEq] at hfirst
    subst hfirst
    have hkey : LogPathCacheKey.of found.1 found.2.pathPattern =
        LogPathCacheKey.of msg cfg.pathPattern := by
      simpa using List.find?_some hfind
    simp only [LogPathCacheKey.of, LogPathCacheKey.mk.injEq] at hkey
    obtain ⟨-, hhost, happ, hpat⟩ := hkey
    -- The first call was made for a message that has been processed.
    have hmem : found.1 ∈ processed events := by
      have hin := List.mem_of_find?_eq_some hfind
      rw [hcalls, List.mem_flatMap] at hin
      obtain ⟨m, hm, hsel⟩ := hin
      simp only [selections, List.mem_map] at hsel
      obtain ⟨_, -, rfl⟩ := hsel
      exact hm
    rw [hpat, freshLogPath_eq_iff filesConfig.logDirectory hfmt (hrecv _ hmem) hmsg hhost happ,
      facilityReferences_eq_zero_iff]
    simp

end

/-- A message of the given facility and severity. -/
def messageWith (facility : Facility) (severity : Severity) : Message :=
  ⟨⟨⟨1⟩, facility, severity, ⟨⟨str "host", length_host_le⟩, ⟨str "app", length_app_le⟩, 1⟩⟩,
    ⟨str "x", length_x_le⟩⟩

/-- The decoder delivers the messages it does not reject. -/
theorem received_of_acceptable {m : Message} (h : m.Acceptable) : m.Received prefixedStreams :=
  ⟨_, _, Message.read_write_of_acceptable prefixedStreams h []⟩

/-- The configuration with one entry, a file for each facility. -/
def facilityFiles : FilesConfig :=
  { logDirectory := str "/log", logs := [{ pathPattern := str "%F" }] }

theorem cachedPath_eq_iff_users :
    let event : LogFilesEvent := .process { msg := messageWith .user .info }
    let lfs := (run plainPlatform anyDriver formattingRegexReplace
      (configure anyDriver facilityFiles, { disk := emptyDisk }) [event]).1
    (logPath formattingRegexReplace lfs.filesConfig.logDirectory lfs.logPathCache
        (messageWith .user .info) { pathPattern := str "%F" }).1 =
      (logPath formattingRegexReplace lfs.filesConfig.logDirectory ∅ (messageWith .user .info)
        { pathPattern := str "%F" }).1 := by
  intro event
  refine (cachedPath_eq_iff plainPlatform anyDriver formattingRegexReplace
    formatsConditionals_formattingRegexReplace prefixedStreams facilityFiles { disk := emptyDisk }
    [event] ?_ (messageWith .user .info) (received_of_acceptable (by decide))
    { pathPattern := str "%F" }).mpr ?_
  · intro m hm
    obtain rfl : m = messageWith .user .info := by simpa [processed, event] using hm
    exact received_of_acceptable (by decide)
  · intro first hfirst
    have hfound : some (messageWith .user .info, ({ pathPattern := str "%F" } : LogFileConfig)) =
        some first := hfirst
    obtain rfl := Option.some.inj hfound
    exact Or.inl rfl

/-- The log files after an alert of the kernel. -/
def afterKernelAlert : LogFiles :=
  (run plainPlatform anyDriver formattingRegexReplace
    (configure anyDriver facilityFiles, { disk := emptyDisk })
    [.process { msg := messageWith .kernel .alert }]).1

/-- **A cached path of another facility.**  The decoder lets facility 1 through.  An emergency of
    facility 1 has the key of an alert of the kernel, and after one such alert it goes to the
    kernel's file. -/
theorem cachedPath_of_other_facility :
    FormatsConditionals formattingRegexReplace ∧
      (messageWith .kernel .alert).Received prefixedStreams ∧
      (messageWith ⟨1⟩ .emerg).Received prefixedStreams ∧
      (logPath formattingRegexReplace facilityFiles.logDirectory afterKernelAlert.logPathCache
        (messageWith ⟨1⟩ .emerg) { pathPattern := str "%F" }).1 = str "/log/kernel" ∧
      (logPath formattingRegexReplace facilityFiles.logDirectory ∅ (messageWith ⟨1⟩ .emerg)
        { pathPattern := str "%F" }).1 = str "/log/unknown" := by
  exact ⟨formatsConditionals_formattingRegexReplace, received_of_acceptable (by decide),
    received_of_acceptable (by decide), by decide, by decide⟩

end LogFiles

end Mclog
