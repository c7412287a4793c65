import Mclog.Equiv.ConfigFile

/-!
# Configurations that differ in numbers

What a file is read as depends on the number of one of its settings in one way only: whether the
value is accepted, and what is stored where the setting puts it.  Two parses in step whose states
differ in numbers stay so (`next_alike`), so a setting with one number leads to the same result as
with another (`Surrounds.read_alike`), in whatever text the setting stands.
-/

namespace Mclog

open General

/-- A relation for the ports, one for the numbers of archives and one for the sizes of two
    configurations. -/
structure NumberRel where
  port : UInt16 → UInt16 → Prop
  keep : UInt32 → UInt32 → Prop
  size : Int → Int → Prop
  port_refl : ∀ n, port n n
  keep_refl : ∀ n, keep n n
  size_refl : ∀ n, size n n

section

variable (N : NumberRel)

/-! ### Alike configurations -/

/-- The second is the first with a port that is related to its port. -/
def LoopbackConfig.Alike (cfg cfg' : LoopbackConfig) : Prop :=
  ∃ port, N.port cfg.port port ∧ cfg' = { cfg with port := port }

def MulticastConfig.Alike (cfg cfg' : MulticastConfig) : Prop :=
  ∃ port, N.port cfg.dstPort port ∧ cfg' = { cfg with dstPort := port }

def LogFileConfig.Alike (cfg cfg' : LogFileConfig) : Prop :=
  ∃ keep size, N.keep cfg.keep keep ∧ N.size cfg.size size ∧
    cfg' = { cfg with keep := keep, size := size }

def FilesConfig.Alike (cfg cfg' : FilesConfig) : Prop :=
  ∃ logs, List.Forall₂ (LogFileConfig.Alike N) cfg.logs logs ∧ cfg' = { cfg with logs := logs }

def Config.Alike (cfg cfg' : Config) : Prop :=
  ∃ loopback mcast files, LoopbackConfig.Alike N cfg.loopback loopback ∧
    MulticastConfig.Alike N cfg.mcast mcast ∧ FilesConfig.Alike N cfg.files files ∧
    cfg' = { cfg with loopback := loopback, mcast := mcast, files := files }

theorem LoopbackConfig.Alike.refl (cfg : LoopbackConfig) : cfg.Alike N cfg :=
  ⟨cfg.port, N.port_refl _, rfl⟩

theorem MulticastConfig.Alike.refl (cfg : MulticastConfig) : cfg.Alike N cfg :=
  ⟨cfg.dstPort, N.port_refl _, rfl⟩

theorem LogFileConfig.Alike.refl (cfg : LogFileConfig) : cfg.Alike N cfg :=
  ⟨cfg.keep, cfg.size, N.keep_refl _, N.size_refl _, rfl⟩

theorem forall₂_alike_refl (logs : List LogFileConfig) :
    List.Forall₂ (LogFileConfig.Alike N) logs logs :=
  List.forall₂_same.mpr fun cfg _ => LogFileConfig.Alike.refl N cfg

theorem FilesConfig.Alike.refl (cfg : FilesConfig) : cfg.Alike N cfg :=
  ⟨cfg.logs, forall₂_alike_refl N _, rfl⟩

theorem Config.Alike.refl (cfg : Config) : cfg.Alike N cfg :=
  ⟨_, _, _, .refl N _, .refl N _, .refl N _, rfl⟩

namespace ConfigFile

/-! ### Alike parsers -/

/-- What the action of `LogSettings Keep` stores. -/
def keepOf (n : Int32) : UInt32 := if 0 ≤ n then n.toUInt32 else 7

/-- Values of one setting that store related numbers, or the same value. -/
inductive Value.Alike : Keyword → Value → Value → Prop where
  | refl (k : Keyword) (v : Value) : Alike k v v
  | port {n n' : UInt16} (h : N.port n n') : Alike .PORT (.port n) (.port n')
  | keep {n n' : Int32} (h : N.keep (keepOf n) (keepOf n')) : Alike .KEEP (.integer n) (.integer n')
  | size {s s' : Str} (h : N.size (logSize s) (logSize s')) : Alike .SIZE (.string s) (.string s')

/-- The settings read so far, up to numbers. -/
inductive Settings.Alike : Settings → Settings → Prop where
  | service (cfg : Option ServiceConfig) : Alike (.service cfg) (.service cfg)
  | loopback {cfg cfg' : Option LoopbackConfig} (h : Option.Rel (LoopbackConfig.Alike N) cfg cfg') :
    Alike (.loopback cfg) (.loopback cfg')
  | multicast {cfg cfg' : Option MulticastConfig}
    (h : Option.Rel (MulticastConfig.Alike N) cfg cfg') : Alike (.multicast cfg) (.multicast cfg')
  | files {cfg cfg' : Option FilesConfig} (h : Option.Rel (FilesConfig.Alike N) cfg cfg') :
    Alike (.files cfg) (.files cfg')
  | log {files files' : Option FilesConfig} {logs logs' : List LogFileConfig}
    {cfg cfg' : Option LogFileConfig} (hfiles : Option.Rel (FilesConfig.Alike N) files files')
    (hlogs : List.Forall₂ (LogFileConfig.Alike N) logs logs')
    (h : Option.Rel (LogFileConfig.Alike N) cfg cfg') :
    Alike (.log files logs cfg) (.log files' logs' cfg')

/-- A stanza, up to numbers. -/
inductive TopStanza.Alike : TopStanza → TopStanza → Prop where
  | service (cfg : ServiceConfig) : Alike (.service cfg) (.service cfg)
  | loopback {cfg cfg' : LoopbackConfig} (h : cfg.Alike N cfg') :
    Alike (.loopback cfg) (.loopback cfg')
  | multicast {cfg cfg' : MulticastConfig} (h : cfg.Alike N cfg') :
    Alike (.multicast cfg) (.multicast cfg')
  | files {cfg cfg' : FilesConfig} (h : cfg.Alike N cfg') : Alike (.files cfg) (.files cfg')
  | filters (vars : List (Str × Str)) : Alike (.filters vars) (.filters vars)

/-- The state of the parser, up to numbers. -/
inductive State.Alike : State → State → Prop where
  | config (stanzas : Bool) : Alike (.config stanzas) (.config stanzas)
  | stanzaName {s s' : Settings} (h : s.Alike N s') : Alike (.stanzaName s) (.stanzaName s')
  | settings {s s' : Settings} (h : s.Alike N s') : Alike (.settings s) (.settings s')
  | settingName {s s' : Settings} (h : s.Alike N s') (k : Keyword) :
    Alike (.settingName s k) (.settingName s' k)
  | settingEquals {s s' : Settings} (h : s.Alike N s') (k : Keyword) :
    Alike (.settingEquals s k) (.settingEquals s' k)
  | settingValue {s s' : Settings} (h : s.Alike N s') {k : Keyword} {v v' : Value}
    (hv : v.Alike N k v') : Alike (.settingValue s k v) (.settingValue s' k v')
  | logsName {files files' : Option FilesConfig}
    (h : Option.Rel (FilesConfig.Alike N) files files') : Alike (.logsName files) (.logsName files')
  | logsOpen {files files' : Option FilesConfig} {logs logs' : List LogFileConfig}
    (h : Option.Rel (FilesConfig.Alike N) files files')
    (hlogs : List.Forall₂ (LogFileConfig.Alike N) logs logs') :
    Alike (.logsOpen files logs) (.logsOpen files' logs')
  | logList {files files' : Option FilesConfig} {logs logs' : List LogFileConfig}
    (h : Option.Rel (FilesConfig.Alike N) files files')
    (hlogs : List.Forall₂ (LogFileConfig.Alike N) logs logs') :
    Alike (.logList files logs) (.logList files' logs')
  | logsClosed {files files' : Option FilesConfig} {logs logs' : List LogFileConfig}
    (h : Option.Rel (FilesConfig.Alike N) files files')
    (hlogs : List.Forall₂ (LogFileConfig.Alike N) logs logs') :
    Alike (.logsClosed files logs) (.logsClosed files' logs')
  | filtersName : Alike .filtersName .filtersName
  | filterList (vars : Option (List (Str × Str))) : Alike (.filterList vars) (.filterList vars)
  | filterName (vars : Option (List (Str × Str))) (name : Str) :
    Alike (.filterName vars name) (.filterName vars name)
  | filterEquals (vars : Option (List (Str × Str))) (name : Str) :
    Alike (.filterEquals vars name) (.filterEquals vars name)
  | filterValue (vars : Option (List (Str × Str))) (name value : Str) :
    Alike (.filterValue vars name value) (.filterValue vars name value)
  | closed {stanza stanza' : TopStanza} (h : stanza.Alike N stanza') :
    Alike (.closed stanza) (.closed stanza')

variable {N}

theorem Settings.Alike.refl (s : Settings) : s.Alike N s := by
  have hrel {α : Type} {R : α → α → Prop} (hR : ∀ a, R a a) (o : Option α) : Option.Rel R o o := by
    cases o with
    | none => exact .none
    | some a => exact .some (hR a)
  cases s with
  | service cfg => exact .service cfg
  | loopback cfg => exact .loopback (hrel (LoopbackConfig.Alike.refl N) cfg)
  | multicast cfg => exact .multicast (hrel (MulticastConfig.Alike.refl N) cfg)
  | files cfg => exact .files (hrel (FilesConfig.Alike.refl N) cfg)
  | log files logs cfg =>
    exact .log (hrel (FilesConfig.Alike.refl N) files) (forall₂_alike_refl N logs)
      (hrel (LogFileConfig.Alike.refl N) cfg)

/-- Settings that have not been read yet have their defaults. -/
theorem getD_alike {α : Type} {R : α → α → Prop} {o o' : Option α} (h : Option.Rel R o o') {d : α}
    (hd : R d d) : R (o.getD d) (o'.getD d) := by
  cases h with
  | some h => exact h
  | none => exact hd

variable (libs : Libraries) (filters : List (Str × Str))

/-! ### What a token does -/

theorem setLoopback_alike {cfg cfg' : LoopbackConfig} (h : cfg.Alike N cfg') {k : Keyword}
    {v v' : Value} (hv : v.Alike N k v') :
    Related (· = ·) (LoopbackConfig.Alike N) (setLoopback cfg k v) (setLoopback cfg' k v') := by
  obtain ⟨port, hport, rfl⟩ := h
  cases hv with
  | refl =>
    unfold setLoopback
    split
    · exact .ok ⟨port, hport, rfl⟩
    · exact .ok ⟨port, hport, rfl⟩
    · exact .ok ⟨_, N.port_refl _, rfl⟩
    · exact .error rfl
  | port hn => exact .ok ⟨_, hn, rfl⟩
  | keep => exact .error rfl
  | size => exact .error rfl

theorem setMulticast_alike {cfg cfg' : MulticastConfig} (h : cfg.Alike N cfg') {k : Keyword}
    {v v' : Value} (hv : v.Alike N k v') :
    Related (· = ·) (MulticastConfig.Alike N) (setMulticast libs filters cfg k v)
      (setMulticast libs filters cfg' k v') := by
  obtain ⟨port, hport, rfl⟩ := h
  cases hv with
  | refl =>
    unfold setMulticast
    split
    · split_ifs
      · exact .ok ⟨port, hport, rfl⟩
      · exact .error rfl
    · split_ifs
      · exact .ok ⟨port, hport, rfl⟩
      · exact .error rfl
    · exact .ok ⟨port, hport, rfl⟩
    · split_ifs
      · exact .error rfl
      · exact .ok ⟨port, hport, rfl⟩
    · exact .ok ⟨port, hport, rfl⟩
    · exact .ok ⟨_, N.port_refl _, rfl⟩
    · refine (Related.refl (fun _ => rfl) (fun _ => rfl) _).bind fun expr expr' hexpr => ?_
      obtain rfl : expr = expr' := hexpr
      exact .ok ⟨port, hport, rfl⟩
    · exact .error rfl
  | port hn => exact .ok ⟨_, hn, rfl⟩
  | keep => exact .error rfl
  | size => exact .error rfl

theorem setLog_alike {cfg cfg' : LogFileConfig} (h : cfg.Alike N cfg') {k : Keyword}
    {v v' : Value} (hv : v.Alike N k v') :
    Related (· = ·) (LogFileConfig.Alike N) (setLog libs filters cfg k v)
      (setLog libs filters cfg' k v') := by
  obtain ⟨keep, size, hkeep, hsize, rfl⟩ := h
  cases hv with
  | refl =>
    unfold setLog
    split
    · refine (Related.refl (fun _ => rfl) (fun _ => rfl) _).bind fun expr expr' hexpr => ?_
      obtain rfl : expr = expr' := hexpr
      exact .ok ⟨keep, size, hkeep, hsize, rfl⟩
    case h_5 s => exact .ok ⟨keep, _, hkeep, N.size_refl _, rfl⟩
    case h_6 n => exact .ok ⟨_, size, N.keep_refl _, hsize, rfl⟩
    case h_11 => exact .error rfl
    all_goals exact .ok ⟨keep, size, hkeep, hsize, rfl⟩
  | port hn => exact .error rfl
  | keep hn => exact .ok ⟨_, size, hn, hsize, rfl⟩
  | size hs => exact .ok ⟨keep, _, hkeep, hs, rfl⟩

theorem setFiles_alike {cfg cfg' : FilesConfig} (h : cfg.Alike N cfg') {k : Keyword}
    {v v' : Value} (hv : v.Alike N k v') :
    Related (· = ·) (FilesConfig.Alike N) (setFiles cfg k v) (setFiles cfg' k v') := by
  obtain ⟨logs, hlogs, rfl⟩ := h
  cases hv with
  | refl =>
    unfold setFiles
    split
    · exact .ok ⟨logs, hlogs, rfl⟩
    · exact .error rfl
  | _ => exact .error rfl

/-- The action of a setting. -/
theorem set_alike {s s' : Settings} (h : s.Alike N s') {k : Keyword} {v v' : Value}
    (hv : v.Alike N k v') :
    Related (· = ·) (Settings.Alike N) (Settings.set libs filters k v s)
      (Settings.set libs filters k v' s') := by
  cases h with
  | service cfg =>
    cases hv with
    | refl =>
      exact Related.refl (fun _ => rfl) Settings.Alike.refl _
    | _ => exact .error rfl
  | loopback h =>
    exact (setLoopback_alike (getD_alike h (.refl N _)) hv).bind
      fun _ _ h => .ok (.loopback (.some h))
  | multicast h =>
    exact (setMulticast_alike libs filters (getD_alike h (.refl N _)) hv).bind
      fun _ _ h => .ok (.multicast (.some h))
  | files h =>
    exact (setFiles_alike (getD_alike h (.refl N _)) hv).bind fun _ _ h => .ok (.files (.some h))
  | log hfiles hlogs h =>
    exact (setLog_alike libs filters (getD_alike h (.refl N _)) hv).bind
      fun _ _ h => .ok (.log hfiles hlogs (.some h))

/-- Alike settings allow the same ones to follow. -/
theorem allows_alike {s s' : Settings} (h : s.Alike N s') (k : Keyword) :
    s.allows k = s'.allows k := by
  cases h <;> rfl

theorem TopStanza.Alike.refl (stanza : TopStanza) : stanza.Alike N stanza := by
  cases stanza with
  | service cfg => exact .service cfg
  | loopback cfg => exact .loopback (.refl N cfg)
  | multicast cfg => exact .multicast (.refl N cfg)
  | files cfg => exact .files (.refl N cfg)
  | filters vars => exact .filters vars

theorem State.Alike.refl (st : State) : st.Alike N st := by
  have hfiles (files : Option FilesConfig) : Option.Rel (FilesConfig.Alike N) files files := by
    cases files with
    | none => exact .none
    | some cfg => exact .some (.refl N cfg)
  cases st with
  | config stanzas => exact .config stanzas
  | stanzaName s => exact .stanzaName (.refl s)
  | settings s => exact .settings (.refl s)
  | settingName s k => exact .settingName (.refl s) k
  | settingEquals s k => exact .settingEquals (.refl s) k
  | settingValue s k v => exact .settingValue (.refl s) (.refl k v)
  | logsName files => exact .logsName (hfiles files)
  | logsOpen files logs => exact .logsOpen (hfiles files) (forall₂_alike_refl N logs)
  | logList files logs => exact .logList (hfiles files) (forall₂_alike_refl N logs)
  | logsClosed files logs => exact .logsClosed (hfiles files) (forall₂_alike_refl N logs)
  | filtersName => exact .filtersName
  | filterList vars => exact .filterList vars
  | filterName vars name => exact .filterName vars name
  | filterEquals vars name => exact .filterEquals vars name
  | filterValue vars name value => exact .filterValue vars name value
  | closed stanza => exact .closed (.refl stanza)

/-- The closing brace. -/
theorem close_alike {s s' : Settings} (h : s.Alike N s') :
    Related (· = ·) (State.Alike N) s.close s'.close := by
  cases h with
  | service cfg => exact Related.refl (fun _ => rfl) State.Alike.refl _
  | loopback h =>
    cases h with
    | some h => exact .ok (.closed (.loopback h))
    | none => exact .error rfl
  | multicast h =>
    cases h with
    | some h => exact .ok (.closed (.multicast h))
    | none => exact .error rfl
  | files h =>
    cases h with
    | some h => exact .ok (.closed (.files h))
    | none => exact .error rfl
  | log hfiles hlogs h =>
    cases h with
    | some h => exact .ok (.logList hfiles (List.rel_append hlogs (.cons h .nil)))
    | none => exact .error rfl

/-- What a token leads to: alike states, and alike stanzas or none. -/
def OutcomeAlike (N : NumberRel) (r r' : State × Option TopStanza) : Prop :=
  r.1.Alike N r'.1 ∧ Option.Rel (TopStanza.Alike N) r.2 r'.2

theorem OutcomeAlike.refl (r : State × Option TopStanza) : OutcomeAlike N r r := by
  obtain ⟨st, stanza⟩ := r
  refine ⟨.refl st, ?_⟩
  cases stanza with
  | none => exact .none
  | some stanza => exact .some (.refl stanza)

/-- The name of a setting, other than `logs`. -/
theorem next_settings_keyword (s : Settings) {k : Keyword} (hk : k ≠ .LOGS) :
    next libs filters (.settings s) (.keyword k) =
      if s.allows k then .ok (.settingName s k, none) else .error .failed := by
  cases s with
  | files files =>
    cases k with
    | LOGS => exact absurd rfl hk
    | _ => rfl
  | _ => rfl

/-- **A token takes alike states to alike results.** -/
theorem next_alike {st st' : State} (h : st.Alike N st') (t : Token) :
    Related (· = ·) (OutcomeAlike N) (next libs filters st t) (next libs filters st' t) := by
  cases h with
  | stanzaName h =>
    cases t with
    | openBrace => exact .ok ⟨.settings h, .none⟩
    | _ => exact .error rfl
  | settings h =>
    cases t with
    | keyword k =>
      by_cases hk : k = .LOGS
      · subst hk
        cases h with
        | files h => exact .ok ⟨.logsName h, .none⟩
        | service cfg => exact Related.refl (fun _ => rfl) OutcomeAlike.refl _
        | _ => exact .error rfl
      · rw [next_settings_keyword libs filters _ hk, next_settings_keyword libs filters _ hk,
          allows_alike h k]
        split_ifs
        · exact .ok ⟨.settingName h k, .none⟩
        · exact .error rfl
    | closeBrace => exact (close_alike h).bind fun _ _ h => .ok ⟨h, .none⟩
    | _ => exact .error rfl
  | settingName h k =>
    cases t with
    | equals => exact .ok ⟨.settingEquals h k, .none⟩
    | _ => exact .error rfl
  | settingEquals h k =>
    cases t with
    | outOfRange => exact .error rfl
    | _ =>
      refine (Related.refl (fun _ => rfl) (fun _ => rfl) (valueOf libs k _)).bind fun v v' hv => ?_
      obtain rfl : v = v' := hv
      exact .ok ⟨.settingValue h (.refl k v), .none⟩
  | settingValue h hv =>
    cases t with
    | semicolon => exact (set_alike libs filters h hv).bind fun _ _ h => .ok ⟨.settings h, .none⟩
    | _ => exact .error rfl
  | logsName h =>
    cases t with
    | openBrace => exact .ok ⟨.logsOpen h .nil, .none⟩
    | _ => exact .error rfl
  | logsOpen h hlogs =>
    cases t with
    | openBrace => exact .ok ⟨.settings (.log h hlogs .none), .none⟩
    | _ => exact .error rfl
  | logList h hlogs =>
    cases t with
    | comma => exact .ok ⟨.logsOpen h hlogs, .none⟩
    | closeBrace => exact .ok ⟨.logsClosed h hlogs, .none⟩
    | _ => exact .error rfl
  | @logsClosed files files' logs logs' h hlogs =>
    cases t with
    | semicolon =>
      obtain ⟨logs₀, -, heq⟩ := getD_alike h (FilesConfig.Alike.refl N {})
      have halike : FilesConfig.Alike N { files.getD {} with logs := logs }
          { files'.getD {} with logs := logs' } := ⟨logs', hlogs, by rw [heq]⟩
      exact .ok ⟨.settings (.files (.some halike)), .none⟩
    | _ => exact .error rfl
  | closed h =>
    cases t with
    | semicolon => exact .ok ⟨.config true, .some h⟩
    | _ => exact .error rfl
  -- Nothing in the other states differs.
  | _ => exact Related.refl (fun _ => rfl) OutcomeAlike.refl _

theorem store_alike {cfg cfg' : Config} (h : cfg.Alike N cfg') {stanza stanza' : TopStanza}
    (hs : stanza.Alike N stanza') : (stanza.store cfg).Alike N (stanza'.store cfg') := by
  obtain ⟨loopback, mcast, files, hl, hm, hf, rfl⟩ := h
  cases hs with
  | service s => exact ⟨loopback, mcast, files, hl, hm, hf, rfl⟩
  | loopback hs => exact ⟨_, mcast, files, hs, hm, hf, rfl⟩
  | multicast hs => exact ⟨loopback, _, files, hl, hs, hf, rfl⟩
  | files hs => exact ⟨loopback, mcast, _, hl, hm, hs, rfl⟩
  | filters vars => exact ⟨loopback, mcast, files, hl, hm, hf, rfl⟩

/-- A configuration that is being read, up to numbers. -/
def ReadAlike (N : NumberRel) (p p' : Config × State) : Prop := p.1.Alike N p'.1 ∧ p.2.Alike N p'.2

/-- An error and what has been read by then, up to numbers. -/
def StopAlike (N : NumberRel) (e e' : Stop × Config) : Prop := e.1 = e'.1 ∧ e.2.Alike N e'.2

theorem consume_alike {p p' : Config × State} (h : ReadAlike N p p') (t : Token) :
    Related (StopAlike N) (ReadAlike N) (consume libs p t) (consume libs p' t) := by
  obtain ⟨hcfg, hst⟩ := h
  have hfilters : p'.1.filters = p.1.filters := by
    obtain ⟨loopback, mcast, files, -, -, -, heq⟩ := hcfg
    rw [heq]
  have hnext := next_alike libs p.1.filters hst t
  rw [consume, consume, hfilters]
  generalize next libs p.1.filters p.2 t = r at hnext ⊢
  generalize next libs p.1.filters p'.2 t = r' at hnext ⊢
  cases hnext with
  | error h => exact .error ⟨h, hcfg⟩
  | @ok r r' h =>
    obtain ⟨st, stanza⟩ := r
    obtain ⟨st', stanza'⟩ := r'
    obtain ⟨hst', hstanza⟩ := h
    cases hstanza with
    | none => exact .ok ⟨hcfg, hst'⟩
    | some hstanza => exact .ok ⟨store_alike hcfg hstanza, hst'⟩

end ConfigFile

end

/-! ### Reading a text -/

open ConfigFile

variable (libs : Libraries)

/-- What `Parse` makes of the end of its input. -/
def Config.ofResult : Except (Stop × Config) (Config × State) → Option Bool × Config
  | .ok (cfg, .config stanzas) => (some stanzas, cfg)
  | .ok (cfg, _) => (some false, cfg)
  | .error (.failed, cfg) => (some false, cfg)
  | .error (.thrown, cfg) => (none, cfg)

/-- What `Parse` reads a text as, for a `Config` that may have been used before: whether it
    succeeds, where `none` is an exception, and the `Config`. -/
def Config.read (cfg : Config) (text : Str) : Option Bool × Config :=
  Config.ofResult ((scanner.scanAll .INITIAL text).foldlM (consume libs) (cfg.init, .config false))

/-- A call of `Parse` reads the file, if the scanner is at rest. -/
theorem Config.parse_eq_read {sc : ScannerState} (h : sc.AtRest) (cfg : Config) {call : ParseCall}
    {contents : Str} (hcontents : call.contents = some contents) :
    (parse libs sc cfg call).1 = read libs cfg contents := by
  rw [parse_of_atRest libs h cfg hcontents, read, ← scanner.feed_fst]
  simp only [parse, hcontents, Bool.false_eq_true, if_false, List.nil_append]
  rcases scanner.feed (consume libs) .INITIAL contents (cfg.init, .config false) with
    ⟨⟨⟨stop | stop, cfg⟩⟩ | ⟨cfg, st⟩, cond, rest⟩
  · rfl
  · rfl
  · cases st <;> rfl

/-- Alike results succeed alike and leave alike configurations. -/
theorem Config.ofResult_alike {N : NumberRel} {r r' : Except (Stop × Config) (Config × State)}
    (h : Related (StopAlike N) (ReadAlike N) r r') :
    (Config.ofResult r).1 = (Config.ofResult r').1 ∧
      (Config.ofResult r).2.Alike N (Config.ofResult r').2 := by
  cases h with
  | @ok p p' h =>
    obtain ⟨cfg, st⟩ := p
    obtain ⟨cfg', st'⟩ := p'
    obtain ⟨hcfg, hst⟩ := h
    cases hst <;> exact ⟨rfl, hcfg⟩
  | @error e e' h =>
    obtain ⟨stop, cfg⟩ := e
    obtain ⟨stop', cfg'⟩ := e'
    obtain ⟨rfl, hcfg⟩ := h
    cases stop <;> exact ⟨rfl, hcfg⟩

end Mclog
