import Mclog.ConfigFile

/-!
# What a configuration file is read as

`Config::Parse` should depend on the file alone.  Two things outlive a call: the filters in the
`Config`, which `Init` does not clear, and the state of the scanner.  `Unaffected` says when neither
matters for the next call: what the scanner has left over holds no token (`ScannerState.AtRest`), and
no filters are stored or the file replaces them before it uses them (`replacesFilters`).  Then a call
gives what it gives in a fresh process (`parse_eq_fresh`), and so do all the calls of a run that meets
the condition (`Config.parses_eq_fresh`).
-/

namespace Mclog

open General

namespace ConfigFile

variable (libs : Libraries)

/-! ### Filters before they are replaced -/

/-- The expression that a setting just read has, if it is one that filters are expanded in. -/
def State.filterExpr : State → Option Str
  | .settingValue _ .FILTER (.string expr) => some expr
  | .settingValue _ .OUTFILTER (.string expr) => some expr
  | _ => none

/-- Whether a parse completes a `filters` stanza, and the expressions it expands before that are ones
    that the filters `stored` do not change. -/
def replacesFilters (stored : List (Str × Str)) : State → List Token → Bool
  | _, [] => false
  | st, t :: ts =>
    (st.filterExpr.all fun expr => expandFilterExpr libs stored expr = some expr) &&
      match next libs [] st t with
      | .ok (_, some (.filters _)) => true
      | .ok (st, _) => replacesFilters stored st ts
      | .error _ => false

theorem expanded_eq {stored : List (Str × Str)} {expr : Str}
    (h : expandFilterExpr libs stored expr = some expr) :
    expanded libs stored expr = expanded libs [] expr := by
  rw [expanded, h]
  rfl

/-- Filters that do not change the expression of a setting do not change the setting. -/
theorem set_eq {stored : List (Str × Str)} {s : Settings} {k : Keyword} {v : Value}
    (h : (State.settingValue s k v).filterExpr.all
      fun expr => expandFilterExpr libs stored expr = some expr) :
    Settings.set libs stored k v s = Settings.set libs [] k v s := by
  cases s with
  | service cfg => rfl
  | loopback cfg => rfl
  | files cfg => rfl
  | multicast cfg =>
    have hset : setMulticast libs stored (cfg.getD {}) k v =
        setMulticast libs [] (cfg.getD {}) k v := by
      unfold setMulticast
      split
      case h_7 expr =>
        have hexpr : expandFilterExpr libs stored expr = some expr := by
          simpa [State.filterExpr] using h
        rw [expanded_eq libs hexpr]
      all_goals rfl
    simp only [Settings.set, hset]
  | log outer logs cfg =>
    have hset : setLog libs stored (cfg.getD {}) k v = setLog libs [] (cfg.getD {}) k v := by
      unfold setLog
      split
      case h_1 expr =>
        have hexpr : expandFilterExpr libs stored expr = some expr := by
          simpa [State.filterExpr] using h
        rw [expanded_eq libs hexpr]
      all_goals rfl
    simp only [Settings.set, hset]

/-- Only settings look at the filters. -/
theorem next_eq {stored : List (Str × Str)} {st : State} (t : Token)
    (h : st.filterExpr.all fun expr => expandFilterExpr libs stored expr = some expr) :
    next libs stored st t = next libs [] st t := by
  cases st with
  | settingValue s k v =>
    cases t with
    | semicolon =>
      show (do
        let s ← Settings.set libs stored k v s
        pure (State.settings s, none)) = _
      rw [set_eq libs h]
      rfl
    | _ => rfl
  | filterList vars => cases vars <;> cases t <;> rfl
  | _ => cases t <;> rfl

/-- **Filters that are replaced before they matter**: a parse gives the same with and without
    them. -/
theorem feed_eq_of_replacesFilters {stored : List (Str × Str)} {input : Str} {cfg : Config}
    (hcfg : cfg.filters = [])
    (h : replacesFilters libs stored (.config false) (scanner.scanAll .INITIAL input) = true) :
    scanner.feed (consume libs) .INITIAL input ({ cfg with filters := stored }, .config false) =
      scanner.feed (consume libs) .INITIAL input (cfg, .config false) := by
  let R : Config × State → Config × State → List Token → Prop := fun p p' ts =>
    p = ({ p'.1 with filters := stored }, p'.2) ∧ p'.1.filters = [] ∧
      replacesFilters libs stored p'.2 ts = true
  refine scanner.feed_eq (consume libs) R ?_ ?_ .INITIAL input ⟨rfl, hcfg, h⟩
  · -- At the end of the input no stanza has replaced the filters.
    rintro p p' ⟨_, _, h⟩
    cases h
  · rintro _ ⟨cfg, st⟩ t ts ⟨rfl, hcfg, h⟩
    simp only at hcfg h
    unfold replacesFilters at h
    obtain ⟨hexpr, h⟩ := Bool.and_eq_true_iff.mp h
    simp only [consume, next_eq libs t hexpr, hcfg]
    cases hnext : next libs [] st t with
    | error stop =>
      rw [hnext] at h
      cases h
    | ok result =>
      obtain ⟨st', stanza⟩ := result
      rw [hnext] at h
      cases stanza with
      | none => exact Or.inr ⟨_, _, rfl, rfl, rfl, hcfg, h⟩
      | some stanza =>
        cases stanza with
        | filters vars =>
          -- From here on the two parses are one.
          exact Or.inl rfl
        | _ => exact Or.inr ⟨_, _, rfl, rfl, rfl, hcfg, h⟩

end ConfigFile

/-! ### Calls that nothing affects -/

open ConfigFile

/-- What earlier calls have left in the scanner holds no token: whatever input comes next, a call of
    the scanner gives what it gives in `INITIAL` on that input alone. -/
def ScannerState.AtRest (sc : ScannerState) : Prop :=
  sc.eofPending = false ∧
    ∀ input, scanner.next sc.cond (sc.unread ++ input) = scanner.next .INITIAL input

/-- The scanner skips a blank. -/
theorem ConfigFile.next_blank {c : UInt8} (hc : isBlank c = true) (input : Str) :
    scanner.next .INITIAL (c :: input) = scanner.next .INITIAL input := by
  have hone : (Pattern.one isBlank).longest (c :: input) = 1 := by
    simp [Pattern.one, Pattern.upTo, hc]
  have hsel : select initialRules (c :: input) = some (1, fun _ => (.INITIAL, none)) := by
    rw [← hone]
    refine select_of_split (initialRules.take 8) (initialRules.drop 9) rfl ?_ ?_ ?_
    · intro r hr
      rw [hone]
      obtain rfl | rfl | rfl : c = 32 ∨ c = 9 ∨ c = 10 := by
        simpa [isBlank, or_assoc] using hc
      all_goals
        simp only [initialRules, List.take, List.mem_cons, List.not_mem_nil, or_false] at hr
        rcases hr with rfl | rfl | rfl | rfl | rfl | rfl | rfl | rfl <;> exact Nat.zero_lt_one
    · intro r hr
      rw [hone]
      obtain rfl : r = (.one fun _ => true, fun _ => (.INITIAL, none)) := List.mem_singleton.mp hr
      simp [Pattern.one, Pattern.upTo]
    · omega
  exact scanner.next_of_skip (s := .INITIAL) hsel rfl

/-- Blanks that a file ends with may be left over. -/
theorem ScannerState.atRest_of_blank {unread : Str} (h : ∀ c ∈ unread, isBlank c = true) :
    ScannerState.AtRest { unread } := by
  refine ⟨rfl, fun input => ?_⟩
  show scanner.next .INITIAL (unread ++ input) = _
  induction unread with
  | nil => rfl
  | cons c unread ih =>
    rw [List.cons_append, next_blank (h c (by simp)), ih fun d hd => h d (by simp [hd])]

namespace Config

variable (libs : Libraries)

/-- What is kept from earlier calls does not matter for a call. -/
def Unaffected (s : ScannerState × Config) (call : ParseCall) : Prop :=
  match call.contents with
  | none => s.2.filters = []
  | some contents =>
    s.1.AtRest ∧ (s.2.filters = [] ∨
      replacesFilters libs s.2.filters (.config false) (scanner.scanAll .INITIAL contents) = true)

/-- A call with a scanner at rest is a call with a fresh one. -/
theorem parse_of_atRest {sc : ScannerState} (h : sc.AtRest) (cfg : Config) {call : ParseCall}
    {contents : Str} (hcontents : call.contents = some contents) :
    parse libs sc cfg call = parse libs {} cfg call := by
  obtain ⟨hpending, hnext⟩ := h
  have hfeed := scanner.feed_of_next_eq (consume libs) (hnext contents) (cfg.init, .config false)
  simp only [parse, hcontents, hpending, Bool.false_eq_true, if_false, hfeed, List.nil_append]

/-- **A call that nothing affects** gives what it gives in a fresh process. -/
theorem parse_eq_fresh {s : ScannerState × Config} {call : ParseCall}
    (h : Unaffected libs s call) : (parse libs s.1 s.2 call).1 = (parse libs {} {} call).1 := by
  obtain ⟨sc, cfg⟩ := s
  -- `Init` clears everything but the filters.
  have hinit : cfg.init = { ({} : Config) with filters := cfg.filters } := rfl
  unfold Unaffected at h
  cases hcontents : call.contents with
  | none =>
    rw [hcontents] at h
    simp only at h
    simp only [parse, hcontents, hinit, h]
    rfl
  | some contents =>
    rw [hcontents] at h
    obtain ⟨hrest, hfilters⟩ := h
    simp only at hrest hfilters
    show (parse libs sc cfg call).1 = _
    rw [parse_of_atRest libs hrest cfg hcontents]
    have hfeed : scanner.feed (consume libs) .INITIAL contents (cfg.init, .config false) =
        scanner.feed (consume libs) .INITIAL contents (({} : Config).init, .config false) := by
      obtain hnone | hreplaces := hfilters
      · rw [hinit, hnone]
        rfl
      · rw [hinit]
        exact feed_eq_of_replacesFilters libs rfl hreplaces
    simp only [parse, hcontents, Bool.false_eq_true, if_false, List.nil_append, hfeed]

/-- What calls of `Parse` give one after another is what each of them gives in a fresh process. -/
def DependsOnFiles (calls : List ParseCall) : Prop :=
  ((parses libs).run ({}, {}) calls).map Prod.snd =
    some (calls.map fun call => (parse libs {} {} call).1)

instance (calls : List ParseCall) : Decidable (DependsOnFiles libs calls) :=
  inferInstanceAs (Decidable (_ = _))

/-- **Parsing depends on the file alone**, in every run of calls that nothing kept from earlier ones
    affects. -/
theorem parses_dependsOnFiles (calls : List ParseCall)
    (h : (parses libs).Meets (Unaffected libs) ({}, {}) calls) : DependsOnFiles libs calls := by
  let R : List ParseCall → List (Option Bool × Config) → ScannerState × Config → Prop :=
    fun before emitted _ => emitted = before.map fun call => (parse libs {} {} call).1
  have hstep : ∀ before emitted s call, R before emitted s → Unaffected libs s call →
      ∃ s' out, parses libs s call = some (s', out) ∧ R (before ++ [call]) (emitted ++ out) s' := by
    intro before emitted s call hemitted hcall
    refine ⟨((parse libs s.1 s.2 call).2, (parse libs s.1 s.2 call).1.2),
      [(parse libs s.1 s.2 call).1], rfl, ?_⟩
    show emitted ++ _ = (before ++ [call]).map _
    rw [List.map_append, List.map_singleton, parse_eq_fresh libs hcall, hemitted]
  obtain ⟨s, out, hrun, hout⟩ := (parses libs).run_history hstep calls [] [] ({}, {}) rfl h
  rw [List.nil_append, List.nil_append] at hout
  rw [DependsOnFiles, hrun, hout]
  rfl

/-! ### Calls that are affected -/

/-- `text` with `format` for every occurrence of `name`, where the first `skip` characters belong to
    an occurrence replaced already. -/
def replaceAll (name format : Str) : Nat → Str → Str
  | _, [] => []
  | skip + 1, _ :: text => replaceAll name format skip text
  | 0, c :: text =>
    if name.isPrefixOf (c :: text) then format ++ replaceAll name format (name.length - 1) text
    else c :: replaceAll name format 0 text

/-- Libraries as they are on a host without services, for filters named by letters and formats that
    stand for themselves. -/
def plainLibraries : Libraries where
  ipv4Address _ := 0
  ipv6Address _ := 0
  getservbyname _ := none
  regex_replace expr format text := some (replaceAll (expr.drop 1) format 0 text)

/-- A call that reads a small file. -/
def readText (contents : String) : ParseCall where
  contents := some (str contents)
  bytesRead := contents.length

/-- Filters used before they are defined. -/
def usesBefore : ParseCall :=
  readText "multicast \x7b outFilter = \"$a\"; \x7d;\nfilters \x7b a = \"pid > 0\"; \x7d;\n"

/-- Filters defined before they are used. -/
def usesAfter : ParseCall :=
  readText "filters \x7b a = \"pid > 0\"; \x7d;\nmulticast \x7b outFilter = \"$a\"; \x7d;\n"

/-- A service that does not exist, in quotes. -/
def unknownService : ParseCall := readText "loopback \x7b port = \"nosuch\"; \x7d;\n"

/-- Parsing a file a second time gives another `outFilter`, and a good file fails after one that
    failed inside quotes. -/
theorem parses_depend_on_history :
    ¬DependsOnFiles plainLibraries [usesBefore, usesBefore] ∧
      ¬DependsOnFiles plainLibraries [unknownService, usesAfter] := by
  decide +kernel

/-- A stanza without settings, and a newline that is left over when the parser has failed. -/
def emptyStanza : ParseCall := readText "loopback \x7b \x7d\n"

/-- A file that defines its filters first, parsed twice after one that failed at its end. -/
theorem parses_dependsOnFiles_usesAfter :
    DependsOnFiles plainLibraries [emptyStanza, usesAfter, usesAfter] := by
  have hfirst : parse plainLibraries {} {} emptyStanza =
      ((some false, {}), { unread := [MessageFilter.newline] }) := by
    decide +kernel
  have hsecond : (parse plainLibraries { unread := [MessageFilter.newline] } {} usesAfter).2 = {} := by
    decide +kernel
  have hreplaces : replacesFilters plainLibraries
      (parse plainLibraries { unread := [MessageFilter.newline] } {} usesAfter).1.2.filters
      (.config false) (scanner.scanAll .INITIAL (usesAfter.contents.getD [])) = true := by
    decide +kernel
  refine parses_dependsOnFiles plainLibraries _ ⟨?_, ?_⟩
  · exact ⟨ScannerState.atRest_of_blank (by simp), Or.inl rfl⟩
  · rw [parses, hfirst]
    refine ⟨⟨ScannerState.atRest_of_blank (by simp [isBlank, MessageFilter.newline]), Or.inl rfl⟩, ?_⟩
    refine ⟨⟨?_, Or.inr hreplaces⟩, trivial⟩
    show ScannerState.AtRest (parse plainLibraries { unread := [MessageFilter.newline] } {} usesAfter).2
    rw [hsecond]
    exact ScannerState.atRest_of_blank (by simp)

end Config

end Mclog
