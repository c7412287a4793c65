import Mclog.Equiv.FilterScanner
import Mclog.LoggerSinks

/-!
# What the sinks of a logger get

`registered` is what a logger's callers mean by the sinks that are registered: a set, to which calls
add and from which they remove.  `ProcessedOnce` says that a message reaches each of them once and
nothing else.  One call keeps that exactly when it meets `Proper` (`processedOnce_call_iff`): no
null pointers for `Open` and `AddSinks`, and no pointer twice for `Open` and `SetSinks`.

`SyslogSink` delivers the text of a message exactly when the text has no percent sign
(`syslog_verbatim_iff`).
-/

namespace Mclog

open General

/-! ### Registered sinks -/

namespace LoggerSinks

variable {σ : Type}

/-- The sinks in a list of a caller's pointers. -/
def sinksOf (sinks : List (Option σ)) : Set (SinkPointer σ) :=
  {p | ∃ sink, some sink ∈ sinks ∧ p = .caller sink}

/-- The sinks that are registered after a call, if `reg` were before it. -/
def registered (lg : LoggerSinks σ) (reg : Set (SinkPointer σ)) :
    SinksCall σ → Set (SinkPointer σ)
  | .open _ _ sinks => if sinks = [] then {.loopback lg.loopbacksMade} else sinksOf sinks
  | .addSinks sinks => reg ∪ sinksOf sinks
  | .removeSinks sinks => reg \ sinksOf sinks
  | .setSinks sinks => sinksOf sinks
  | .close => ∅

/-- The list has each registered sink once, and nothing else. -/
def Lists (sinks : List (SinkPointer σ)) (reg : Set (SinkPointer σ)) : Prop :=
  sinks.Nodup ∧ ∀ p, p ∈ sinks ↔ p ∈ reg

/-- `Log` goes through the list. -/
theorem log_eq {lg : LoggerSinks σ} (hopen : lg.origin.procid ≠ 0) {c : LogCall}
    (hseverity : c.severity.code ≤ lg.minimumSeverity.code) :
    lg.log c = lg.sinks.map fun sink =>
      (sink, ⟨⟨c.timestamp, lg.facility, c.severity, lg.origin⟩, c.text⟩) := by
  rw [log, if_neg (UInt8.not_lt.mpr hseverity), if_pos hopen]

/-! ### One call -/

theorem null_notMem_sinksOf (sinks : List (Option σ)) : .null ∉ sinksOf sinks := by
  rintro ⟨sink, -, h⟩
  cases h

/-- No null pointer is ever registered. -/
theorem null_notMem_registered {lg : LoggerSinks σ} {reg : Set (SinkPointer σ)}
    (h : .null ∉ reg) (c : SinksCall σ) : .null ∉ registered lg reg c := by
  cases c with
  | «open» origin facility sinks =>
    simp only [registered]
    split_ifs
    · intro hnull
      cases hnull
    · exact null_notMem_sinksOf sinks
  | addSinks sinks => exact fun hmem => hmem.elim h (null_notMem_sinksOf sinks)
  | removeSinks sinks => exact fun hmem => h hmem.1
  | setSinks sinks => exact null_notMem_sinksOf sinks
  | close => exact id

theorem ofCaller_injective : Function.Injective (@SinkPointer.ofCaller σ) := by
  intro p q h
  cases p <;> cases q <;> simp_all [SinkPointer.ofCaller]

/-- The list that `Open` makes. -/
theorem lists_open_iff (sinks : List (Option σ)) :
    Lists (sinks.map SinkPointer.ofCaller) (sinksOf sinks) ↔ none ∉ sinks ∧ sinks.Nodup := by
  rw [Lists, List.nodup_map_iff ofCaller_injective, and_comm]
  refine and_congr_left fun _ => ?_
  constructor
  · intro h hnull
    have hmem : SinkPointer.ofCaller none ∈ sinks.map SinkPointer.ofCaller :=
      List.mem_map_of_mem hnull
    exact null_notMem_sinksOf sinks ((h _).mp hmem)
  · intro hnull p
    rw [List.mem_map]
    constructor
    · rintro ⟨sink, hsink, rfl⟩
      cases sink with
      | none => exact absurd hsink hnull
      | some sink => exact ⟨sink, hsink, rfl⟩
    · rintro ⟨sink, hsink, rfl⟩
      exact ⟨some sink, hsink, rfl⟩

/-- The list that `SetSinks` makes. -/
theorem lists_setSinks_iff (sinks : List (Option σ)) :
    Lists ((sinks.filterMap id).map .caller) (sinksOf sinks) ↔ (sinks.filterMap id).Nodup := by
  have hinj : Function.Injective (@SinkPointer.caller σ) := fun _ _ h => SinkPointer.caller.inj h
  rw [Lists, List.nodup_map_iff hinj]
  refine and_iff_left fun p => ?_
  rw [List.mem_map]
  constructor
  · rintro ⟨sink, hsink, rfl⟩
    exact ⟨sink, by simpa using hsink, rfl⟩
  · rintro ⟨sink, hsink, rfl⟩
    exact ⟨sink, by simpa using hsink, rfl⟩

/-- What null pointers a list of a caller has to do with the sinks in it. -/
theorem mem_map_ofCaller_iff {sinks : List (Option σ)} {p : SinkPointer σ} :
    p ∈ sinks.map SinkPointer.ofCaller ↔ p ∈ sinksOf sinks ∨ p = .null ∧ none ∈ sinks := by
  rw [List.mem_map]
  constructor
  · rintro ⟨sink, hsink, rfl⟩
    cases sink with
    | none => exact Or.inr ⟨rfl, hsink⟩
    | some sink => exact Or.inl ⟨sink, hsink, rfl⟩
  · rintro (⟨sink, hsink, rfl⟩ | ⟨rfl, hnull⟩)
    · exact ⟨some sink, hsink, rfl⟩
    · exact ⟨none, hnull, rfl⟩

variable [DecidableEq σ]

/-- While the logger is open, a message at or above the minimum severity is processed by each
    registered sink exactly once, by nothing else, and nothing else is processed. -/
def ProcessedOnce (lg : LoggerSinks σ) (reg : Set (SinkPointer σ)) : Prop :=
  lg.origin.procid ≠ 0 → ∀ c : LogCall, c.severity.code ≤ lg.minimumSeverity.code →
    (∀ q ∈ lg.log c, q.2 = ⟨⟨c.timestamp, lg.facility, c.severity, lg.origin⟩, c.text⟩) ∧
    ∀ p, (p ∈ reg → ((lg.log c).map Prod.fst).count p = 1) ∧
      (p ∉ reg → ((lg.log c).map Prod.fst).count p = 0)

/-- Messages are processed once when the list has each sink once. -/
theorem processedOnce_iff (lg : LoggerSinks σ) (reg : Set (SinkPointer σ)) :
    ProcessedOnce lg reg ↔ (lg.origin.procid ≠ 0 → Lists lg.sinks reg) := by
  have hfst : ∀ c : LogCall, lg.origin.procid ≠ 0 → c.severity.code ≤ lg.minimumSeverity.code →
      (lg.log c).map Prod.fst = lg.sinks := by
    intro c hopen hseverity
    rw [log_eq hopen hseverity, List.map_map]
    exact List.map_id' lg.sinks
  constructor
  · intro h hopen
    let c : LogCall := ⟨lg.minimumSeverity, ShortString.empty 1500, ⟨0⟩, fun _ => {}, []⟩
    obtain ⟨-, hcount⟩ := h hopen c (UInt8.le_refl _)
    rw [hfst c hopen (UInt8.le_refl _)] at hcount
    constructor
    · apply List.nodup_iff_count_le_one.mpr
      intro p
      by_cases hp : p ∈ reg
      · exact ((hcount p).1 hp).le
      · rw [(hcount p).2 hp]
        exact Nat.zero_le 1
    · intro p
      rw [← List.count_pos_iff]
      by_cases hp : p ∈ reg
      · rw [(hcount p).1 hp]
        exact iff_of_true Nat.one_pos hp
      · rw [(hcount p).2 hp]
        exact iff_of_false (lt_irrefl 0) hp
  · intro h hopen c hseverity
    obtain ⟨hnodup, hmem⟩ := h hopen
    refine ⟨?_, fun p => ?_⟩
    · intro q hq
      rw [log_eq hopen hseverity] at hq
      obtain ⟨sink, -, rfl⟩ := List.mem_map.mp hq
      rfl
    · rw [hfst c hopen hseverity, ← hmem p]
      exact ⟨fun hp => List.count_eq_one_of_mem hnodup hp, fun hp => List.count_eq_zero.mpr hp⟩

/-- A call on a logger that it leaves open has the pointers that the list has to have: none is null
    and none comes twice, where the function does not see to that itself. -/
def Proper (lg : LoggerSinks σ) : SinksCall σ → Prop
  | .open origin _ sinks => origin.procid ≠ 0 → none ∉ sinks ∧ sinks.Nodup
  | .addSinks sinks => lg.origin.procid ≠ 0 → none ∉ sinks
  | .removeSinks _ => True
  | .setSinks sinks => lg.origin.procid ≠ 0 → (sinks.filterMap id).Nodup
  | .close => True

/-- `AddSinks` appends the pointers that are not there yet. -/
theorem addSinks_spec (sinks : List (Option σ)) {lg : LoggerSinks σ} (h : lg.sinks.Nodup) :
    (lg.addSinks sinks).2.sinks.Nodup ∧
      ∀ p, p ∈ (lg.addSinks sinks).2.sinks ↔ p ∈ lg.sinks ∨ p ∈ sinks.map .ofCaller := by
  induction sinks generalizing lg with
  | nil => exact ⟨h, by simp [addSinks]⟩
  | cons sink sinks ih =>
    rw [addSinks]
    split_ifs with hmem
    · obtain ⟨hnodup, hsinks⟩ := ih h
      refine ⟨hnodup, fun p => ?_⟩
      rw [hsinks p, List.map_cons, List.mem_cons]
      constructor
      · rintro (hp | hp)
        · exact Or.inl hp
        · exact Or.inr (Or.inr hp)
      · rintro (hp | rfl | hp)
        · exact Or.inl hp
        · exact Or.inl hmem
        · exact Or.inr hp
    · have happend : (lg.sinks ++ [SinkPointer.ofCaller sink]).Nodup := by
        apply h.append (List.nodup_singleton _)
        exact List.disjoint_singleton.mpr hmem
      obtain ⟨hnodup, hsinks⟩ :=
        @ih { lg with sinks := lg.sinks ++ [.ofCaller sink] } happend
      refine ⟨hnodup, fun p => ?_⟩
      rw [hsinks p, List.map_cons, List.mem_cons, List.mem_append, List.mem_singleton, or_assoc]

/-- `RemoveSinks` leaves the other pointers, where none comes twice. -/
theorem removeSinks_spec (sinks : List (Option σ)) {lg : LoggerSinks σ} (h : lg.sinks.Nodup) :
    (lg.removeSinks sinks).2.sinks.Nodup ∧
      ∀ p, p ∈ (lg.removeSinks sinks).2.sinks ↔ p ∈ lg.sinks ∧ p ∉ sinks.map .ofCaller := by
  induction sinks generalizing lg with
  | nil => exact ⟨h, by simp [removeSinks]⟩
  | cons sink sinks ih =>
    rw [removeSinks]
    split_ifs with hmem
    · obtain ⟨hnodup, hsinks⟩ :=
        @ih { lg with sinks := lg.sinks.erase (SinkPointer.ofCaller sink) } (h.erase _)
      refine ⟨hnodup, fun p => ?_⟩
      rw [hsinks p, h.mem_erase_iff, List.map_cons, List.mem_cons, not_or, and_comm (a := p ≠ _),
        and_assoc]
    · obtain ⟨hnodup, hsinks⟩ := ih h
      refine ⟨hnodup, fun p => ?_⟩
      rw [hsinks p, List.map_cons, List.mem_cons, not_or]
      refine and_congr_right fun hp => ?_
      have hne : p ≠ .ofCaller sink := by
        rintro rfl
        exact hmem hp
      exact (and_iff_right hne).symm

/-- They change nothing but the list. -/
theorem origin_addSinks (lg : LoggerSinks σ) (sinks : List (Option σ)) :
    (lg.addSinks sinks).2.origin = lg.origin := by
  induction sinks generalizing lg with
  | nil => rfl
  | cons sink sinks ih =>
    rw [addSinks]
    split_ifs
    · exact ih lg
    · exact ih _

theorem origin_removeSinks (lg : LoggerSinks σ) (sinks : List (Option σ)) :
    (lg.removeSinks sinks).2.origin = lg.origin := by
  induction sinks generalizing lg with
  | nil => rfl
  | cons sink sinks ih =>
    rw [removeSinks]
    split_ifs
    · exact ih _
    · exact ih lg

/-- **One call** keeps that messages are processed once exactly when it is proper. -/
theorem processedOnce_call_iff {lg : LoggerSinks σ} {reg : Set (SinkPointer σ)}
    (hnull : .null ∉ reg) (h : ProcessedOnce lg reg) (c : SinksCall σ) :
    ProcessedOnce (lg.call c) (registered lg reg c) ↔ Proper lg c := by
  rw [processedOnce_iff] at h ⊢
  cases c with
  | «open» origin facility sinks =>
    by_cases hempty : sinks = []
    · subst hempty
      refine imp_congr_right fun _ => iff_of_true ?_ ⟨by simp, List.nodup_nil⟩
      exact ⟨List.nodup_singleton _, fun p => List.mem_singleton⟩
    · simp only [call, LoggerSinks.open, registered, if_neg hempty]
      exact imp_congr_right fun _ => lists_open_iff sinks
  | addSinks sinks =>
    show ((lg.addSinks sinks).2.origin.procid ≠ 0 → _) ↔ (lg.origin.procid ≠ 0 → _)
    rw [origin_addSinks]
    refine imp_congr_right fun hopen => ?_
    obtain ⟨hnodup, hmem⟩ := h hopen
    obtain ⟨hnodup', hadded⟩ := addSinks_spec sinks hnodup
    -- The list has null exactly when the caller has given it.
    refine (and_iff_right hnodup').trans ⟨fun hlist hgiven => ?_, fun hgiven p => ?_⟩
    · have hin : .null ∈ (lg.addSinks sinks).2.sinks :=
        (hadded _).mpr (Or.inr (List.mem_map_of_mem hgiven))
      exact null_notMem_registered hnull (.addSinks sinks) ((hlist _).mp hin)
    · show p ∈ (lg.addSinks sinks).2.sinks ↔ p ∈ reg ∪ sinksOf sinks
      have hnone : ¬ (p = .null ∧ none ∈ sinks) := fun hp => hgiven hp.2
      rw [hadded, hmem, mem_map_ofCaller_iff, or_iff_left hnone]
      rfl
  | removeSinks sinks =>
    refine iff_of_true (fun hopen => ?_) trivial
    have hopen' : (lg.removeSinks sinks).2.origin.procid ≠ 0 := hopen
    rw [origin_removeSinks] at hopen'
    obtain ⟨hnodup, hmem⟩ := h hopen'
    obtain ⟨hnodup', hremoved⟩ := removeSinks_spec sinks hnodup
    refine ⟨hnodup', fun p => ?_⟩
    show p ∈ (lg.removeSinks sinks).2.sinks ↔ p ∈ reg \ sinksOf sinks
    rw [hremoved, hmem, mem_map_ofCaller_iff]
    constructor
    · rintro ⟨hp, hno⟩
      exact ⟨hp, fun hp' => hno (Or.inl hp')⟩
    · rintro ⟨hp, hno⟩
      refine ⟨hp, ?_⟩
      rintro (hp' | ⟨rfl, -⟩)
      · exact hno hp'
      · exact hnull hp
  | setSinks sinks => exact imp_congr_right fun _ => lists_setSinks_iff sinks
  | close => exact iff_of_true (fun hopen => absurd rfl hopen) trivial

/-! ### Every sequence of calls -/

/-- The logger after some calls. -/
def after (lg : LoggerSinks σ) (calls : List (SinksCall σ)) : LoggerSinks σ := calls.foldl call lg

/-- The sinks that are registered after some calls. -/
def registeredAfter (lg : LoggerSinks σ) (reg : Set (SinkPointer σ)) :
    List (SinksCall σ) → Set (SinkPointer σ)
  | [] => reg
  | c :: calls => registeredAfter (lg.call c) (registered lg reg c) calls

/-- Every call is proper. -/
def ProperCalls (lg : LoggerSinks σ) : List (SinksCall σ) → Prop
  | [] => True
  | c :: calls => Proper lg c ∧ ProperCalls (lg.call c) calls

/-- From a logger for which messages are processed once, they are processed once after each of some
    calls exactly when all of the calls are proper. -/
theorem processedOnce_after_iff (calls : List (SinksCall σ)) {lg : LoggerSinks σ}
    {reg : Set (SinkPointer σ)} (hnull : .null ∉ reg) (h : ProcessedOnce lg reg) :
    (∀ before, before <+: calls →
      ProcessedOnce (lg.after before) (registeredAfter lg reg before)) ↔ ProperCalls lg calls := by
  induction calls generalizing lg reg with
  | nil =>
    refine iff_of_true (fun before hbefore => ?_) trivial
    rw [List.prefix_nil.mp hbefore]
    exact h
  | cons c calls ih =>
    have hnull' : .null ∉ registered lg reg c := null_notMem_registered hnull c
    constructor
    · intro hall
      -- The call itself is the first of the prefixes.
      have hfirst : ProcessedOnce (lg.call c) (registered lg reg c) :=
        hall [c] (List.prefix_append [c] calls)
      refine ⟨(processedOnce_call_iff hnull h c).mp hfirst, (ih hnull' hfirst).mp ?_⟩
      intro before hbefore
      exact hall (c :: before) (List.cons_prefix_cons.mpr ⟨rfl, hbefore⟩)
    · rintro ⟨hproper, hrest⟩ before hbefore
      have hfirst := (processedOnce_call_iff hnull h c).mpr hproper
      cases before with
      | nil => exact h
      | cons c' before =>
        obtain ⟨rfl, hprefix⟩ := List.cons_prefix_cons.mp hbefore
        exact (ih hnull' hfirst).mpr hrest before hprefix

/-- **Registered sinks get each message once**: after each of some calls on a new logger exactly
    when all of the calls are proper. -/
theorem sinks_processOnce_iff (calls : List (SinksCall σ)) :
    (∀ before, before <+: calls →
      ProcessedOnce (initial.after before) (registeredAfter initial ∅ before)) ↔
      ProperCalls initial calls :=
  processedOnce_after_iff calls (Set.notMem_empty _) fun hopen => absurd rfl hopen

end LoggerSinks

/-- An origin of a process. -/
def someOrigin : MessageOrigin := ⟨ShortString.empty 255, ShortString.empty 255, 7⟩

/-- A message of the highest severity. -/
def emergCall : LogCall := ⟨.emerg, ShortString.empty 1500, ⟨0⟩, fun _ => {}, []⟩

/-- A sink given to `Open` twice is processed twice, and once more after it has been removed; a null
    pointer is called. -/
theorem repeated_sink_processed :
    ((LoggerSinks.initial.after [.open someOrigin .user [some 1, some 1]]).log emergCall).map
        Prod.fst = [SinkPointer.caller 1, .caller 1] ∧
      ((LoggerSinks.initial.after
        [.open someOrigin .user [some 1, some 1], .removeSinks [some 1]]).log emergCall).map
          Prod.fst = [SinkPointer.caller 1] ∧
      SinkPointer.caller 1 ∉ LoggerSinks.registeredAfter LoggerSinks.initial ∅
        [.open someOrigin .user [some 1, some 1], .removeSinks [some 1]] ∧
      ((LoggerSinks.initial.after [.open someOrigin .user [(none : Option Nat)]]).log
        emergCall).map Prod.fst = [SinkPointer.null] ∧
      ¬ LoggerSinks.ProcessedOnce
        (LoggerSinks.initial.after [.open someOrigin .user [some 1, some 1]])
        (LoggerSinks.registeredAfter LoggerSinks.initial ∅
          [.open someOrigin .user [some 1, some 1]]) := by
  refine ⟨by decide, by decide, ?_, by decide, ?_⟩
  · exact fun hmem => hmem.2 ⟨1, List.mem_singleton_self _, rfl⟩
  · intro h
    have hcount := (h (by decide) emergCall (by decide)).2 (.caller 1)
    have htwice : (((LoggerSinks.initial.after [.open someOrigin .user [some 1, some 1]]).log
        emergCall).map Prod.fst).count (SinkPointer.caller 1) = 2 := by decide
    by_cases hmem : SinkPointer.caller 1 ∈ LoggerSinks.registeredAfter LoggerSinks.initial ∅
        [.open someOrigin .user [some 1, some 1]]
    · have hone := hcount.1 hmem
      omega
    · have hzero := hcount.2 hmem
      omega

/-! ### Syslog -/

/-- No directive writes as many percent signs as it is written with. -/
theorem syslogDirective_lt {strerror : Str} (hstrerror : percent ∉ strerror) (c : UInt8) (t : Str)
    (h : syslogDirective strerror c = some t) : t.count percent < [percent, c].count percent := by
  unfold syslogDirective at h
  split_ifs at h with hpercent hm
  · obtain rfl := Option.some.inj h
    rw [hpercent]
    decide
  · obtain rfl := Option.some.inj h
    rw [List.count_eq_zero.mpr hstrerror]
    exact List.count_pos_iff.mpr List.mem_cons_self

/-- **Syslog forwarding is verbatim** exactly for the texts that have no percent sign. -/
theorem syslog_verbatim_iff {strerror : Str} (hstrerror : percent ∉ strerror) (msg : Message)
    (hnul : 0 ∉ msg.message.value) :
    (SyslogSink.process strerror msg).2 = some msg.message.value ↔
      percent ∉ msg.message.value := by
  show syslog strerror (cString msg.message.value) = _ ↔ _
  rw [MessageFilter.cString_of_notMem hnul]
  exact Printf.expand_eq_self_iff percent _ (syslogDirective_lt hstrerror) _

/-- A message with a short text. -/
def noticeMessage (text : Str) (h : text.length ≤ 1500) : Message :=
  ⟨⟨⟨0⟩, .user, .info, someOrigin⟩, ⟨text, h⟩⟩

/-- A text without directives. -/
theorem syslog_verbatim_plain :
    (SyslogSink.process (str "Success") (noticeMessage (str "started") (by decide))).2 =
      some (str "started") := by
  have hstrerror : percent ∉ str "Success" := by decide
  exact (syslog_verbatim_iff hstrerror (noticeMessage (str "started") (by decide))
    (by decide)).mpr (by decide)

/-- A percent sign that is doubled is written once, and `%m` is replaced; for a directive that asks
    for an argument nothing is promised. -/
theorem syslog_interprets :
    (SyslogSink.process (str "Success") (noticeMessage (str "100%%") (by decide))).2 =
        some (str "100%") ∧
      (SyslogSink.process (str "Success") (noticeMessage (str "%m?") (by decide))).2 =
        some (str "Success?") ∧
      (SyslogSink.process (str "Success") (noticeMessage (str "50%done") (by decide))).2 =
        none := by
  decide

end Mclog
