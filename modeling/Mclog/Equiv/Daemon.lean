import Mclog.Daemon
import Mclog.Equiv.ConfigFile
import Mclog.Equiv.MessageFilter

/-!
# What a reload leaves running

A reload of mclogd should be all or nothing: `Restart` returns true with the four components on the
new configuration, or it returns false and they are as they were (`Daemon.AllOrNothing`).  Each
component is described by one lemma for its restart, whose result depends on what the configuration
asks for and on the system calls alone (`restart_thread`).  Put together they say exactly which
reloads are all or nothing (`Daemon.allOrNothing_iff`): those that `Daemon.ReloadsCleanly`, since a
reload that fails after it has stopped or started anything does not undo it.
-/

namespace Mclog

open General

/-! ### Threads -/

namespace Mclogd

namespace Thread

variable {γ : Type}

/-- The thread is as a configuration asks for: running with it, or stopped. -/
def On (wanted : Bool) (cfg : γ) (t : Thread γ) : Prop :=
  t.running = wanted ∧ (wanted = true → t.startedWith = some cfg)

instance [DecidableEq γ] (wanted : Bool) (cfg : γ) (t : Thread γ) : Decidable (t.On wanted cfg) :=
  inferInstanceAs (Decidable (_ ∧ _))

/-- The thread stopped, and started if a configuration asks for it. -/
def restart (wanted : Bool) (cfg : γ) (t : Thread γ) : Thread γ :=
  if wanted then .start cfg else t.stop

theorem restart_on (wanted : Bool) (cfg : γ) (t : Thread γ) :
    (t.restart wanted cfg).On wanted cfg := by
  cases wanted with
  | true => exact ⟨rfl, fun _ => rfl⟩
  | false => exact ⟨rfl, fun h => by cases h⟩

@[simp] theorem stop_stop (t : Thread γ) : t.stop.stop = t.stop := rfl

/-- Stopping changes a running thread. -/
theorem stop_eq_iff (t : Thread γ) : t.stop = t ↔ t.running = false := by
  obtain ⟨running, startedWith⟩ := t
  simp [stop, eq_comm]

/-- A restart changes a thread that is not as the configuration asks for. -/
theorem restart_eq_iff (wanted : Bool) (cfg : γ) (t : Thread γ) :
    t.restart wanted cfg = t ↔ t.On wanted cfg := by
  cases wanted with
  | true =>
    obtain ⟨running, startedWith⟩ := t
    simp [restart, start, On, eq_comm]
  | false =>
    show t.stop = t ↔ _
    rw [stop_eq_iff]
    simp [On]

end Thread

/-! ### One component at a time -/

/-- A socket that was closed is as desired if it is not wanted or can be opened. -/
theorem socket_desired (wanted ok : Bool) :
    ((if wanted then ok else false) == wanted) = (!wanted || ok) := by
  cases wanted <;> cases ok <;> rfl

/-- A socket that is wanted is open if it can be opened. -/
theorem socket_joined (wanted ok : Bool) :
    (wanted && if wanted then ok else false) = (wanted && ok) := by
  cases wanted <;> rfl

theorem FileLogger.restart_thread (filescfg : FilesConfig) (fl : FileLogger) :
    fl.restart filescfg = (true, ⟨fl.thread.restart (!filescfg.logs.isEmpty) filescfg⟩) := by
  unfold FileLogger.restart FileLogger.start FileLogger.stop Thread.restart
  cases filescfg.logs.isEmpty <;> rfl

namespace MulticastSender

/-- The system calls let the sender open what a configuration asks for. -/
def Opens (calls : StartCalls) (cfg : MulticastConfig) : Bool :=
  !cfg.shouldRunSender ||
    ((!cfg.shouldSendIpv4 || calls.ipv4) && (!cfg.shouldSendIpv6 || calls.ipv6) && calls.pipe)

variable (driver : MessageFilterDriver) (calls : StartCalls) (config : Config)
  (ms : MulticastSender)

/-- A filter that is no filter expression ends a restart with an exception. -/
theorem restart_of_invalid (h : config.mcast.outFilter ≠ [])
    (hvalid : driver.valid config.mcast.outFilter = false) :
    (ms.restart driver calls config).1 = none := by
  simp [restart, «open», h, hvalid]

theorem restart_thread
    (h : config.mcast.outFilter = [] ∨ driver.valid config.mcast.outFilter = true) :
    (ms.restart driver calls config).1 = some (Opens calls config.mcast) ∧
      (ms.restart driver calls config).2.thread =
        if Opens calls config.mcast then ms.thread.restart config.mcast.shouldRunSender config
        else ms.thread.stop := by
  have hguard : ¬(config.mcast.outFilter ≠ [] ∧ (!driver.valid config.mcast.outFilter) = true) := by
    rintro ⟨hne, hinvalid⟩
    obtain hnil | hvalid := h
    · exact hne hnil
    · rw [hvalid] at hinvalid
      cases hinvalid
  rw [restart, «open», if_neg hguard]
  cases hrun : config.mcast.shouldRunSender with
  | false => simp [Opens, hrun, Thread.restart, close]
  | true =>
    have hopens : Opens calls config.mcast = ((!config.mcast.shouldSendIpv4 || calls.ipv4) &&
        (!config.mcast.shouldSendIpv6 || calls.ipv6) && !false && calls.pipe) := by
      simp [Opens, hrun]
    simp only [openSockets, close, Bool.not_true, Bool.false_eq_true, if_false, Bool.false_or,
      socket_desired, ← hopens]
    cases Opens calls config.mcast <;> exact ⟨rfl, rfl⟩

end MulticastSender

namespace MulticastReceiver

/-- The configuration asks for a receiver. -/
def wanted (cfg : MulticastConfig) : Bool := cfg.shouldJoin4 || cfg.shouldJoin6

/-- The system calls let the receiver join one of the groups that a configuration asks for. -/
def Opens (calls : StartCalls) (cfg : MulticastConfig) : Bool :=
  !wanted cfg || ((cfg.shouldJoin4 && calls.ipv4 || cfg.shouldJoin6 && calls.ipv6) && calls.pipe)

theorem restart_thread (calls : StartCalls) (cfg : Config) (mr : MulticastReceiver) :
    (mr.restart calls cfg).1 = Opens calls cfg.mcast ∧
      (mr.restart calls cfg).2.thread =
        if Opens calls cfg.mcast then mr.thread.restart (wanted cfg.mcast) cfg
        else mr.thread.stop := by
  have hwanted : (cfg.mcast.shouldJoin4 || cfg.mcast.shouldJoin6) = wanted cfg.mcast := rfl
  simp only [restart, «open», close, hwanted]
  cases hw : wanted cfg.mcast with
  | false => simp [Opens, hw, Thread.restart]
  | true =>
    have hopens : Opens calls cfg.mcast = ((cfg.mcast.shouldJoin4 && calls.ipv4 ||
        cfg.mcast.shouldJoin6 && calls.ipv6) && calls.pipe) := by
      simp [Opens, hw]
    simp only [Bool.not_true, Bool.false_eq_true, if_false, Bool.false_or, socket_joined, ← hopens]
    cases Opens calls cfg.mcast <;> exact ⟨rfl, rfl⟩

end MulticastReceiver

namespace LoopbackReceiver

/-- The system calls let the receiver's thread open the sockets that a configuration asks for. -/
def Opens (calls : StartCalls) (cfg : LoopbackConfig) : Bool :=
  (!cfg.wantsIpv4 || calls.ipv4) && (!cfg.wantsIpv6 || calls.ipv6)

theorem restart_thread (calls : StartCalls) (config : Config) (lr : LoopbackReceiver) :
    (lr.restart calls config).1 = calls.pipe ∧
      (lr.restart calls config).2.thread =
        if calls.pipe then
          if Opens calls config.loopback then .start config else (Thread.start config).stop
        else
          lr.thread.stop := by
  have hopens : Opens calls config.loopback =
      (((if config.loopback.wantsIpv4 then calls.ipv4 else false) == config.loopback.wantsIpv4) &&
        ((if config.loopback.wantsIpv6 then calls.ipv6 else false) ==
          config.loopback.wantsIpv6)) := by
    rw [Opens, socket_desired, socket_desired]
  simp only [restart, start, stop, run, ← hopens]
  cases calls.pipe with
  | false => exact ⟨rfl, rfl⟩
  | true => cases Opens calls config.loopback <;> exact ⟨rfl, rfl⟩

end LoopbackReceiver

end Mclogd

/-! ### The daemon -/

open Mclogd

namespace Daemon

/-- The four components: each running or stopped, with the configuration it was last started with. -/
def threads (d : Daemon) : Thread Config × Thread FilesConfig × Thread Config × Thread Config :=
  (d.loopbackReceiver.thread, d.fileLogger.thread, d.mcastSender.thread, d.mcastReceiver.thread)

/-- The four components are on a configuration. -/
structure On (d : Daemon) (cfg : Config) : Prop where
  loopbackReceiver : d.loopbackReceiver.thread.On true cfg
  fileLogger : d.fileLogger.thread.On (!cfg.files.logs.isEmpty) cfg.files
  mcastSender : d.mcastSender.thread.On cfg.mcast.shouldRunSender cfg
  mcastReceiver : d.mcastReceiver.thread.On (Mclogd.MulticastReceiver.wanted cfg.mcast) cfg

theorem on_iff {d : Daemon} {cfg : Config} : d.On cfg ↔
    d.loopbackReceiver.thread.On true cfg ∧
      d.fileLogger.thread.On (!cfg.files.logs.isEmpty) cfg.files ∧
      d.mcastSender.thread.On cfg.mcast.shouldRunSender cfg ∧
      d.mcastReceiver.thread.On (Mclogd.MulticastReceiver.wanted cfg.mcast) cfg :=
  ⟨fun ⟨h₁, h₂, h₃, h₄⟩ => ⟨h₁, h₂, h₃, h₄⟩, fun ⟨h₁, h₂, h₃, h₄⟩ => ⟨h₁, h₂, h₃, h₄⟩⟩

section

variable (libs : ConfigFile.Libraries) (driver : MessageFilterDriver)

/-- What a reload makes of the configuration. -/
def newConfig (d : Daemon) (r : Reload) : Config :=
  (Config.parse libs d.scanner d.config r.file).1.2

/-- A reload is all or nothing: the components are on the new configuration and `Restart` returns
    true, or they are as they were and it returns false. -/
def AllOrNothing (d : Daemon) (r : Reload) : Prop :=
  match d.restart libs driver r with
  | (some true, d') => d'.On (d.newConfig libs r)
  | (some false, d') => d'.threads = d.threads
  | (none, _) => False

/-- A reload succeeds throughout, or it fails where all that it has touched was so before: the loopback
    receiver and the component that fails were stopped, and those before that one are as the new
    configuration asks for. -/
def ReloadsCleanly (d : Daemon) (r : Reload) : Prop :=
  let cfg := d.newConfig libs r
  let loopbackStopped := d.loopbackReceiver.thread.running = false
  let filesOn := d.fileLogger.thread.On (!cfg.files.logs.isEmpty) cfg.files
  let senderOn := d.mcastSender.thread.On cfg.mcast.shouldRunSender cfg
  let receiverOn := d.mcastReceiver.thread.On (Mclogd.MulticastReceiver.wanted cfg.mcast) cfg
  match (Config.parse libs d.scanner d.config r.file).1.1 with
  | none => False
  | some false => loopbackStopped
  | some true =>
    (cfg.mcast.outFilter = [] ∨ driver.valid cfg.mcast.outFilter = true) ∧
      if !Mclogd.MulticastSender.Opens r.mcastSender cfg.mcast then
        loopbackStopped ∧ filesOn ∧ d.mcastSender.thread.running = false
      else if !Mclogd.MulticastReceiver.Opens r.mcastReceiver cfg.mcast then
        loopbackStopped ∧ filesOn ∧ senderOn ∧ d.mcastReceiver.thread.running = false
      else if !r.loopbackReceiver.pipe then
        loopbackStopped ∧ filesOn ∧ senderOn ∧ receiverOn
      else
        LoopbackReceiver.Opens r.loopbackReceiver cfg.loopback = true

/-- The components after the configuration has been parsed: each is restarted if those before it
    could be opened. -/
theorem restartComponents_threads (d : Daemon) (r : Reload)
    (hvalid : d.config.mcast.outFilter = [] ∨ driver.valid d.config.mcast.outFilter = true) :
    let cfg := d.config
    let sender := Mclogd.MulticastSender.Opens r.mcastSender cfg.mcast
    let receiver := Mclogd.MulticastReceiver.Opens r.mcastReceiver cfg.mcast
    let loopback := if LoopbackReceiver.Opens r.loopbackReceiver cfg.loopback then .start cfg
      else (Thread.start cfg).stop
    (d.restartComponents driver r).1 = some (sender && receiver && r.loopbackReceiver.pipe) ∧
      (d.restartComponents driver r).2.threads =
        (if sender && receiver then
            if r.loopbackReceiver.pipe then loopback else d.loopbackReceiver.thread.stop
          else d.loopbackReceiver.thread,
          d.fileLogger.thread.restart (!cfg.files.logs.isEmpty) cfg.files,
          if sender then d.mcastSender.thread.restart cfg.mcast.shouldRunSender cfg
          else d.mcastSender.thread.stop,
          if sender then
            if receiver then
              d.mcastReceiver.thread.restart (Mclogd.MulticastReceiver.wanted cfg.mcast) cfg
            else d.mcastReceiver.thread.stop
          else d.mcastReceiver.thread) := by
  dsimp only
  obtain ⟨hsender, hsenderThread⟩ :=
    d.mcastSender.restart_thread driver r.mcastSender d.config hvalid
  obtain ⟨hreceiver, hreceiverThread⟩ :=
    d.mcastReceiver.restart_thread r.mcastReceiver d.config
  obtain ⟨hloopback, hloopbackThread⟩ :=
    d.loopbackReceiver.restart_thread r.loopbackReceiver d.config
  unfold restartComponents
  rw [FileLogger.restart_thread]
  rcases hms : d.mcastSender.restart driver r.mcastSender d.config with ⟨rc, ms⟩
  rw [hms] at hsender hsenderThread
  obtain rfl : rc = _ := hsender
  rcases hmr : d.mcastReceiver.restart r.mcastReceiver d.config with ⟨rc, mr⟩
  rw [hmr] at hreceiver hreceiverThread
  obtain rfl : rc = _ := hreceiver
  rcases hlr : d.loopbackReceiver.restart r.loopbackReceiver d.config with ⟨rc, lr⟩
  rw [hlr] at hloopback hloopbackThread
  obtain rfl : rc = _ := hloopback
  simp only at hsenderThread hreceiverThread hloopbackThread
  -- Which component is the last one restarted depends on what can be opened.
  cases hs : Mclogd.MulticastSender.Opens r.mcastSender d.config.mcast with
  | false => simp [threads, hsenderThread, hs]
  | true =>
    cases hr : Mclogd.MulticastReceiver.Opens r.mcastReceiver d.config.mcast with
    | false => simp [threads, hsenderThread, hreceiverThread, hs, hr]
    | true => simp [threads, hsenderThread, hreceiverThread, hloopbackThread, hs, hr]

/-- An invalid filter ends a reload with an exception, after the file logger has been restarted. -/
theorem restartComponents_of_invalid (d : Daemon) (r : Reload)
    (hne : d.config.mcast.outFilter ≠ [])
    (hvalid : driver.valid d.config.mcast.outFilter = false) :
    (d.restartComponents driver r).1 = none := by
  have hnone := d.mcastSender.restart_of_invalid driver r.mcastSender d.config hne hvalid
  unfold restartComponents
  rw [FileLogger.restart_thread]
  rcases hms : d.mcastSender.restart driver r.mcastSender d.config with ⟨rc, ms⟩
  rw [hms] at hnone
  obtain rfl : rc = none := hnone
  rfl

/-- **Exactly the clean reloads are all or nothing**, in every state of the daemon. -/
theorem allOrNothing_iff (d : Daemon) (r : Reload) :
    d.AllOrNothing libs driver r ↔ d.ReloadsCleanly libs driver r := by
  unfold AllOrNothing ReloadsCleanly newConfig restart parseConfig
  rcases Config.parse libs d.scanner d.config r.file with ⟨⟨_ | _ | _, cfg⟩, sc⟩
  · exact Iff.rfl
  · -- The file is not valid: only the loopback receiver has been stopped.
    simp [threads, LoopbackReceiver.stop, Thread.stop_eq_iff]
  · -- The file is valid: each way to fail leaves the components restarted before it.
    dsimp only
    by_cases hvalid : cfg.mcast.outFilter = [] ∨ driver.valid cfg.mcast.outFilter = true
    · obtain ⟨hrc, hthreads⟩ := restartComponents_threads driver
        { d with config := cfg, scanner := sc, loopbackReceiver := d.loopbackReceiver.stop } r hvalid
      rcases hres : restartComponents driver
        { d with config := cfg, scanner := sc, loopbackReceiver := d.loopbackReceiver.stop } r
        with ⟨rc, d'⟩
      rw [hres] at hrc hthreads
      obtain rfl : rc = _ := hrc
      dsimp only at hthreads
      rw [and_iff_right hvalid]
      cases hs : Mclogd.MulticastSender.Opens r.mcastSender cfg.mcast with
      | false =>
        show d'.threads = d.threads ↔ _
        rw [hthreads]
        simp [hs, threads, LoopbackReceiver.stop, Thread.stop_eq_iff, Thread.restart_eq_iff]
      | true =>
        cases hr : Mclogd.MulticastReceiver.Opens r.mcastReceiver cfg.mcast with
        | false =>
          show d'.threads = d.threads ↔ _
          rw [hthreads]
          simp [hs, hr, threads, LoopbackReceiver.stop, Thread.stop_eq_iff, Thread.restart_eq_iff]
        | true =>
          cases hp : r.loopbackReceiver.pipe with
          | false =>
            show d'.threads = d.threads ↔ _
            rw [hthreads]
            simp [hs, hr, hp, threads, LoopbackReceiver.stop, Thread.stop_eq_iff,
              Thread.restart_eq_iff]
          | true =>
            -- `Restart` returns true; the loopback receiver's thread may still have ended.
            show d'.On cfg ↔ _
            simp only [hs, hr, hp, Bool.and_self, if_true] at hthreads
            obtain ⟨hl, hthreads⟩ := Prod.mk.inj hthreads
            obtain ⟨hf, hthreads⟩ := Prod.mk.inj hthreads
            obtain ⟨hms, hmr⟩ := Prod.mk.inj hthreads
            rw [on_iff, hl, hf, hms, hmr]
            simp only [Thread.restart_on, and_true]
            cases LoopbackReceiver.Opens r.loopbackReceiver cfg.loopback with
            | false => simp [Thread.On, Thread.stop]
            | true => simp [Thread.On, Thread.start]
    · rw [not_or] at hvalid
      have hnone := restartComponents_of_invalid driver
        { d with config := cfg, scanner := sc, loopbackReceiver := d.loopbackReceiver.stop } r
        hvalid.1 (Bool.eq_false_iff.mpr hvalid.2)
      rcases hres : restartComponents driver
        { d with config := cfg, scanner := sc, loopbackReceiver := d.loopbackReceiver.stop } r
        with ⟨rc, d'⟩
      rw [hres] at hnone
      obtain rfl : rc = none := hnone
      simp [hvalid]

instance (d : Daemon) (cfg : Config) : Decidable (d.On cfg) := decidable_of_iff _ on_iff.symm

instance (d : Daemon) (r : Reload) : Decidable (d.AllOrNothing libs driver r) :=
  match h : d.restart libs driver r with
  | (some true, d') => decidable_of_iff (d'.On (d.newConfig libs r)) (by rw [AllOrNothing, h])
  | (some false, d') => decidable_of_iff (d'.threads = d.threads) (by rw [AllOrNothing, h])
  | (none, _) => decidable_of_iff False (by rw [AllOrNothing, h])

/-- **The reloads of a run are all or nothing exactly if they are clean**, from any state and so in
    every state that mclogd reaches. -/
theorem reloads_allOrNothing_iff (d : Daemon) (rs : List Reload) :
    (reloads libs driver).Meets (AllOrNothing libs driver) d rs ↔
      (reloads libs driver).Meets (ReloadsCleanly libs driver) d rs := by
  have heq : AllOrNothing libs driver = ReloadsCleanly libs driver := by
    funext d r
    exact propext (allOrNothing_iff libs driver d r)
  rw [heq]

/-- What is on a configuration depends on the threads alone. -/
theorem On.of_threads {d d' : Daemon} {cfg : Config} (h : d.On cfg) (heq : d'.threads = d.threads) :
    d'.On cfg := by
  obtain ⟨hl, heq⟩ := Prod.mk.inj heq
  obtain ⟨hf, heq⟩ := Prod.mk.inj heq
  obtain ⟨hs, hr⟩ := Prod.mk.inj heq
  rw [on_iff, hl, hf, hs, hr, ← on_iff]
  exact h

/-- **Clean reloads keep mclogd on one configuration**, and none ends the process. -/
theorem reloads_on (d : Daemon) (rs : List Reload) {cfg : Config} (hd : d.On cfg)
    (h : (reloads libs driver).Meets (ReloadsCleanly libs driver) d rs) :
    ∃ d' rcs, (reloads libs driver).run d rs = some (d', rcs) ∧ ∃ cfg', d'.On cfg' := by
  refine (reloads libs driver).run_invariant (I := fun d => ∃ cfg, d.On cfg) ?_ rs d ⟨cfg, hd⟩ h
  rintro d r ⟨cfg, hd⟩ hclean
  have hall := (allOrNothing_iff libs driver d r).mpr hclean
  unfold AllOrNothing at hall
  unfold reloads
  rcases hres : d.restart libs driver r with ⟨_ | _ | _, d'⟩ <;> rw [hres] at hall
  · exact False.elim hall
  · exact ⟨d', _, rfl, cfg, hd.of_threads hall⟩
  · exact ⟨d', _, rfl, _, hall⟩

end

/-! ### Reloads that stop halfway -/

open Config in
/-- A configuration file that asks for the loopback receiver and one log file. -/
def plainReload : Reload where
  file := readText "files \x7b logs \x7b \x7b path = all; \x7d \x7d; \x7d;\n"

/-- A file that cannot be opened. -/
def missingFile : Reload where
  file := { contents := none }

open Config in
/-- A file with an output filter that is no filter expression. -/
def invalidFilter : Reload where
  file := readText "multicast \x7b outFilter = nonsense; \x7d;\n"

open MessageFilter MessageFilter.Driver in
/-- What mclogd becomes when it starts with `plainReload`. -/
def plainDaemon : Option Daemon :=
  Daemon.start Config.plainLibraries (messageFilterDriver literalEngine ⟨0⟩) plainReload

open MessageFilter MessageFilter.Driver in
/-- After mclogd has started, a file that cannot be opened leaves the loopback receiver stopped, and
    one with an invalid output filter ends the process. -/
theorem reloads_halfway :
    (plainDaemon.map fun d => decide (d.On d.config)) = some true ∧
    (plainDaemon.map fun d => decide (d.AllOrNothing Config.plainLibraries
      (messageFilterDriver literalEngine ⟨0⟩) missingFile)) = some false ∧
    (plainDaemon.map fun d => decide (d.AllOrNothing Config.plainLibraries
      (messageFilterDriver literalEngine ⟨0⟩) invalidFilter)) = some false ∧
    (plainDaemon.map fun d => (d.restart Config.plainLibraries
      (messageFilterDriver literalEngine ⟨0⟩) invalidFilter).1) = some none := by
  refine ⟨?_, ?_, ?_, ?_⟩ <;> decide +kernel

end Daemon

end Mclog
