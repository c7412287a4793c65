import Mclog.Equiv.ThreadSteps

/-!
# The order in which mclogd stops and starts its components

`Restart` and the branch of `main` for SIGTERM start a component only when it is stopped, and stop the
file logger only after the loopback receiver (`Ordered`).  `Orderly` is what follows for every state:
which threads have ended, and that the loopback receiver has, once the file logger is being stopped.
-/

namespace Mclog

open General

/-! ### The order in which `main` stops and starts -/

namespace DaemonThreads

/-- The component's `Stop` has returned since it was last started. -/
def stopped (d : DaemonThreads) (c : DaemonComponent) : Bool := d.stopPhase c = .returned

/-- The component's thread has ended, if there was one. -/
def Ended (d : DaemonThreads) : DaemonComponent → Prop
  | .loopbackReceiver => d.loopbackReceiver.Joinable
  | .fileLogger => d.fileLogger.Ended
  | .mcastSender => d.mcastSender.Ended
  | .mcastReceiver => d.mcastReceiver.Joinable

/-- What is left for `main` to do starts only what is stopped, stops the file logger only after the
    loopback receiver, starts the latter only with the file logger started, and exits only when all
    are stopped. -/
def Ordered (stopped : DaemonComponent → Bool) : List MainAction → Prop
  | [] => True
  | .stop c :: todo =>
    (c = .fileLogger → stopped .loopbackReceiver) ∧ Ordered (Function.update stopped c true) todo
  | .openMcastSender _ _ :: todo =>
    stopped .mcastSender ∧ Ordered (Function.update stopped .mcastSender false) todo
  | .startFileLogger _ :: todo =>
    stopped .fileLogger ∧ Ordered (Function.update stopped .fileLogger false) todo
  | .startLoopbackReceiver _ :: todo =>
    stopped .loopbackReceiver ∧ stopped .fileLogger = false ∧
      Ordered (Function.update stopped .loopbackReceiver false) todo
  | .openMcastReceiver _ :: todo =>
    stopped .mcastReceiver ∧ Ordered (Function.update stopped .mcastReceiver false) todo
  | .exit :: _ => ∀ c, stopped c

theorem ordered_restartActions (stopped : DaemonComponent → Bool) (r : RestartResults) :
    Ordered stopped (restartActions r) := by
  unfold restartActions
  split_ifs <;> simp [Ordered]

theorem ordered_exitActions (stopped : DaemonComponent → Bool) : Ordered stopped exitActions := by
  have hall : ∀ c : DaemonComponent, c = .loopbackReceiver ∨ c = .mcastSender ∨ c = .fileLogger ∨
      c = .mcastReceiver := by
    intro c
    cases c <;> simp
  unfold exitActions
  refine ⟨by simp, by simp, by simp, by simp, fun c => ?_⟩
  rcases hall c with rfl | rfl | rfl | rfl <;> simp

/-- `main` does things in order, and each `Stop` it is in is the one it has to do next. -/
structure Orderly (d : DaemonThreads) : Prop where
  ordered : Ordered d.stopped d.todo
  stopping : ∀ c, d.stopPhase c = .cleared ∨ d.stopPhase c = .signalled →
    ∃ todo, d.todo = .stop c :: todo
  ended : ∀ c, d.stopPhase c = .returned → d.Ended c
  fileLast : d.fileLogger.stop ≠ .notCalled → d.loopbackReceiver.stop = .returned
  exits : d.exited → ∀ c, d.stopPhase c = .returned

theorem orderly_start (pkt : MessagePacket) (r : RestartResults) : Orderly (start pkt r) := by
  have hphase : ∀ c, (start pkt r).stopPhase c = .returned := by
    intro c
    cases c <;> rfl
  refine ⟨?_, fun c hc => ?_, fun c _ => ?_, fun _ => rfl, fun _ => hphase⟩
  · have hstopped : (start pkt r).stopped = fun _ => true := by
      funext c
      unfold stopped
      rw [hphase c]
      rfl
    rw [hstopped]
    show Ordered _ (startActions r)
    simp [startActions, Ordered]
  · rw [hphase c] at hc
    rcases hc with hc | hc <;> cases hc
  · cases c
    · trivial
    · exact Or.inl rfl
    · exact Or.inl rfl
    · trivial

/-- Nothing is stopped or started. -/
structure Calm (d d' : DaemonThreads) : Prop where
  todo : d'.todo = d.todo
  exited : d'.exited = d.exited
  phase : ∀ c, d'.stopPhase c = d.stopPhase c
  ended : ∀ c, d.Ended c → d'.Ended c

variable {d d' : DaemonThreads}

theorem Orderly.calm (h : Orderly d) (hcalm : Calm d d') : Orderly d' := by
  have hstopped : d'.stopped = d.stopped := by
    funext c
    unfold stopped
    rw [hcalm.phase c]
  refine ⟨?_, fun c hc => ?_, fun c hc => ?_, fun hc => ?_, fun hexited c => ?_⟩
  · rw [hstopped, hcalm.todo]
    exact h.ordered
  · rw [hcalm.phase c] at hc
    rw [hcalm.todo]
    exact h.stopping c hc
  · rw [hcalm.phase c] at hc
    exact hcalm.ended c (h.ended c hc)
  · have hlb := hcalm.phase .loopbackReceiver
    have hfl := hcalm.phase .fileLogger
    simp only [stopPhase] at hlb hfl
    rw [hfl] at hc
    rw [hlb]
    exact h.fileLast hc
  · rw [hcalm.exited] at hexited
    rw [hcalm.phase c]
    exact h.exits hexited c

theorem calm_refl (d : DaemonThreads) : Calm d d := ⟨rfl, rfl, fun _ => rfl, fun _ h => h⟩

theorem Calm.trans {d'' : DaemonThreads} (h : Calm d d') (h' : Calm d' d'') : Calm d d'' :=
  ⟨h'.todo.trans h.todo, h'.exited.trans h.exited, fun c => (h'.phase c).trans (h.phase c),
    fun c hc => h'.ended c (h.ended c hc)⟩

/-- Only the component has changed. -/
inductive Updates (d : DaemonThreads) : DaemonComponent → DaemonThreads → Prop where
  | loopbackReceiver (rt : ReceiverThread) :
      Updates d .loopbackReceiver { d with loopbackReceiver := rt }
  | fileLogger (fl : FileLogger) : Updates d .fileLogger { d with fileLogger := fl }
  | mcastSender (st : SenderThread) : Updates d .mcastSender { d with mcastSender := st }
  | mcastReceiver (rt : ReceiverThread) : Updates d .mcastReceiver { d with mcastReceiver := rt }

/-- The others are as far as they were. -/
theorem Updates.others {c : DaemonComponent} (h : Updates d c d') :
    d'.todo = d.todo ∧ d'.exited = d.exited ∧
      ∀ c', c' ≠ c → d'.stopPhase c' = d.stopPhase c' ∧ (d.Ended c' → d'.Ended c') := by
  cases h
  all_goals
    refine ⟨rfl, rfl, fun c' hc => ?_⟩
    cases c'
    all_goals first | exact absurd rfl hc | exact ⟨rfl, id⟩

/-- A thread that takes a step has not ended. -/
theorem Updates.calm {c : DaemonComponent} (h : Updates d c d')
    (hphase : d'.stopPhase c = d.stopPhase c) (hrunning : ¬d.Ended c) : Calm d d' := by
  obtain ⟨htodo, hexited, hothers⟩ := h.others
  refine ⟨htodo, hexited, fun c' => ?_, fun c' hended => ?_⟩
  · by_cases hc : c' = c
    · rw [hc]
      exact hphase
    · exact (hothers c' hc).1
  · by_cases hc : c' = c
    · rw [hc] at hended
      exact absurd hended hrunning
    · exact (hothers c' hc).2 hended

theorem calm_process (d : DaemonThreads) (source : MessageSource) (msg : Message)
    (sink : DaemonSink) : Calm d (d.process source msg sink) := by
  cases sink with
  | fileLogger =>
    obtain ⟨hstop, hpc, -⟩ := d.fileLogger.process_spec msg
    refine ⟨rfl, rfl, fun c => ?_, fun c hc => ?_⟩
    · cases c
      · rfl
      · exact hstop
      · rfl
      · rfl
    · cases c
      · exact hc
      · show (d.fileLogger.process msg).Ended
        unfold FileLogger.Ended
        rw [hpc]
        exact hc
      · exact hc
      · exact hc
  | mcastSender =>
    obtain ⟨hstop, hpc, -⟩ := d.mcastSender.process_spec d.passes msg
    refine ⟨rfl, rfl, fun c => ?_, fun c hc => ?_⟩
    · cases c
      · rfl
      · rfl
      · exact hstop
      · rfl
    · cases c
      · exact hc
      · exact hc
      · show (d.mcastSender.process d.passes msg).Ended
        unfold SenderThread.Ended
        rw [hpc]
        exact hc
      · exact hc

theorem calm_handed (d : DaemonThreads) (source : MessageSource)
    (out : Option (Message × DaemonSink)) : Calm d (d.handed source out) := by
  cases out with
  | none => exact calm_refl d
  | some p => exact calm_process d source p.1 p.2

/-- A step of a `Stop`. -/
theorem stopStep_spec {c : DaemonComponent} (h : d.stopStep c = some d') :
    d'.todo = d.todo ∧ d'.exited = d.exited ∧ d.stopPhase c ≠ .returned ∧
      (∀ c', d'.stopPhase c' = if c' = c then (d.stopPhase c).next else d.stopPhase c') ∧
      (∀ c', d.Ended c' → d'.Ended c') ∧ (d'.stopPhase c = .returned → d'.Ended c) := by
  have hended : ∀ {rt rt' : ReceiverThread}, rt'.pc = rt.pc → rt.Joinable → rt'.Joinable := by
    intro rt rt' hpc hjoin
    unfold ReceiverThread.Joinable at hjoin ⊢
    rw [hpc]
    exact hjoin
  cases c with
  | loopbackReceiver =>
    obtain ⟨rt, hrt, rfl⟩ := Option.map_eq_some_iff.mp h
    obtain ⟨hnext, hnot, hpc, -, hjoin⟩ := ReceiverThread.stopStep_spec hrt
    refine ⟨rfl, rfl, hnot, fun c' => ?_, fun c' hc' => ?_, fun hret => hended hpc (hjoin hret)⟩
    · cases c' <;> first | exact hnext | rfl
    · cases c' <;> first | exact hended hpc hc' | exact hc'
  | fileLogger =>
    obtain ⟨fl, hfl, rfl⟩ := Option.map_eq_some_iff.mp h
    obtain ⟨hnext, hnot, hpc, -, hdone, -⟩ := FileLogger.stopStep_spec hfl
    have hended : d.fileLogger.Ended → fl.Ended := by
      unfold FileLogger.Ended
      rw [hpc]
      exact id
    refine ⟨rfl, rfl, hnot, fun c' => ?_, fun c' hc' => ?_, hdone⟩
    · cases c' <;> first | exact hnext | rfl
    · cases c' <;> first | exact hended hc' | exact hc'
  | mcastSender =>
    obtain ⟨st, hst, rfl⟩ := Option.map_eq_some_iff.mp h
    obtain ⟨hnext, hnot, hpc, -, hdone, -⟩ :=
      @SenderThread.stopStep_spec prefixedStreams (fun _ _ => True) d.mcastSender st hst
    have hended : d.mcastSender.Ended → st.Ended := by
      unfold SenderThread.Ended
      rw [hpc]
      exact id
    refine ⟨rfl, rfl, hnot, fun c' => ?_, fun c' hc' => ?_, hdone⟩
    · cases c' <;> first | exact hnext | rfl
    · cases c' <;> first | exact hended hc' | exact hc'
  | mcastReceiver =>
    obtain ⟨rt, hrt, rfl⟩ := Option.map_eq_some_iff.mp h
    obtain ⟨hnext, hnot, hpc, -, hjoin⟩ := ReceiverThread.stopStep_spec hrt
    refine ⟨rfl, rfl, hnot, fun c' => ?_, fun c' hc' => ?_, fun hret => hended hpc (hjoin hret)⟩
    · cases c' <;> first | exact hnext | rfl
    · cases c' <;> first | exact hended hpc hc' | exact hc'

/-- A component is started, which has been stopped. -/
structure Started (c : DaemonComponent) (d d' : DaemonThreads) : Prop where
  exited : d'.exited = d.exited
  phase : ∀ c', d'.stopPhase c' = if c' = c then .notCalled else d.stopPhase c'
  ended : ∀ c', c' ≠ c → d.Ended c' → d'.Ended c'

theorem Orderly.started {c : DaemonComponent} (h : Orderly d) (hrunning : d.exited = false)
    (hstarted : Started c d d') (hordered : Ordered (Function.update d.stopped c false) d'.todo)
    (hnext : ∀ c' todo, d.todo ≠ .stop c' :: todo)
    (hloopback : c = .loopbackReceiver → d.stopped .fileLogger = false) : Orderly d' := by
  have hstopped : d'.stopped = Function.update d.stopped c false := by
    funext c'
    unfold stopped
    rw [hstarted.phase c', Function.update_apply]
    split_ifs <;> rfl
  have hquiet : ∀ c', d.stopPhase c' ≠ .cleared ∧ d.stopPhase c' ≠ .signalled := by
    intro c'
    refine ⟨fun hc' => ?_, fun hc' => ?_⟩
    · obtain ⟨todo, htodo⟩ := h.stopping c' (Or.inl hc')
      exact hnext c' todo htodo
    · obtain ⟨todo, htodo⟩ := h.stopping c' (Or.inr hc')
      exact hnext c' todo htodo
  refine ⟨?_, fun c' hc' => ?_, fun c' hc' => ?_, fun hc' => ?_, fun hexited => ?_⟩
  · rw [hstopped]
    exact hordered
  · rw [hstarted.phase c'] at hc'
    split_ifs at hc' with heq
    · rcases hc' with hc' | hc' <;> cases hc'
    · rcases hc' with hc' | hc'
      · exact absurd hc' (hquiet c').1
      · exact absurd hc' (hquiet c').2
  · rw [hstarted.phase c'] at hc'
    split_ifs at hc' with heq
    exact hstarted.ended c' heq (h.ended c' hc')
  · have hlb := hstarted.phase .loopbackReceiver
    have hfl := hstarted.phase .fileLogger
    simp only [stopPhase] at hlb hfl
    rw [hfl] at hc'
    split_ifs at hc' with hfile
    · exact absurd rfl hc'
    · have hreturned := h.fileLast hc'
      rw [hlb]
      split_ifs with hself
      · -- The file logger has been started, so its `Stop` has not been called.
        have hnot := hloopback hself.symm
        have hphase : d.fileLogger.stop ≠ .returned := of_decide_eq_false hnot
        cases hstop : d.fileLogger.stop with
        | notCalled => exact absurd hstop hc'
        | cleared => exact absurd hstop (hquiet .fileLogger).1
        | signalled => exact absurd hstop (hquiet .fileLogger).2
        | returned => exact absurd hstop hphase
      · exact hreturned
  · rw [hstarted.exited, hrunning] at hexited
    cases hexited

/-- A step of the `Stop` that is next. -/
theorem Orderly.stops {c : DaemonComponent} {todo : List MainAction} (h : Orderly d)
    (hrunning : d.exited = false) (htodo : d.todo = .stop c :: todo)
    (hstep : d.stopStep c = some d') : Orderly d' := by
  obtain ⟨htodo', hexited, -, hphase, hended, hdone⟩ := stopStep_spec hstep
  have hordered := h.ordered
  rw [htodo] at hordered
  have hother : ∀ c', c' ≠ c → d'.stopPhase c' = d.stopPhase c' := by
    intro c' hc'
    rw [hphase c', if_neg hc']
  refine ⟨?_, fun c' hc' => ?_, fun c' hc' => ?_, fun hfile => ?_, fun hexited' => ?_⟩
  · rw [htodo', htodo]
    refine ⟨fun hc => ?_, ?_⟩
    · have hlb : DaemonComponent.loopbackReceiver ≠ c := by
        rw [hc]
        simp
      show decide (d'.stopPhase .loopbackReceiver = .returned) = true
      rw [hother _ hlb]
      exact hordered.1 hc
    · have hsame : Function.update d'.stopped c true = Function.update d.stopped c true := by
        ext c'
        rw [Function.update_apply, Function.update_apply]
        split_ifs with hc'
        · rfl
        · unfold stopped
          rw [hother c' hc']
      rw [hsame]
      exact hordered.2
  · rw [htodo', htodo]
    by_cases hcc : c' = c
    · exact ⟨todo, by rw [hcc]⟩
    · rw [hother c' hcc] at hc'
      obtain ⟨todo', hnext⟩ := h.stopping c' hc'
      rw [htodo] at hnext
      exact ⟨todo', hnext⟩
  · by_cases hcc : c' = c
    · rw [hcc] at hc' ⊢
      exact hdone hc'
    · rw [hother c' hcc] at hc'
      exact hended c' (h.ended c' hc')
  · by_cases hc : c = .fileLogger
    · have hlb : d.loopbackReceiver.stop = .returned := of_decide_eq_true (hordered.1 hc)
      have hne : DaemonComponent.loopbackReceiver ≠ c := by
        rw [hc]
        simp
      exact (hother _ hne).trans hlb
    · have hfl : d.fileLogger.stop ≠ .notCalled := by
        have hsame : d'.fileLogger.stop = d.fileLogger.stop := hother .fileLogger (Ne.symm hc)
        rwa [hsame] at hfile
      have hlb := h.fileLast hfl
      by_cases hcl : c = .loopbackReceiver
      · -- It has returned, so that it is not stopped any further.
        have hnext := hphase .loopbackReceiver
        rw [if_pos hcl.symm, hcl] at hnext
        show d'.stopPhase .loopbackReceiver = .returned
        rw [hnext]
        show d.loopbackReceiver.stop.next = .returned
        rw [hlb]
        rfl
      · exact (hother .loopbackReceiver (Ne.symm hcl)).trans hlb
  · rw [hexited, hrunning] at hexited'
    cases hexited'

/-- **`main` keeps the order.** -/
theorem Orderly.main (h : Orderly d) (hrunning : d.exited = false) (hstep : d.mainStep = some d') :
    Orderly d' := by
  have hordered := h.ordered
  unfold mainStep at hstep
  cases htodo : d.todo with
  | nil =>
    rw [htodo] at hstep
    cases hstep
  | cons a todo =>
    rw [htodo] at hstep hordered
    have hnext : (∀ c, a ≠ .stop c) → ∀ c' todo', d.todo ≠ .stop c' :: todo' := by
      intro ha c' todo' heq
      rw [htodo] at heq
      exact ha c' (List.cons.inj heq).1
    cases a with
    | stop c =>
      dsimp only at hstep
      split_ifs at hstep with hreturned
      · -- The component has been stopped: the action is done, and none is being stopped.
        obtain rfl := Option.some.inj hstep
        refine ⟨?_, fun c' hc' => ?_, h.ended, h.fileLast, h.exits⟩
        · have hself : Function.update d.stopped c true = d.stopped := by
            rw [Function.update_eq_self_iff]
            simp [stopped, hreturned]
          have := hordered.2
          rw [hself] at this
          exact this
        · obtain ⟨todo', htodo'⟩ := h.stopping c' hc'
          rw [htodo] at htodo'
          obtain ⟨hcc, -⟩ := List.cons.inj htodo'
          obtain rfl := MainAction.stop.inj hcc
          have hphase : d.stopPhase c = .cleared ∨ d.stopPhase c = .signalled := hc'
          rw [hreturned] at hphase
          rcases hphase with hphase | hphase <;> cases hphase
      · exact h.stops hrunning htodo hstep
    | openMcastSender passes opened =>
      obtain rfl := Option.some.inj hstep
      refine h.started (c := .mcastSender) hrunning ⟨rfl, fun c => ?_, fun c hc hended => ?_⟩ hordered.2
        (hnext (by simp)) (by simp)
      · cases c
        · rfl
        · rfl
        · show (d.mcastSender.openAgain _).stop = _
          unfold SenderThread.openAgain
          split <;> rfl
        · rfl
      · cases c
        · exact hended
        · exact hended
        · exact absurd rfl hc
        · exact hended
    | startFileLogger logs =>
      obtain rfl := Option.some.inj hstep
      refine h.started (c := .fileLogger) hrunning ⟨rfl, fun c => ?_, fun c hc hended => ?_⟩ hordered.2
        (hnext (by simp)) (by simp)
      · cases c
        · rfl
        · exact (d.fileLogger.startAgain_spec logs).1
        · rfl
        · rfl
      · cases c
        · exact hended
        · exact absurd rfl hc
        · exact hended
        · exact hended
    | startLoopbackReceiver loops =>
      obtain rfl := Option.some.inj hstep
      refine h.started (c := .loopbackReceiver) hrunning ⟨rfl, fun c => ?_, fun c hc hended => ?_⟩
        hordered.2.2 (hnext (by simp)) (fun _ => hordered.2.1)
      · cases c <;> rfl
      · cases c
        · exact absurd rfl hc
        · exact hended
        · exact hended
        · exact hended
    | openMcastReceiver loops =>
      obtain rfl := Option.some.inj hstep
      refine h.started (c := .mcastReceiver) hrunning ⟨rfl, fun c => ?_, fun c hc hended => ?_⟩
        hordered.2 (hnext (by simp)) (by simp)
      · cases c <;> rfl
      · cases c
        · exact hended
        · exact hended
        · exact hended
        · exact absurd rfl hc
    | exit =>
      obtain rfl := Option.some.inj hstep
      -- It is only reached with all components stopped.
      have hall : ∀ c, d.stopPhase c = .returned := fun c => of_decide_eq_true (hordered c)
      refine ⟨trivial, fun c hc => ?_, h.ended, h.fileLast, fun _ => hall⟩
      have hphase : d.stopPhase c = .cleared ∨ d.stopPhase c = .signalled := hc
      rw [hall c] at hphase
      rcases hphase with hphase | hphase <;> cases hphase

end DaemonThreads

end Mclog
