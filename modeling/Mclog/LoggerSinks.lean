import Mclog.General.Machine
import Mclog.General.Printf
import Mclog.Logger
import Mclog.MessageFilter

/-!
# The sinks of a logger

The part of `Logger` that keeps a list of pointers to sinks: `Open`, `AddSinks`, `RemoveSinks`,
`SetSinks` and `Close`, which callers may give any pointers, and `Log`, which calls every entry of
the list.  `SyslogSink` is the sink that passes messages on to `syslog`; what `errno` stands for in
a format is a parameter.
-/

namespace Mclog

open General

/-! ### The list of sinks -/

/-- The pointers that `_sinks` can have: null, to a sink of a caller, or to the `LoopbackSender`
    that was the `n`-th to be made. -/
inductive SinkPointer (σ : Type) where
  | null
  | caller (sink : σ)
  | loopback (n : Nat)
deriving DecidableEq

/-- A pointer that a caller has given, `none` for null. -/
def SinkPointer.ofCaller {σ : Type} : Option σ → SinkPointer σ
  | none => .null
  | some sink => .caller sink

/-- `Logger`, with the number of `LoopbackSender`s that have been made. -/
structure LoggerSinks (σ : Type) where
  origin : MessageOrigin
  facility : Facility
  minimumSeverity : Severity
  sinks : List (SinkPointer σ)
  loopbackSender : Option Nat
  loopbacksMade : Nat

/-- A call of one of the functions that change the list.  `Open` gets the origin from the host name,
    its identifier or the program's name, and the process id. -/
inductive SinksCall (σ : Type) where
  | open (origin : MessageOrigin) (facility : Facility) (sinks : List (Option σ))
  | addSinks (sinks : List (Option σ))
  | removeSinks (sinks : List (Option σ))
  | setSinks (sinks : List (Option σ))
  | close

namespace LoggerSinks

variable {σ : Type}

/-- `Logger()`. -/
def initial : LoggerSinks σ where
  origin := ⟨ShortString.empty 255, ShortString.empty 255, 0⟩
  facility := .user
  minimumSeverity := .debug
  sinks := []
  loopbackSender := none
  loopbacksMade := 0

/-- `Open`.  A `LoopbackSender` made before is forgotten, not deleted. -/
def «open» (lg : LoggerSinks σ) (origin : MessageOrigin) (facility : Facility)
    (sinks : List (Option σ)) : Bool × LoggerSinks σ :=
  let lg := { lg with origin, facility }
  if sinks = [] then
    (true, { lg with sinks := [.loopback lg.loopbacksMade], loopbackSender := some lg.loopbacksMade,
                     loopbacksMade := lg.loopbacksMade + 1 })
  else
    (true, { lg with sinks := sinks.map SinkPointer.ofCaller })

/-- `AddSinks`: whether there was one to add. -/
def addSinks [DecidableEq σ] (lg : LoggerSinks σ) : List (Option σ) → Bool × LoggerSinks σ
  | [] => (false, lg)
  | sink :: sinks =>
    if .ofCaller sink ∈ lg.sinks then lg.addSinks sinks
    else (true, (addSinks { lg with sinks := lg.sinks ++ [.ofCaller sink] } sinks).2)

/-- `RemoveSinks`, which erases the first entry for each sink: whether there was one. -/
def removeSinks [DecidableEq σ] (lg : LoggerSinks σ) : List (Option σ) → Bool × LoggerSinks σ
  | [] => (false, lg)
  | sink :: sinks =>
    if .ofCaller sink ∈ lg.sinks then
      (true, (removeSinks { lg with sinks := lg.sinks.erase (.ofCaller sink) } sinks).2)
    else lg.removeSinks sinks

/-- `SetSinks`, which also deletes the `LoopbackSender`. -/
def setSinks (lg : LoggerSinks σ) (sinks : List (Option σ)) : LoggerSinks σ :=
  { lg with sinks := (sinks.filterMap id).map .caller, loopbackSender := none }

/-- `Close`. -/
def close (lg : LoggerSinks σ) : Bool × LoggerSinks σ :=
  (true, { lg with sinks := [], loopbackSender := none,
                   origin := ⟨ShortString.empty 255, ShortString.empty 255, 0⟩ })

/-- A call, and the logger after it. -/
def call [DecidableEq σ] (lg : LoggerSinks σ) : SinksCall σ → LoggerSinks σ
  | .open origin facility sinks => (lg.open origin facility sinks).2
  | .addSinks sinks => (lg.addSinks sinks).2
  | .removeSinks sinks => (lg.removeSinks sinks).2
  | .setSinks sinks => lg.setSinks sinks
  | .close => lg.close.2

/-- `Log`: what `Process` is called on, with the message. -/
def log (lg : LoggerSinks σ) (c : LogCall) : List (SinkPointer σ × Message) :=
  if c.severity.code > lg.minimumSeverity.code then []
  else if lg.origin.procid ≠ 0 then
    let logmsg : Message := ⟨⟨c.timestamp, lg.facility, c.severity, lg.origin⟩, c.text⟩
    lg.sinks.map fun sink => (sink, logmsg)
  else []

end LoggerSinks

/-! ### Syslog -/

/-- The directives that take no argument: `%%`, and `%m` for the text of `errno`. -/
def syslogDirective (strerror : Str) (c : UInt8) : Option Str :=
  if c = percent then some [percent]
  else if c = 109 then some strerror
  else none

/-- The text that `Syslog(priority, format)` delivers; `none` where the format asks for an argument
    or is not one, and the behavior is undefined. -/
def syslog (strerror format : Str) : Option Str :=
  Printf.expand percent (syslogDirective strerror) format

/-- `SyslogSink::Process`: the priority, and the text that is delivered. -/
def SyslogSink.process (strerror : Str) (msg : Message) : UInt8 × Option Str :=
  (msg.header.severity.code, syslog strerror (cString msg.message.value))

end Mclog
