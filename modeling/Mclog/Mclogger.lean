import Mclog.MessageFilter
import Mclog.Senders
import Mclog.TextFormat

/-!
# The command mclogger

`mclogger [-P port] [-p priority] ident message` packs one message and sends it to the loopback
address.  What the process finds (the host, its parent, the clock, the results of the system calls)
and the constructors of `Credence::ShortString` are parameters; a command line is a list of
arguments.
-/

namespace Mclog

/-- The constructors of `Credence::ShortString<N>`.  `none` is an exception. -/
structure ShortStrings where
  ofString : (N : Nat) → Str → Option (ShortString N)
  /-- A string that is short enough is kept. -/
  ofString_of_le : ∀ N s (h : s.length ≤ N), ofString N s = some ⟨s, h⟩

/-- Constructors that cut a string that is too long. -/
def cuttingStrings : ShortStrings where
  ofString N s := some ⟨s.take N, List.length_take_le N s⟩
  ofString_of_le N s h := by
    have htake : s.take N = s := List.take_of_length_le h
    simp only [htake]

/-! ### getopt -/

/-- What an argument is to `getopt`. -/
inductive Argument where
  /-- The first operand. -/
  | operand
  /-- `--`, the end of the options. -/
  | dashes
  /-- An option, with the characters behind its letter. -/
  | option (optChar : UInt8) (attached : Str)
  | unknown
deriving DecidableEq

/-- The argument, for options of the given letters. -/
def argumentOf (letters : Str) : Str → Argument
  | first :: c :: attached =>
    if first ≠ hyphen then .operand
    else if c = hyphen ∧ attached = [] then .dashes
    else if c ∈ letters then .option c attached
    else .unknown
  | _ => .operand

/-- The calls of `getopt` as POSIX has it, for options that all have an argument: the options in
    order, then the operands, or `none` when it returns '?'.  The options end at the first operand;
    that glibc's `getopt` also takes options from behind operands is not modelled. -/
def getopt (letters : Str) : List Str → List (UInt8 × Str) × Option (List Str)
  | [] => ([], some [])
  | arg :: args =>
    match argumentOf letters arg with
    | .operand => ([], some (arg :: args))
    | .dashes => ([], some args)
    | .unknown => ([], none)
    | .option optChar attached =>
      if attached ≠ [] then
        let (options, operands) := getopt letters args
        ((optChar, attached) :: options, operands)
      else
        match args with
        | [] => ([], none)
        | optarg :: args =>
          let (options, operands) := getopt letters args
          ((optChar, optarg) :: options, operands)

/-! ### The program -/

/-- What a process of mclogger finds. -/
structure Surroundings where
  shortStrings : ShortStrings
  /-- The bytes before the NUL in `hn`, after `gethostname`. -/
  hostname : Str
  length_hostname_lt : hostname.length < 255
  getppid : UInt32
  now : Timestamp
  /-- The bytes that `pktbuf` happens to hold. -/
  pktbuf : Vector UInt8 1024
  /-- Whether `socket` returns a descriptor. -/
  socket : Bool
  /-- What `sendto` returns for a port and a datagram. -/
  sendto : UInt16 → Str → Int
  strerror : Str

/-- How a process of mclogger ends. -/
structure Exit where
  status : Nat
  cerr : Str
  /-- The port and the datagram that `sendto` was called with. -/
  sent : Option (UInt16 × Str)

namespace Mclogger

variable (env : Surroundings)

/-- `MakeMessage`. -/
def makeMessage (appname : Str) (facility : Facility) (severity : Severity) (msg : Str) :
    Option Message := do
  let hostname ← env.shortStrings.ofString 255 env.hostname
  let appname ← env.shortStrings.ofString 255 appname
  let message ← env.shortStrings.ofString 1500 msg
  pure ⟨⟨env.now, facility, severity, ⟨hostname, appname, env.getppid⟩⟩, message⟩

/-- `Usage`. -/
def usage (argv0 : Str) : Str :=
  str "usage: " ++ argv0 ++ str " [-P port] [-p priority] ident message\n\n" ++
    str "-P port\n" ++
    str "  Specify the UDP port on which mclogd(8) is listening.  The " ++
    str "default port is\n  3737.\n\n" ++
    str "-p priority\n" ++
    str "  Specify the message priority (a dot-separated pair of facility and severity).\n" ++
    str "  The default priority is user.info.\n"

/-- The alternatives of the first group of `prgx`. -/
def prgxFacilities : List Str :=
  [str "kernel", str "user", str "mail", str "daemon", str "auth", str "syslog", str "lpr",
   str "news", str "uucp", str "cron", str "authpriv", str "ftp", str "local0", str "local1",
   str "local2", str "local3", str "local4", str "local5", str "local6", str "local7"]

/-- The alternatives of the second group. -/
def prgxSeverities : List Str :=
  [str "emerg", str "alert", str "crit", str "err", str "warning", str "notice", str "info",
   str "debug"]

/-- `regex_match` with `prgx`: the two groups. -/
def matchPrgx (priority : Str) : Option (Str × Str) :=
  (prgxFacilities ×ˢ prgxSeverities).find? fun sm => sm.1 ++ dot :: sm.2 = priority

/-- `GetPriorityInfo`, with what it prints. -/
def getPriorityInfo (priority : Str) : (Facility × Severity) × Str :=
  match matchPrgx priority with
  | some sm => ((facilityValue sm.1, severityValue sm.2), sm.1 ++ dot :: sm.2 ++ str "\n")
  | none =>
    ((.user, .info), str "warning: invalid priority '" ++ priority ++ str "', using user.info\n")

/-- The variables of `main` that options set, and what has been printed. -/
structure Settings where
  priority : Facility × Severity
  port : UInt16
  cerr : Str

/-- Their values at the start. -/
def Settings.initial : Settings where
  priority := (.user, .info)
  port := 3737
  cerr := []

/-- The letter of the option for the priority. -/
def letter_p : UInt8 := 112

/-- The letter of the option for the port. -/
def letter_P : UInt8 := 80

/-- The body of the loop over the options.  An error is an exit with status 1. -/
def readOption (s : Settings) : UInt8 × Str → Except Str Settings
  | (optChar, optarg) =>
    if optChar = letter_p then
      let (priority, cerr) := getPriorityInfo optarg
      .ok { s with priority, cerr := s.cerr ++ cerr }
    else
      let error := s.cerr ++ str "Invalid port number " ++ optarg ++ str "\n"
      match stoul optarg with
      | some portLong =>
        if portLong < 65536 then .ok { s with port := UInt16.ofNat portLong } else .error error
      | none => .error error

/-- The part of `main` after the options, for its last two arguments. -/
def send (io : StreamIO) (s : Settings) (ident message : Str) : Option Exit := do
  if env.socket then
    let msg ← makeMessage env ident s.priority.1 s.priority.2 message
    let pkt ← MessagePacket.ofBuf env.pktbuf.toList
    let pkt := (pkt.add (msg.write io)).2
    let sendrc := env.sendto s.port pkt.sendTo
    if sendrc ≥ 0 then
      pure { status := 0, cerr := s.cerr, sent := some (s.port, pkt.sendTo) }
    else
      pure { status := 1
             cerr := s.cerr ++ str "error: SendTo(\"127.0.0.1\"," ++ decimal s.port.toNat ++
               str ") failed\n"
             sent := some (s.port, pkt.sendTo) }
  else
    pure { status := 1
           cerr := s.cerr ++ str "socket(PF_INET, SOCK_DGRAM, 0) failed: " ++ env.strerror
           sent := none }

/-- `main`.  `none` is an abort or an exception. -/
def main (io : StreamIO) (argv0 : Str) (args : List Str) : Option Exit :=
  let (options, operands) := getopt [letter_p, letter_P] args
  match options.foldlM readOption Settings.initial with
  | .error cerr => some { status := 1, cerr, sent := none }
  | .ok s =>
    match operands with
    | none => some { status := 1, cerr := s.cerr ++ usage argv0, sent := none }
    | some operands =>
      match operands.reverse with
      | message :: ident :: _ => send env io s ident message
      | _ => some { status := 1, cerr := s.cerr ++ usage argv0, sent := none }

end Mclogger

end Mclog
