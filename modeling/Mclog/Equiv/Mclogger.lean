import Mclog.Equiv.Senders
import Mclog.Mclogger

/-!
# What an exit of mclogger with status 0 means

Only the result of `sendto` is looked at: a message that does not fit its packet is replaced by an
empty packet, and names that the decoder rejects are sent as they are.  Status 0 means that the
message arrives as given exactly for the command lines that are `Sendable` (`delivered_iff`).
-/

namespace Mclog

open General

namespace Mclogger

/-! ### Command lines -/

/-- An option of the command line with its argument, which can be attached to the letter if it is
    not empty. -/
structure CommandOption where
  optChar : UInt8
  optarg : Str
  attached : Bool
  optChar_eq : optChar = letter_p ∨ optChar = letter_P

/-- The arguments that an option is made of. -/
def CommandOption.args (o : CommandOption) : List Str :=
  if o.attached ∧ o.optarg ≠ [] then [hyphen :: o.optChar :: o.optarg]
  else [[hyphen, o.optChar], o.optarg]

/-- A command line of the synopsis: options, perhaps `--`, the identifier and the message. -/
structure CommandLine where
  argv0 : Str
  options : List CommandOption
  dashes : Bool
  ident : Str
  message : Str

/-- The arguments. -/
def CommandLine.args (c : CommandLine) : List Str :=
  c.options.flatMap CommandOption.args ++
    ((if c.dashes then [[hyphen, hyphen]] else []) ++ [c.ident, c.message])

/-- The options as `getopt` returns them. -/
def CommandLine.parsed (c : CommandLine) : List (UInt8 × Str) :=
  c.options.map fun o => (o.optChar, o.optarg)

/-- A priority names a facility and a severity. -/
def IsPriority (priority : Str) (p : Facility × Severity) : Prop :=
  ∃ facility severity, (p.1, facility) ∈ g_facilities ∧ (p.2, severity) ∈ g_severityNames ∧
    priority = facility ++ dot :: severity

/-- The priority of the message: what the last `-p` names, user.info if it names none or if there is
    no such option. -/
def CommandLine.Priority (c : CommandLine) (p : Facility × Severity) : Prop :=
  match (c.parsed.filter fun o => o.1 = letter_p).getLast? with
  | some o => IsPriority o.2 p ∨ (∀ q, ¬ IsPriority o.2 q) ∧ p = (.user, .info)
  | none => p = (.user, .info)

/-- What was sent is received as exactly one message, the one that was asked for. -/
def CommandLine.Delivered (io : StreamIO) (c : CommandLine) (e : Exit) : Prop :=
  ∃ port datagram, e.sent = some (port, datagram) ∧ ∀ recvBuf : Vector UInt8 1500,
    ∃ m, LoopbackReceiver.run io recvBuf [datagram] = some [m] ∧
      m.header.origin.appname.value = c.ident ∧ m.message.value = c.message ∧
      c.Priority (m.header.facility, m.header.severity)

/-- What `pktbuf` has room for beside the nonce and the MAC. -/
def pktbufCapacity : Nat := 1024 - k_minPacketLen

/-- The names pass the decoder's checks, nothing is too long for its field, and the message fits the
    packet. -/
structure CommandLine.Sendable (env : Surroundings) (io : StreamIO) (c : CommandLine) : Prop where
  hostname : isValidHostname env.hostname = true
  ident : isValidAppName c.ident = true
  length_ident_le : c.ident.length ≤ 255
  length_message_le : c.message.length ≤ 1500
  fits : ∀ facility severity, c.Priority (facility, severity) →
    encodedSize io ⟨⟨env.now, facility, severity, ⟨⟨env.hostname, env.length_hostname_lt.le⟩,
      ⟨c.ident, length_ident_le⟩, env.getppid⟩⟩, ⟨c.message, length_message_le⟩⟩ ≤ pktbufCapacity

/-! ### The options -/

/-- There are no more operands than arguments. -/
theorem length_operands_le (letters : Str) (args : List Str) {operands : List Str}
    (h : (getopt letters args).2 = some operands) : operands.length ≤ args.length := by
  fun_induction getopt letters args with
  | case1 =>
    obtain rfl := Option.some.inj h
    exact le_rfl
  | case2 arg args hkind =>
    obtain rfl := Option.some.inj h
    exact le_rfl
  | case3 arg args hkind =>
    obtain rfl := Option.some.inj h
    exact Nat.le_succ _
  | case4 => cases h
  | case5 arg args optChar attached hkind hattached options rest heq ih =>
    have hle := ih (by rw [heq]; exact h)
    simp only [List.length_cons]
    omega
  | case6 => cases h
  | case7 arg optChar attached hkind hattached optarg args options rest heq ih =>
    have hle := ih (by rw [heq]; exact h)
    simp only [List.length_cons]
    omega

/-- A hyphen and a letter of an option, with what is attached to them. -/
theorem argumentOf_option {c : UInt8} (hc : c = letter_p ∨ c = letter_P) (attached : Str) :
    argumentOf [letter_p, letter_P] (hyphen :: c :: attached) = .option c attached := by
  obtain rfl | rfl := hc
  · rfl
  · rfl

/-- `getopt` finds an option however its argument is given. -/
theorem getopt_option (o : CommandOption) (args : List Str) :
    getopt [letter_p, letter_P] (o.args ++ args) =
      ((o.optChar, o.optarg) :: (getopt [letter_p, letter_P] args).1,
        (getopt [letter_p, letter_P] args).2) := by
  rw [CommandOption.args]
  split_ifs with hattached
  · rw [List.singleton_append, getopt, argumentOf_option o.optChar_eq]
    simp only [ne_eq, hattached.2, not_false_eq_true, ↓reduceIte]
  · rw [List.cons_append, List.singleton_append, getopt, argumentOf_option o.optChar_eq]
    simp only [ne_eq, not_true_eq_false, ↓reduceIte]

/-- `getopt` finds all options in front of the other arguments. -/
theorem getopt_options (options : List CommandOption) (args : List Str) :
    getopt [letter_p, letter_P] (options.flatMap CommandOption.args ++ args) =
      ((options.map fun o => (o.optChar, o.optarg)) ++ (getopt [letter_p, letter_P] args).1,
        (getopt [letter_p, letter_P] args).2) := by
  induction options with
  | nil => rfl
  | cons o options ih =>
    rw [List.flatMap_cons, List.append_assoc, getopt_option, ih]
    rfl

/-- Where `getopt` leaves two operands, it has found the options and the operands of the command
    line. -/
theorem getopt_args (c : CommandLine) {operands : List Str}
    (h : (getopt [letter_p, letter_P] c.args).2 = some operands) (htwo : 2 ≤ operands.length) :
    getopt [letter_p, letter_P] c.args = (c.parsed, some [c.ident, c.message]) := by
  rw [CommandLine.args, getopt_options] at h ⊢
  suffices htail : getopt [letter_p, letter_P]
      ((if c.dashes then [[hyphen, hyphen]] else []) ++ [c.ident, c.message]) =
        ([], some [c.ident, c.message]) by
    rw [htail, List.append_nil]
    rfl
  by_cases hdashes : c.dashes
  · rw [if_pos hdashes]
    rfl
  rw [if_neg hdashes, List.nil_append] at h ⊢
  -- An identifier that is no operand leaves one argument at most.
  rw [getopt] at h ⊢
  cases hkind : argumentOf [letter_p, letter_P] c.ident with
  | operand => rfl
  | dashes =>
    rw [hkind] at h
    obtain rfl := Option.some.inj h
    simp at htwo
  | unknown =>
    rw [hkind] at h
    cases h
  | option optChar attached =>
    rw [hkind] at h
    by_cases hattached : attached = []
    · have hnone : operands = [] := by simpa [hattached, getopt, eq_comm] using h
      simp [hnone] at htwo
    · have hrest : (getopt [letter_p, letter_P] [c.message]).2 = some operands := by
        simpa [hattached] using h
      have hle := length_operands_le _ _ hrest
      simp only [List.length_singleton] at hle
      omega

/-! ### The priority -/

/-- No name has a dot. -/
theorem dot_notMem_facility : ∀ x ∈ g_facilities, dot ∉ x.2 := by decide

theorem dot_notMem_severity : ∀ x ∈ g_severityNames, dot ∉ x.2 := by decide

/-- The tables and the functions that search them agree. -/
theorem facilityValue_of_mem : ∀ x ∈ g_facilities, facilityValue x.2 = x.1 := by decide +kernel

theorem severityValue_of_mem : ∀ x ∈ g_severityNames, severityValue x.2 = x.1 := by decide +kernel

/-- The expression lists the names of the tables. -/
theorem prgx_eq : prgxFacilities = g_facilities.map Prod.snd ∧
    prgxSeverities = g_severityNames.map Prod.snd := by decide +kernel

/-- `GetPriorityInfo` finds what a priority names. -/
theorem getPriorityInfo_of_isPriority {priority : Str} {p : Facility × Severity}
    (h : IsPriority priority p) : (getPriorityInfo priority).1 = p := by
  obtain ⟨facility, severity, hfacility, hseverity, rfl⟩ := h
  have hmem : (facility, severity) ∈ prgxFacilities ×ˢ prgxSeverities := by
    rw [List.mem_product, prgx_eq.1, prgx_eq.2]
    exact ⟨List.mem_map_of_mem hfacility, List.mem_map_of_mem hseverity⟩
  cases hfind : matchPrgx (facility ++ dot :: severity) with
  | none =>
    have hnot := List.find?_eq_none.mp hfind _ hmem
    simp at hnot
  | some sm =>
    have heq : sm.1 ++ dot :: sm.2 = facility ++ dot :: severity := by
      simpa using List.find?_some hfind
    have hdot : dot ∉ facility := dot_notMem_facility (p.1, facility) hfacility
    have hdot' : dot ∉ severity := dot_notMem_severity (p.2, severity) hseverity
    obtain ⟨hfst, -, hsnd⟩ := (List.append_cons_inj_of_notMem hdot hdot').mp heq.symm
    simp only [getPriorityInfo, hfind, ← hfst, ← hsnd]
    exact Prod.ext (facilityValue_of_mem _ hfacility) (severityValue_of_mem _ hseverity)

/-- Otherwise it takes user.info. -/
theorem getPriorityInfo_of_not {priority : Str} (h : ∀ q, ¬ IsPriority priority q) :
    (getPriorityInfo priority).1 = (.user, .info) := by
  cases hfind : matchPrgx priority with
  | none => simp only [getPriorityInfo, hfind]
  | some sm =>
    have heq : sm.1 ++ dot :: sm.2 = priority := by simpa using List.find?_some hfind
    have hsm := List.mem_of_find?_eq_some hfind
    rw [List.mem_product, prgx_eq.1, prgx_eq.2, List.mem_map, List.mem_map] at hsm
    obtain ⟨⟨x, hx, hfst⟩, ⟨y, hy, hsnd⟩⟩ := hsm
    exact absurd ⟨x.2, y.2, hx, hy, by rw [hfst, hsnd, heq]⟩ (h (x.1, y.1))

/-- An option `-p` sets the priority and no other does. -/
theorem priority_readOption {s s' : Settings} {o : UInt8 × Str} (h : readOption s o = .ok s') :
    s'.priority = if o.1 = letter_p then (getPriorityInfo o.2).1 else s.priority := by
  rw [readOption] at h
  split_ifs at h with hletter
  · rw [if_pos hletter, ← Except.ok.inj h]
    rfl
  rw [if_neg hletter]
  cases hstoul : stoul o.2 with
  | none =>
    rw [hstoul] at h
    cases h
  | some portLong =>
    simp only [hstoul] at h
    split_ifs at h with hlt
    rw [← Except.ok.inj h]

/-- What options leave as the priority. -/
theorem priority_of_foldlM {options : List (UInt8 × Str)} {s s' : Settings}
    (h : options.foldlM readOption s = .ok s') :
    s'.priority = match (options.filter fun o => o.1 = letter_p).getLast? with
      | some o => (getPriorityInfo o.2).1
      | none => s.priority := by
  induction options using List.reverseRecOn generalizing s' with
  | nil =>
    cases h
    rfl
  | append_singleton options o ih =>
    rw [List.foldlM_append] at h
    cases hfold : options.foldlM readOption s with
    | error cerr =>
      rw [hfold] at h
      cases h
    | ok s₁ =>
      rw [hfold] at h
      have hstep : readOption s₁ o >>= pure = .ok s' := h
      rw [bind_pure] at hstep
      rw [List.filter_append, priority_readOption hstep, ih hfold]
      by_cases hletter : o.1 = letter_p
      · simp [hletter]
      · simp [hletter]

/-- The priority of a command line is the one the options leave. -/
theorem priority_iff {c : CommandLine} {s : Settings}
    (h : c.parsed.foldlM readOption Settings.initial = .ok s) (p : Facility × Severity) :
    c.Priority p ↔ p = s.priority := by
  rw [priority_of_foldlM h, CommandLine.Priority]
  cases (c.parsed.filter fun o => o.1 = letter_p).getLast? with
  | none => exact Iff.rfl
  | some o =>
    constructor
    · rintro (hpriority | ⟨hnot, rfl⟩)
      · exact (getPriorityInfo_of_isPriority hpriority).symm
      · exact (getPriorityInfo_of_not hnot).symm
    · rintro rfl
      show IsPriority o.2 (getPriorityInfo o.2).1 ∨ _
      by_cases hex : ∃ q, IsPriority o.2 q
      · obtain ⟨q, hq⟩ := hex
        rw [getPriorityInfo_of_isPriority hq]
        exact Or.inl hq
      · have hnot : ∀ q, ¬ IsPriority o.2 q := fun q hq => hex ⟨q, hq⟩
        exact Or.inr ⟨hnot, getPriorityInfo_of_not hnot⟩

/-- The options leave a facility and a severity that the decoder accepts. -/
theorem acceptable_priority {c : CommandLine} {s : Settings}
    (h : c.parsed.foldlM readOption Settings.initial = .ok s) :
    s.priority.1.code ≤ Facility.local7.code ∧ s.priority.2.code ≤ Severity.debug.code := by
  have hfacility : ∀ x ∈ g_facilities, x.1.code ≤ Facility.local7.code := by decide
  have hseverity : ∀ x ∈ g_severityNames, x.1.code ≤ Severity.debug.code := by decide
  have hpriority := (priority_iff h s.priority).mpr rfl
  have hdefault : Facility.user.code ≤ Facility.local7.code ∧
      Severity.info.code ≤ Severity.debug.code := by decide
  rw [CommandLine.Priority] at hpriority
  split at hpriority
  · obtain ⟨facility, severity, hf, hs, -⟩ | ⟨-, heq⟩ := hpriority
    · exact ⟨hfacility _ hf, hseverity _ hs⟩
    · rw [heq]
      exact hdefault
  · rw [hpriority]
    exact hdefault

/-! ### What is sent -/

section

variable {env : Surroundings} {io : StreamIO}

/-- Status 0 comes from `send` only, with the operands of the command line. -/
theorem send_of_main {c : CommandLine} {e : Exit} (h : main env io c.argv0 c.args = some e)
    (hstatus : e.status = 0) :
    ∃ s, c.parsed.foldlM readOption Settings.initial = .ok s ∧
      send env io s c.ident c.message = some e := by
  rw [main] at h
  cases hoperands : (getopt [letter_p, letter_P] c.args).2 with
  | none =>
    simp only [hoperands] at h
    split at h <;> obtain rfl := Option.some.inj h <;> cases hstatus
  | some operands =>
    simp only [hoperands] at h
    split at h
    · obtain rfl := Option.some.inj h
      cases hstatus
    rename_i s hfold
    split at h
    · rename_i message ident before hreverse
      have hlength : 2 ≤ operands.length := by
        have := congrArg List.length hreverse
        simp only [List.length_reverse, List.length_cons] at this
        omega
      have hargs := getopt_args c hoperands hlength
      rw [hargs] at hfold hoperands
      obtain rfl := Option.some.inj hoperands
      obtain ⟨rfl, rfl, -⟩ : c.message = message ∧ c.ident = ident ∧ [] = before := by
        simpa using hreverse
      exact ⟨s, hfold, h⟩
    · obtain rfl := Option.some.inj h
      cases hstatus

/-- An option that ends the process is reported. -/
theorem ne_nil_of_readOption {s : Settings} {o : UInt8 × Str} {cerr : Str}
    (h : readOption s o = .error cerr) : cerr ≠ [] := by
  have herror : s.cerr ++ str "Invalid port number " ++ o.2 ++ str "\n" ≠ [] :=
    List.append_ne_nil_of_right_ne_nil _ (by decide)
  rw [readOption] at h
  split_ifs at h with hletter
  cases hstoul : stoul o.2 with
  | none =>
    rw [hstoul] at h
    exact Except.error.inj h ▸ herror
  | some portLong =>
    simp only [hstoul] at h
    split_ifs at h with hlt
    exact Except.error.inj h ▸ herror

/-- So is one among several. -/
theorem ne_nil_of_foldlM {options : List (UInt8 × Str)} {s : Settings} {cerr : Str}
    (h : options.foldlM readOption s = .error cerr) : cerr ≠ [] := by
  induction options generalizing s with
  | nil => cases h
  | cons o options ih =>
    rw [List.foldlM_cons] at h
    cases hread : readOption s o with
    | error cerr' =>
      rw [hread] at h
      obtain rfl := Except.error.inj h
      exact ne_nil_of_readOption hread
    | ok s₁ =>
      rw [hread] at h
      exact ih h

/-- The status is 0 or 1, and what goes wrong is reported. -/
theorem reported_of_main {argv0 : Str} {args : List Str} {e : Exit}
    (h : main env io argv0 args = some e) : e.status = 0 ∨ e.status = 1 ∧ e.cerr ≠ [] := by
  have husage (cerr : Str) : cerr ++ usage argv0 ≠ [] := by
    apply List.append_ne_nil_of_right_ne_nil
    apply List.append_ne_nil_of_right_ne_nil
    decide
  rw [main] at h
  dsimp only at h
  split at h
  · rename_i cerr hfold
    rw [← Option.some.inj h]
    exact Or.inr ⟨rfl, ne_nil_of_foldlM hfold⟩
  split at h
  · rw [← Option.some.inj h]
    exact Or.inr ⟨rfl, husage _⟩
  split at h
  · rw [send] at h
    split_ifs at h
    · obtain ⟨msg, hmsg, h⟩ := Option.bind_eq_some_iff.mp h
      obtain ⟨pkt, hpkt, h⟩ := Option.bind_eq_some_iff.mp h
      dsimp only at h
      split_ifs at h
      · rw [← Option.some.inj h]
        exact Or.inl rfl
      · rw [← Option.some.inj h]
        exact Or.inr ⟨rfl, List.append_ne_nil_of_right_ne_nil _ (by decide)⟩
    · rw [← Option.some.inj h]
      refine Or.inr ⟨rfl, ?_⟩
      apply List.append_ne_nil_of_left_ne_nil
      exact List.append_ne_nil_of_right_ne_nil _ (by decide)
  · rw [← Option.some.inj h]
    exact Or.inr ⟨rfl, husage _⟩

/-- What was passed to `sendto` when `send` ends with status 0. -/
theorem sent_of_send {s : Settings} {ident message : Str} {e : Exit}
    (h : send env io s ident message = some e) (hstatus : e.status = 0) :
    ∃ msg pkt, makeMessage env ident s.priority.1 s.priority.2 message = some msg ∧
      MessagePacket.ofBuf env.pktbuf.toList = some pkt ∧
      e.sent = some (s.port, (pkt.add (msg.write io)).2.sendTo) := by
  rw [send] at h
  split_ifs at h
  · obtain ⟨msg, hmsg, h⟩ := Option.bind_eq_some_iff.mp h
    obtain ⟨pkt, hpkt, h⟩ := Option.bind_eq_some_iff.mp h
    refine ⟨msg, pkt, hmsg, hpkt, ?_⟩
    dsimp only at h
    split_ifs at h
    · rw [← Option.some.inj h]
    · rw [← Option.some.inj h] at hstatus
      cases hstatus
  · rw [← Option.some.inj h] at hstatus
    cases hstatus

/-- The message made has what was given in its fields, where that is short enough. -/
theorem makeMessage_eq_some {ident text : Str} {facility : Facility} {severity : Severity}
    {msg : Message} (h : makeMessage env ident facility severity text = some msg) :
    ∃ appname message,
      msg = ⟨⟨env.now, facility, severity,
        ⟨⟨env.hostname, env.length_hostname_lt.le⟩, appname, env.getppid⟩⟩, message⟩ ∧
      (∀ hle : ident.length ≤ 255, appname = ⟨ident, hle⟩) ∧
      ∀ hle : text.length ≤ 1500, message = ⟨text, hle⟩ := by
  obtain ⟨hostname, hhostname, h⟩ := Option.bind_eq_some_iff.mp h
  rw [env.shortStrings.ofString_of_le 255 env.hostname env.length_hostname_lt.le] at hhostname
  obtain rfl := Option.some.inj hhostname
  obtain ⟨appname, happname, h⟩ := Option.bind_eq_some_iff.mp h
  obtain ⟨message, hmessage, h⟩ := Option.bind_eq_some_iff.mp h
  refine ⟨appname, message, (Option.some.inj h).symm, ?_, ?_⟩
  · intro hle
    rw [env.shortStrings.ofString_of_le 255 ident hle] at happname
    exact (Option.some.inj happname).symm
  · intro hle
    rw [env.shortStrings.ofString_of_le 1500 text hle] at hmessage
    exact (Option.some.inj hmessage).symm

/-- What the receiver makes of a packet with one message: that message if it fits the packet and the
    decoder accepts it, and nothing otherwise. -/
theorem run_sendTo_add {pkt : MessagePacket} (h : MessagePacket.ofBuf env.pktbuf.toList = some pkt)
    (msg : Message) (recvBuf : Vector UInt8 1500) :
    LoopbackReceiver.run io recvBuf [(pkt.add (msg.write io)).2.sendTo] =
      some (if encodedSize io msg ≤ pktbufCapacity ∧ msg.Acceptable then [msg] else []) := by
  obtain ⟨hholds, hbuf⟩ := MessagePacket.holds_ofBuf h
  have hlength : pkt.buf.length = 1024 := by rw [hbuf, Vector.length_toList]
  have hrecv : recvBuf.toList.length = 1500 := Vector.length_toList
  have hmin : k_minPacketLen < recvBuf.toList.length := by rw [hrecv]; decide
  have hreceived {bytes : Str} {pkt' : MessagePacket} (hbytes : pkt'.Holds bytes)
      (hsize : pkt'.buf.length = 1024) :
      LoopbackReceiver.run io recvBuf [pkt'.sendTo] = some (Message.readAll io bytes) := by
    have hle := hbytes.length_le
    obtain ⟨buf', -, hloop⟩ := LoopbackReceiver.runLoop_sendTo io hbytes hmin (by omega) []
    rw [LoopbackReceiver.run, hloop, LoopbackReceiver.runLoop, Option.map_some, List.append_nil]
  by_cases hfits : encodedSize io msg ≤ pktbufCapacity
  · have hroom : ([] : Str).length + (msg.write io).length ≤ pkt.buf.length - k_minPacketLen := by
      rw [hlength, List.length_nil, Nat.zero_add]
      exact hfits
    obtain ⟨-, hadd, hsize⟩ := hholds.add_of_le _ hroom
    have hall := Message.readAll_encodeAll io [msg]
    have hone : Codec.encodeAll (Message.write io) [msg] = [] ++ msg.write io := by
      simp [Codec.encodeAll]
    rw [hreceived hadd (hsize.trans hlength), ← hone, hall]
    by_cases hacc : msg.Acceptable
    · simp [hfits, hacc]
    · simp [hacc]
  · -- Nothing is left in a packet that refuses the message.
    have hroom : pkt.buf.length - k_minPacketLen < ([] : Str).length + (msg.write io).length := by
      rw [hlength, List.length_nil, Nat.zero_add]
      exact not_le.mp hfits
    obtain ⟨-, hadd, hsize⟩ := hholds.add_of_lt _ hroom
    have hnone : Message.readAll io [] = [] := Message.readAll_encodeAll io []
    rw [hreceived hadd (hsize.trans hlength), hnone, if_neg (fun h => hfits h.1)]

/-- What is delivered was sendable. -/
theorem sendable_of_delivered {c : CommandLine} {e : Exit}
    (h : main env io c.argv0 c.args = some e) (hstatus : e.status = 0)
    (hdelivered : c.Delivered io e) : c.Sendable env io := by
  obtain ⟨s, hfold, hsend⟩ := send_of_main h hstatus
  obtain ⟨msg, pkt, hmsg, hpkt, hsent⟩ := sent_of_send hsend hstatus
  obtain ⟨appname, message, heq, happname, hmessage⟩ := makeMessage_eq_some hmsg
  obtain ⟨port, datagram, hsent', hall⟩ := hdelivered
  rw [hsent] at hsent'
  obtain ⟨-, rfl⟩ := Prod.mk.inj (Option.some.inj hsent')
  obtain ⟨m, hm, hident, htext, -⟩ := hall (Vector.replicate 1500 0)
  rw [run_sendTo_add hpkt msg, Option.some.injEq] at hm
  split_ifs at hm with hcond
  obtain rfl := List.singleton_inj.mp hm
  obtain ⟨hfits, hacc⟩ := hcond
  -- What came through its field unchanged is no longer than the field.
  have hlident : c.ident.length ≤ 255 := by
    rw [← hident]
    exact msg.header.origin.appname.length_le
  have hltext : c.message.length ≤ 1500 := by
    rw [← htext]
    exact msg.message.length_le
  refine ⟨?_, hident ▸ hacc.appname, hlident, hltext, ?_⟩
  · have hhost := hacc.hostname
    rw [heq] at hhost
    exact hhost
  · intro facility severity hpriority
    have hp := (priority_iff hfold _).mp hpriority
    rw [heq, happname hlident, hmessage hltext, ← hp] at hfits
    exact hfits

/-- What is sendable is delivered. -/
theorem delivered_of_sendable {c : CommandLine} {e : Exit}
    (h : main env io c.argv0 c.args = some e) (hstatus : e.status = 0)
    (hsendable : c.Sendable env io) : c.Delivered io e := by
  obtain ⟨s, hfold, hsend⟩ := send_of_main h hstatus
  obtain ⟨msg, pkt, hmsg, hpkt, hsent⟩ := sent_of_send hsend hstatus
  obtain ⟨appname, message, heq, happname, hmessage⟩ := makeMessage_eq_some hmsg
  have hpriority := (priority_iff hfold s.priority).mpr rfl
  have hacc : msg.Acceptable := by
    obtain ⟨hfacility, hseverity⟩ := acceptable_priority hfold
    rw [heq]
    refine ⟨hsendable.hostname, ?_, hfacility, hseverity⟩
    rw [happname hsendable.length_ident_le]
    exact hsendable.ident
  have hfits : encodedSize io msg ≤ pktbufCapacity := by
    rw [heq, happname hsendable.length_ident_le, hmessage hsendable.length_message_le]
    exact hsendable.fits _ _ hpriority
  refine ⟨_, _, hsent, fun recvBuf => ⟨msg, ?_, ?_, ?_, ?_⟩⟩
  · rw [run_sendTo_add hpkt msg, if_pos ⟨hfits, hacc⟩]
  · rw [heq, happname hsendable.length_ident_le]
  · rw [heq, hmessage hsendable.length_message_le]
  · rw [heq]
    exact hpriority

/-- **What status 0 means.**  When mclogger has exited with status 0, its datagram is received as
    exactly the message that was asked for if and only if the command line is `Sendable`. -/
theorem delivered_iff {c : CommandLine} {e : Exit} (h : main env io c.argv0 c.args = some e)
    (hstatus : e.status = 0) : c.Delivered io e ↔ c.Sendable env io :=
  ⟨sendable_of_delivered h hstatus, delivered_of_sendable h hstatus⟩

variable (env io) in
/-- When the system calls succeed and the options and operands are in order, the status is 0. -/
theorem exists_exit_zero {c : CommandLine} {s : Settings} {msg : Message}
    (hargs : getopt [letter_p, letter_P] c.args = (c.parsed, some [c.ident, c.message]))
    (hfold : c.parsed.foldlM readOption Settings.initial = .ok s) (hsocket : env.socket = true)
    (hmsg : makeMessage env c.ident s.priority.1 s.priority.2 c.message = some msg)
    (hsendto : ∀ port datagram, 0 ≤ env.sendto port datagram) :
    ∃ e, main env io c.argv0 c.args = some e ∧ e.status = 0 := by
  have hlength : k_minPacketLen < env.pktbuf.toList.length := by
    rw [Vector.length_toList]
    decide
  obtain ⟨pkt, hpkt⟩ :=
    Option.isSome_iff_exists.mp ((MessagePacket.ofBuf_isSome_iff _).mpr hlength)
  refine ⟨⟨0, s.cerr, some (s.port, (pkt.add (msg.write io)).2.sendTo)⟩, ?_, rfl⟩
  rw [main, hargs]
  simp only [hfold]
  show send env io s c.ident c.message = _
  rw [send, if_pos hsocket, hmsg, hpkt]
  simp only [Option.bind_eq_bind, Option.bind_some, ge_iff_le, hsendto, ↓reduceIte, Option.pure_def]

end

/-- A host on which the system calls succeed. -/
def plainHost : Surroundings where
  shortStrings := cuttingStrings
  hostname := str "host"
  length_hostname_lt := by decide
  getppid := 1
  now := ⟨1⟩
  pktbuf := Vector.replicate 1024 0
  socket := true
  sendto _ datagram := datagram.length
  strerror := []

/-- `mclogger -p mail.err app hello`. -/
def mailCommand : CommandLine :=
  ⟨str "mclogger", [⟨letter_p, str "mail.err", false, Or.inl rfl⟩], false, str "app", str "hello"⟩

/-- It arrives. -/
theorem delivered_iff_mail :
    ∃ e, main plainHost prefixedStreams mailCommand.argv0 mailCommand.args = some e ∧
      e.status = 0 ∧ mailCommand.Delivered prefixedStreams e := by
  have hmail : getPriorityInfo (str "mail.err") = ((.mail, .err), str "mail.err\n") := by
    decide +kernel
  have hread : readOption Settings.initial (letter_p, str "mail.err") =
      .ok ⟨(.mail, .err), 3737, str "mail.err\n"⟩ := by
    rw [readOption, if_pos rfl, hmail]
    rfl
  have hfold : mailCommand.parsed.foldlM readOption Settings.initial =
      .ok ⟨(.mail, .err), 3737, str "mail.err\n"⟩ := by
    show readOption Settings.initial (letter_p, str "mail.err") >>= pure = _
    rw [bind_pure, hread]
  have hsendable : mailCommand.Sendable plainHost prefixedStreams := by
    refine ⟨by decide, by decide, by decide, by decide, ?_⟩
    intro facility severity hpriority
    have heq : (facility, severity) = (Facility.mail, Severity.err) := by
      obtain hnamed | ⟨hnot, -⟩ := hpriority
      · rw [← getPriorityInfo_of_isPriority hnamed]
        exact congrArg Prod.fst hmail
      · exact absurd ⟨str "mail", str "err", by decide, by decide, rfl⟩ (hnot (.mail, .err))
    obtain ⟨rfl, rfl⟩ := Prod.mk.inj heq
    decide
  obtain ⟨e, he, hstatus⟩ := exists_exit_zero plainHost prefixedStreams
    (c := mailCommand) (by decide) hfold rfl rfl (fun _ _ => Int.natCast_nonneg _)
  exact ⟨e, he, hstatus, (delivered_iff he hstatus).mpr hsendable⟩

/-- `mclogger ident message`. -/
def plainCommand (ident message : Str) : CommandLine := ⟨str "mclogger", [], false, ident, message⟩

/-- **Status 0 for a message that nobody receives**: with a text of 1000 characters, which does not
    fit the packet, and with an identifier that the decoder rejects. -/
theorem success_loses :
    ∃ e₁ e₂ long unnamed, long = plainCommand (str "app") (List.replicate 1000 120) ∧
      unnamed = plainCommand (str "my app") (str "hello") ∧
      main plainHost prefixedStreams long.argv0 long.args = some e₁ ∧ e₁.status = 0 ∧
      ¬ long.Delivered prefixedStreams e₁ ∧
      main plainHost prefixedStreams unnamed.argv0 unnamed.args = some e₂ ∧ e₂.status = 0 ∧
      ¬ unnamed.Delivered prefixedStreams e₂ := by
  have hexit (ident message : Str)
      (hoperand : argumentOf [letter_p, letter_P] ident = .operand) :
      ∃ e, main plainHost prefixedStreams (plainCommand ident message).argv0
        (plainCommand ident message).args = some e ∧ e.status = 0 := by
    have hargs : getopt [letter_p, letter_P] (plainCommand ident message).args =
        ([], some [ident, message]) := by
      show getopt [letter_p, letter_P] [ident, message] = _
      rw [getopt, hoperand]
    exact exists_exit_zero plainHost prefixedStreams
      (c := plainCommand ident message) (s := Settings.initial) hargs rfl rfl rfl
      (fun _ _ => Int.natCast_nonneg _)
  obtain ⟨e₁, he₁, hstatus₁⟩ := hexit (str "app") (List.replicate 1000 120) (by decide)
  obtain ⟨e₂, he₂, hstatus₂⟩ := hexit (str "my app") (str "hello") (by decide)
  refine ⟨e₁, e₂, _, _, rfl, rfl, he₁, hstatus₁, fun h => ?_, he₂, hstatus₂, fun h => ?_⟩
  · have hfits := (sendable_of_delivered (c := plainCommand (str "app") (List.replicate 1000 120))
      he₁ hstatus₁ h).fits .user .info rfl
    have hlen (s : ShortString 1500) :
        (prefixedStreams.shortString1500.encode s).length = 2 + s.value.length := by
      simp [prefixedStreams, shortStringCodec, Codec.map, Codec.lengthPrefixed, Codec.bigEndian]
    have hcap : pktbufCapacity = 984 := rfl
    have htext : (plainCommand (str "app") (List.replicate 1000 120)).message.length = 1000 :=
      List.length_replicate
    rw [encodedSize, Message.write, List.length_append, hlen, hcap, htext] at hfits
    omega
  · have hident := (sendable_of_delivered (c := plainCommand (str "my app") (str "hello"))
      he₂ hstatus₂ h).ident
    exact absurd hident (by decide)

end Mclogger

end Mclog
