import Mclog.Equiv.Message
import Mclog.MessageFiles

/-!
# The three forms of a message

The readers of compressed files check the names after they have read all three fields of the origin,
the stream reader in between.  `Message.fileRead_eq` shows that this makes no difference to what is
read: the file reader gives what the stream reader gives, with the number of bytes it took.  The
round trip of a stream of encodings then carries over to files (`roundTrip_transports`).
-/

namespace Mclog

open General

section

variable (io : StreamIO)

/-- What a stream reader gives, with the number of bytes it took. -/
def counted {α : Type} (read : Str → Option (α × Str)) : FileReader α := fun bs =>
  (read bs).map fun p => (p.1, bs.length - p.2.length, p.2)

@[simp] theorem counted_eq_some_iff {α : Type} (read : Str → Option (α × Str)) (bs : Str) (a : α)
    (n : Nat) (rest : Str) :
    counted read bs = some (a, n, rest) ↔ read bs = some (a, rest) ∧ n = bs.length - rest.length := by
  simp only [counted, Option.map_eq_some_iff, Prod.exists, Prod.mk.injEq]
  constructor
  · rintro ⟨b, r, h, rfl, rfl, rfl⟩
    exact ⟨h, rfl⟩
  · rintro ⟨h, rfl⟩
    exact ⟨a, rest, h, rfl, rfl, rfl⟩

/-- A primitive is read from a file as from a stream. -/
theorem primitiveRead_eq {α : Type} (c : Codec α) : primitiveRead c = counted c.decode := by
  funext bs
  simp only [primitiveRead, counted]
  cases c.decode bs <;> rfl

/-- The origin takes at least one byte. -/
theorem MessageOrigin.read_lt (bs : Str) (o : MessageOrigin) (rest : Str)
    (h : MessageOrigin.read io bs = some (o, rest)) : rest.length < bs.length := by
  obtain ⟨-, -, c₁, c₂, h₁, h₂, h₃⟩ := (MessageOrigin.read_eq_some_iff io _ _ _).mp h
  have := io.shortString255.decode_lt _ _ _ h₁
  have := io.shortString255.decode_lt _ _ _ h₂
  have := io.u32.decode_lt _ _ _ h₃
  omega

/-- The header takes at least one byte. -/
theorem MessageHeader.read_lt (bs : Str) (h : MessageHeader) (rest : Str)
    (hr : MessageHeader.read io bs = some (h, rest)) : rest.length < bs.length := by
  obtain ⟨-, -, b₁, b₂, b₃, h₁, h₂, h₃, ho⟩ := (MessageHeader.read_eq_some_iff io _ _ _).mp hr
  have := io.encodedU64.decode_lt _ _ _ h₁
  have := io.u8.decode_lt _ _ _ h₂
  have := io.u8.decode_lt _ _ _ h₃
  have := MessageOrigin.read_lt io _ _ _ ho
  omega

/-! ### A file reader gives what the stream reader gives -/

/-- Two file readers with the same successes are the same. -/
theorem fileReader_ext {α : Type} {f g : FileReader α}
    (h : ∀ bs a n rest, f bs = some (a, n, rest) ↔ g bs = some (a, n, rest)) : f = g := by
  funext bs
  ext ⟨a, n, rest⟩
  exact h bs a n rest

theorem MessageOrigin.fileRead_eq :
    MessageOrigin.fileRead io = counted (MessageOrigin.read io) := by
  apply fileReader_ext
  intro bs o n rest
  rw [counted_eq_some_iff, MessageOrigin.read_eq_some_iff]
  simp only [MessageOrigin.fileRead, primitiveRead_eq, Option.bind_eq_bind,
    Option.bind_eq_some_iff, Prod.exists, counted_eq_some_iff, Option.ite_none_right_eq_some,
    Option.pure_def, Option.some.injEq, Prod.mk.injEq, Bool.and_eq_true]
  constructor
  · rintro ⟨hn, n₁, bs₁, ⟨h₁, rfl⟩, an, n₂, bs₂, ⟨h₂, rfl⟩, pid, n₃, bs₃, ⟨h₃, rfl⟩, ⟨hv, ha⟩,
      rfl, rfl, rfl⟩
    have := io.shortString255.decode_lt _ _ _ h₁
    have := io.shortString255.decode_lt _ _ _ h₂
    have := io.u32.decode_lt _ _ _ h₃
    exact ⟨⟨hv, ha, bs₁, bs₂, h₁, h₂, h₃⟩, by omega⟩
  · rintro ⟨⟨hv, ha, bs₁, bs₂, h₁, h₂, h₃⟩, rfl⟩
    have := io.shortString255.decode_lt _ _ _ h₁
    have := io.shortString255.decode_lt _ _ _ h₂
    have := io.u32.decode_lt _ _ _ h₃
    exact ⟨_, _, _, ⟨h₁, rfl⟩, _, _, _, ⟨h₂, rfl⟩, _, _, _, ⟨h₃, rfl⟩, ⟨hv, ha⟩, rfl, by omega, rfl⟩

theorem MessageHeader.fileRead_eq :
    MessageHeader.fileRead io = counted (MessageHeader.read io) := by
  apply fileReader_ext
  intro bs h n rest
  rw [counted_eq_some_iff, MessageHeader.read_eq_some_iff]
  simp only [MessageHeader.fileRead, Timestamp.fileRead, primitiveRead_eq,
    MessageOrigin.fileRead_eq, Option.bind_eq_bind, Option.bind_eq_some_iff, Prod.exists,
    counted_eq_some_iff, Option.ite_none_left_eq_some, Option.pure_def, Option.some.injEq,
    Prod.mk.injEq, not_or, UInt8.not_lt]
  constructor
  · rintro ⟨ts, n₁, bs₁, ⟨us, m₁, r₁, ⟨h₁, rfl⟩, rfl, rfl, rfl⟩, fac, n₂, bs₂, ⟨h₂, rfl⟩, sev, n₃,
      bs₃, ⟨h₃, rfl⟩, o, n₄, bs₄, ⟨ho, rfl⟩, ⟨hf, hs⟩, rfl, rfl, rfl⟩
    have := io.encodedU64.decode_lt _ _ _ h₁
    have := io.u8.decode_lt _ _ _ h₂
    have := io.u8.decode_lt _ _ _ h₃
    have := MessageOrigin.read_lt io _ _ _ ho
    exact ⟨⟨hf, hs, _, _, _, h₁, h₂, h₃, ho⟩, by omega⟩
  · rintro ⟨⟨hf, hs, bs₁, bs₂, bs₃, h₁, h₂, h₃, ho⟩, rfl⟩
    have := io.encodedU64.decode_lt _ _ _ h₁
    have := io.u8.decode_lt _ _ _ h₂
    have := io.u8.decode_lt _ _ _ h₃
    have := MessageOrigin.read_lt io _ _ _ ho
    exact ⟨_, _, _, ⟨_, _, _, ⟨h₁, rfl⟩, rfl, rfl, rfl⟩, _, _, _, ⟨h₂, rfl⟩, _, _, _, ⟨h₃, rfl⟩, _, _,
      _, ⟨ho, rfl⟩, ⟨hf, hs⟩, rfl, by omega, rfl⟩

/-- **The readers agree on every input**: the file reader gives what the stream reader gives, and
    the number of bytes it took. -/
theorem Message.fileRead_eq : Message.fileRead io = counted (Message.read io) := by
  apply fileReader_ext
  intro bs m n rest
  rw [counted_eq_some_iff, Message.read_eq_some_iff]
  simp only [Message.fileRead, primitiveRead_eq, MessageHeader.fileRead_eq, Option.bind_eq_bind,
    Option.bind_eq_some_iff, Prod.exists, counted_eq_some_iff, Option.pure_def, Option.some.injEq,
    Prod.mk.injEq]
  constructor
  · rintro ⟨h, n₁, bs₁, ⟨hh, rfl⟩, text, n₂, bs₂, ⟨ht, rfl⟩, rfl, rfl, rfl⟩
    have := MessageHeader.read_lt io _ _ _ hh
    have := io.shortString1500.decode_lt _ _ _ ht
    exact ⟨⟨bs₁, hh, ht⟩, by omega⟩
  · rintro ⟨⟨bs₁, hh, ht⟩, rfl⟩
    have := MessageHeader.read_lt io _ _ _ hh
    have := io.shortString1500.decode_lt _ _ _ ht
    exact ⟨_, _, _, ⟨hh, rfl⟩, _, _, _, ⟨ht, rfl⟩, rfl, by omega, rfl⟩

/-- The read loop of a file delivers what the read loop of a stream delivers. -/
theorem Message.fileReadAll_fileRead (bs : Str) :
    fileReadAll (Message.fileRead io) bs = Message.readAll io bs := by
  have hread : (fun bs => (Message.fileRead io bs).map fun p => (p.1, p.2.2)) =
      Message.read io := by
    funext bs
    rw [Message.fileRead_eq, counted, Option.map_map]
    show (Message.read io bs).map (fun p => (p.1, p.2)) = Message.read io bs
    exact Option.map_id_apply
  rw [fileReadAll, hread, Message.readAll]

end

/-! ### The messages of the round trip -/

/-- A message with names over the documented characters and one of the twenty facilities and of the
    eight severities. -/
structure Message.Regular (m : Message) : Prop where
  hostname_ne_nil : m.header.origin.hostname.value ≠ []
  hostname_chars : ∀ c ∈ m.header.origin.hostname.value, isalnum c ∨ c = dot ∨ c = hyphen
  appname_ne_nil : m.header.origin.appname.value ≠ []
  appname_chars : ∀ c ∈ m.header.origin.appname.value,
    isalnum c ∨ c = dot ∨ c = underscore ∨ c = hyphen
  facility : m.header.facility ∈ g_facilities.map Prod.fst
  severity : m.header.severity ∈ [Severity.emerg, .alert, .crit, .err, .warning, .notice, .info,
    .debug]

/-- Every facility of the table is in the range the decoder lets through. -/
theorem code_le_of_mem_g_facilities {facility : Facility}
    (h : facility ∈ g_facilities.map Prod.fst) : facility.code ≤ Facility.local7.code := by
  revert facility
  decide

/-- A regular message passes the decoder's checks. -/
theorem Message.Regular.acceptable {m : Message} (h : m.Regular) : m.Acceptable := by
  refine ⟨(isValidName_iff _ _).mpr ⟨h.hostname_ne_nil, fun c hc => ?_⟩,
    (isValidName_iff _ _).mpr ⟨h.appname_ne_nil, fun c hc => ?_⟩,
    code_le_of_mem_g_facilities h.facility, ?_⟩
  · have := h.hostname_chars c hc
    simp only [hostnameChar, Bool.or_eq_true, beq_iff_eq]
    tauto
  · have := h.appname_chars c hc
    simp only [appNameChar, Bool.or_eq_true, beq_iff_eq]
    tauto
  · have hsev := h.severity
    revert hsev
    generalize m.header.severity = severity
    revert severity
    decide

/-! ### The round trip -/

section

variable (lib : Transports)

/-- The encoding of a message has the length `StreamedLength` says, on each transport. -/
theorem Message.length_write (m : Message) {io : StreamIO}
    (hio : io ∈ [lib.streamIO, lib.bz2IO, lib.gzIO]) :
    (m.write io).length = m.streamedLength lib := by
  obtain ⟨h8, h32, h64, h255, h1500⟩ := lib.length_encode io hio
  simp only [Message.write, MessageHeader.write, MessageOrigin.write, List.length_append, h8, h32,
    h64, h255, h1500, Message.streamedLength, MessageHeader.streamedLength,
    MessageOrigin.streamedLength]

/-- Reading a stream of encodings of regular messages gives them all back. -/
theorem Message.readAll_encodeAll_of_regular (io : StreamIO) {ms : List Message}
    (h : ∀ m ∈ ms, m.Regular) :
    Message.readAll io (Codec.encodeAll (Message.write io) ms) = ms := by
  rw [Message.readAll_encodeAll, List.takeWhile_eq_self_iff]
  intro m hm
  exact decide_eq_true (h m hm).acceptable

/-- **Round trip on the three transports.**  What is written one after another with `Write`, with
    `BZWrite` or with the `Write` of `gzFile` is read back as the same list by the matching reader,
    and each message takes the bytes `StreamedLength` says. -/
theorem roundTrip_transports (ms : List Message) (h : ∀ m ∈ ms, m.Regular) :
    Message.readAll lib.streamIO (Codec.encodeAll (Message.streamWrite lib) ms) = ms ∧
      fileReadAll (Message.bzRead lib) (Codec.encodeAll (Message.bzWrite lib) ms) = ms ∧
      fileReadAll (Message.gzRead lib) (Codec.encodeAll (Message.gzWrite lib) ms) = ms ∧
      ∀ m ∈ ms, (m.streamWrite lib).length = m.streamedLength lib ∧
        (m.bzWrite lib).length = m.streamedLength lib ∧
        (m.gzWrite lib).length = m.streamedLength lib := by
  refine ⟨?_, ?_, ?_, fun m _ => ⟨?_, ?_, ?_⟩⟩
  · exact Message.readAll_encodeAll_of_regular lib.streamIO h
  · rw [Message.bzRead, Message.fileReadAll_fileRead]
    exact Message.readAll_encodeAll_of_regular lib.bz2IO h
  · rw [Message.gzRead, Message.fileReadAll_fileRead]
    exact Message.readAll_encodeAll_of_regular lib.gzIO h
  · exact m.length_write lib (by simp)
  · exact m.length_write lib (by simp)
  · exact m.length_write lib (by simp)

/-- A message of the daemon itself. -/
def daemonMessage : Message :=
  ⟨⟨⟨1700000000000000⟩, .daemon, .info, ⟨⟨str "plex", by decide⟩, ⟨str "mclogd", by decide⟩, 4242⟩⟩,
    ⟨str "started", by decide⟩⟩

theorem roundTrip_transports_daemonMessage :
    fileReadAll (Message.bzRead (Transports.uniform prefixedStreams))
        (Codec.encodeAll (Message.bzWrite (Transports.uniform prefixedStreams))
          [daemonMessage, daemonMessage]) = [daemonMessage, daemonMessage] := by
  have hhostname : daemonMessage.header.origin.hostname.value.all isalnum = true := by decide
  have happname : daemonMessage.header.origin.appname.value.all isalnum = true := by decide
  have hreg : daemonMessage.Regular := by
    constructor
    case hostname_chars => exact fun c hc => Or.inl (List.all_eq_true.mp hhostname c hc)
    case appname_chars => exact fun c hc => Or.inl (List.all_eq_true.mp happname c hc)
    all_goals decide
  refine (roundTrip_transports (Transports.uniform prefixedStreams) [daemonMessage, daemonMessage]
    ?_).2.1
  intro m hm
  obtain rfl : m = daemonMessage := by simpa using hm
  exact hreg

end

end Mclog
