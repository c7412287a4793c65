import Mclog.Equiv.MessageFiles
import Mclog.MessageReaders

/-!
# The three read loops deliver the same messages

Each reader is related to one decoder.  For the origin it is the three fields with two checks, in
between for the stream (`StreamPrimitives.originRead_reads`) and at the end for a compressed file
(`FilePrimitives.originRead_reads`); that the two decoders are the same is
`Decoder.check_seq` and `Decoder.seq_check`.  The loops then deliver what the decoder of
`Message::Read` gives until it fails, whatever the bytes (`readLoops_agree`).
-/

namespace Mclog

open General

/-! ### The decoders -/

/-- The fields of an origin, as the `V` forms go over them. -/
def MessageOrigin.ofFields (p : ShortString 255 × ShortString 255 × UInt32) : MessageOrigin :=
  ⟨p.1, p.2.1, p.2.2⟩

/-- The fields of a header, as the `V` forms go over them. -/
def MessageHeader.ofFields (p : Timestamp × UInt8 × UInt8 × MessageOrigin) : MessageHeader :=
  ⟨p.1, ⟨p.2.1⟩, ⟨p.2.2.1⟩, p.2.2.2⟩

/-- The range check of a header. -/
def MessageHeader.inRange (p : Timestamp × UInt8 × UInt8 × MessageOrigin) : Bool :=
  p.2.1 ≤ Facility.local7.code && p.2.2.1 ≤ Severity.debug.code

theorem MessageHeader.inRange_iff (p : Timestamp × UInt8 × UInt8 × MessageOrigin) :
    MessageHeader.inRange p = true ↔
      ¬ (Facility.local7.code < p.2.1 ∨ Severity.debug.code < p.2.2.1) := by
  simp [MessageHeader.inRange, not_or, UInt8.not_lt]

section

variable (io : StreamIO)

/-- The decoder of a timestamp. -/
def Timestamp.decoder : Decoder Timestamp := Decoder.map Timestamp.mk io.encodedU64.decode

/-- The origin with each name checked where it is read. -/
theorem MessageOrigin.read_eq_checks_between :
    MessageOrigin.read io =
      (((Decoder.check (fun s => isValidHostname s.value) io.shortString255.decode).seq
        ((Decoder.check (fun s => isValidAppName s.value) io.shortString255.decode).seq
          io.u32.decode)).map MessageOrigin.ofFields) := by
  apply Decoder.ext_some
  intro bs o rest
  simp only [MessageOrigin.read_eq_some_iff, Decoder.map_eq_some_iff, Prod.exists,
    Decoder.seq_eq_some_iff, Decoder.check_eq_some_iff]
  constructor
  · rintro ⟨hv, ha, bs₁, bs₂, h₁, h₂, h₃⟩
    exact ⟨_, _, _, ⟨bs₁, ⟨h₁, hv⟩, bs₂, ⟨h₂, ha⟩, h₃⟩, rfl⟩
  · rintro ⟨hn, an, pid, ⟨bs₁, ⟨h₁, hv⟩, bs₂, ⟨h₂, ha⟩, h₃⟩, rfl⟩
    exact ⟨hv, ha, bs₁, bs₂, h₁, h₂, h₃⟩

/-- The origin with both names checked at the end. -/
theorem MessageOrigin.read_eq_checks_last :
    MessageOrigin.read io =
      ((Decoder.seq io.shortString255.decode
        (Decoder.seq io.shortString255.decode io.u32.decode)).check fun p =>
          isValidAppName p.2.1.value && isValidHostname p.1.value).map MessageOrigin.ofFields := by
  rw [MessageOrigin.read_eq_checks_between, Decoder.check_seq, Decoder.check_seq,
    Decoder.seq_check, Decoder.check_check]

/-- The header is its four fields, with the ranges checked at the end. -/
theorem MessageHeader.read_eq :
    MessageHeader.read io =
      (((Timestamp.decoder io).seq (Decoder.seq io.u8.decode (Decoder.seq io.u8.decode
        (MessageOrigin.read io)))).check MessageHeader.inRange).map MessageHeader.ofFields := by
  apply Decoder.ext_some
  intro bs h rest
  simp only [MessageHeader.read_eq_some_iff, Timestamp.decoder, Decoder.map_eq_some_iff, Prod.exists,
    Decoder.seq_eq_some_iff, Decoder.check_eq_some_iff, MessageHeader.inRange, Bool.and_eq_true,
    decide_eq_true_eq]
  constructor
  · rintro ⟨hf, hs, bs₁, bs₂, bs₃, h₁, h₂, h₃, ho⟩
    exact ⟨_, _, _, _, ⟨⟨bs₁, ⟨_, h₁, rfl⟩, bs₂, h₂, bs₃, h₃, ho⟩, hf, hs⟩, rfl⟩
  · rintro ⟨ts, fac, sev, o, ⟨⟨bs₁, ⟨us, h₁, rfl⟩, bs₂, h₂, bs₃, h₃, ho⟩, hf, hs⟩, rfl⟩
    exact ⟨hf, hs, bs₁, bs₂, bs₃, h₁, h₂, h₃, ho⟩

/-- The message is its header and its text. -/
theorem Message.read_eq :
    Message.read io = (Decoder.seq (MessageHeader.read io) io.shortString1500.decode).map
      fun p => ⟨p.1, p.2⟩ := by
  apply Decoder.ext_some
  intro bs m rest
  simp only [Message.read_eq_some_iff, Decoder.map_eq_some_iff, Prod.exists,
    Decoder.seq_eq_some_iff]
  constructor
  · rintro ⟨bs₁, hh, ht⟩
    exact ⟨_, _, ⟨bs₁, hh, ht⟩, rfl⟩
  · rintro ⟨h, text, ⟨bs₁, hh, ht⟩, rfl⟩
    exact ⟨bs₁, hh, ht⟩

end

/-! ### The stream readers -/

namespace StreamPrimitives

section

variable {lib : StreamPrimitives} {io : StreamIO} (h : lib.Accepts io)

include h

theorem timestampRead_reads : lib.timestampRead.Reads (Timestamp.decoder io) where
  success := by
    intro ts₀ bs ts rest hd
    obtain ⟨eu64, heu, rfl⟩ := Decoder.map_eq_some_iff.mp hd
    simp [timestampRead, h.encodedU64.success 0 heu]
  failure := by
    intro ts₀ bs hd
    have hfail := h.encodedU64.failure 0 (Option.map_eq_none_iff.mp hd)
    simp only [timestampRead, hfail, if_true]

/-- The stream reader checks each name where it is read. -/
theorem originRead_reads : lib.originRead.Reads (MessageOrigin.read io) := by
  have hfields := ((h.shortString255.check fun s => isValidHostname s.value).seq
    ((h.shortString255.check fun s => isValidAppName s.value).seq h.u32)).map
      MessageOrigin.ofFields fun o => (o.hostname, o.appname, o.procid)
  rw [← MessageOrigin.read_eq_checks_between] at hfields
  -- The nested tests of the source are the tests between the fields.
  have hsame : lib.originRead = fun o is =>
      (MessageOrigin.ofFields (((lib.shortString255.check fun s => isValidHostname s.value).seq
        ((lib.shortString255.check fun s => isValidAppName s.value).seq lib.u32))
          (o.hostname, o.appname, o.procid) is).1,
        (((lib.shortString255.check fun s => isValidHostname s.value).seq
          ((lib.shortString255.check fun s => isValidAppName s.value).seq lib.u32))
            (o.hostname, o.appname, o.procid) is).2) := by
    funext o is
    simp only [originRead, StreamReader.seq, StreamReader.check, MessageOrigin.ofFields]
    split_ifs <;> simp_all
  rw [hsame]
  exact hfields

/-- The stream reader of the header checks the ranges after the four fields. -/
theorem headerRead_reads : lib.headerRead.Reads (MessageHeader.read io) := by
  have hfields := (((timestampRead_reads h).seq (h.u8.seq (h.u8.seq (originRead_reads h)))).check
    MessageHeader.inRange).map MessageHeader.ofFields
      fun hd => (hd.timestamp, hd.facility.code, hd.severity.code, hd.origin)
  rw [← MessageHeader.read_eq] at hfields
  have hsame : lib.headerRead = fun hd is =>
      let r := (lib.timestampRead.seq (lib.u8.seq (lib.u8.seq lib.originRead))).check
        MessageHeader.inRange
      (MessageHeader.ofFields (r (hd.timestamp, hd.facility.code, hd.severity.code, hd.origin) is).1,
        (r (hd.timestamp, hd.facility.code, hd.severity.code, hd.origin) is).2) := by
    funext hd is
    simp only [headerRead, StreamReader.check, MessageHeader.ofFields, MessageHeader.inRange_iff]
    split_ifs <;> simp_all
  rw [hsame]
  exact hfields

theorem messageRead_reads : lib.messageRead.Reads (Message.read io) := by
  have hfields := ((headerRead_reads h).seq h.shortString1500).map (fun p => Message.mk p.1 p.2)
    fun m => (m.header, m.message)
  rw [← Message.read_eq] at hfields
  have hsame : lib.messageRead = fun m is =>
      (Message.mk ((lib.headerRead.seq lib.shortString1500) (m.header, m.message) is).1.1
        ((lib.headerRead.seq lib.shortString1500) (m.header, m.message) is).1.2,
        ((lib.headerRead.seq lib.shortString1500) (m.header, m.message) is).2) := by
    funext m is
    simp only [messageRead, StreamReader.seq]
    split_ifs <;> rfl
  rw [hsame]
  exact hfields

end

end StreamPrimitives

/-! ### The readers of compressed files -/

namespace FilePrimitives

section

variable {lib : FilePrimitives} {io : StreamIO} (h : lib.Accepts io)

include h

theorem timestampRead_reads : lib.timestampRead.Reads (Timestamp.decoder io) where
  success := by
    intro ts₀ bs ts rest hd
    obtain ⟨eu64, heu, rfl⟩ := Decoder.map_eq_some_iff.mp hd
    obtain ⟨n, hn, hr⟩ := h.encodedU64.success 0 heu
    exact ⟨n, hn, by simp only [timestampRead, hr, if_pos hn]⟩
  failure := by
    intro ts₀ bs hd
    have hn := h.encodedU64.failure 0 (Option.map_eq_none_iff.mp hd)
    simp only [timestampRead, if_neg (not_lt.mpr hn)]
    exact hn

/-- The file reader checks both names after the three fields. -/
theorem originRead_reads : lib.originRead.Reads (MessageOrigin.read io) := by
  have hfields := h.shortString255.seq (h.shortString255.seq h.u32)
  have hchecked : CountReader.Reads
      (fun p bs => ((lib.originRead (MessageOrigin.ofFields p) bs).1,
        ((lib.shortString255.seq (lib.shortString255.seq lib.u32)) p bs).2))
      (Decoder.check (fun p => isValidAppName p.2.1.value && isValidHostname p.1.value)
        (Decoder.seq io.shortString255.decode
          (Decoder.seq io.shortString255.decode io.u32.decode))) := by
    apply hfields.check
    · exact fun _ _ => rfl
    · rintro ⟨hostname, appname, procid⟩ bs
      simp only [originRead, MessageOrigin.ofFields, Bool.and_eq_true]
      split_ifs with hread hvalid
      · exact ⟨fun _ => ⟨hread, hvalid.2, hvalid.1⟩, fun _ => hread⟩
      · exact ⟨fun hn => absurd hn (by decide), fun hn => absurd ⟨hn.2.2, hn.2.1⟩ hvalid⟩
      · exact ⟨fun hn => absurd hn (by decide), fun hn => absurd hn.1 hread⟩
  have hread := hchecked.map MessageOrigin.ofFields fun o => (o.hostname, o.appname, o.procid)
  rw [← MessageOrigin.read_eq_checks_last] at hread
  exact hread

/-- The file reader of the header checks the ranges after the four fields. -/
theorem headerRead_reads : lib.headerRead.Reads (MessageHeader.read io) := by
  have hfields := (timestampRead_reads h).seq (h.u8.seq (h.u8.seq (originRead_reads h)))
  have hchecked : CountReader.Reads
      (fun p bs => ((lib.headerRead (MessageHeader.ofFields p) bs).1,
        ((lib.timestampRead.seq (lib.u8.seq (lib.u8.seq lib.originRead))) p bs).2))
      (((Timestamp.decoder io).seq (Decoder.seq io.u8.decode (Decoder.seq io.u8.decode
        (MessageOrigin.read io)))).check MessageHeader.inRange) := by
    apply hfields.check
    · exact fun _ _ => rfl
    · rintro ⟨ts, facility, severity, o⟩ bs
      set readV := lib.timestampRead.seq (lib.u8.seq (lib.u8.seq lib.originRead)) with hreadV
      have hrc : (lib.headerRead (MessageHeader.ofFields (ts, facility, severity, o)) bs).1 =
          if 0 < (readV (ts, facility, severity, o) bs).1 then
            if Facility.local7.code < (readV (ts, facility, severity, o) bs).2.1.2.1 ∨
                Severity.debug.code < (readV (ts, facility, severity, o) bs).2.1.2.2.1 then -1
            else (readV (ts, facility, severity, o) bs).1
          else (readV (ts, facility, severity, o) bs).1 := rfl
      rw [hrc, MessageHeader.inRange_iff]
      split_ifs with hread hrange
      · exact ⟨fun hn => absurd hn (by decide), fun hn => absurd hrange hn.2⟩
      · exact ⟨fun _ => ⟨hread, hrange⟩, fun _ => hread⟩
      · exact ⟨fun hn => absurd hn hread, fun hn => hn.1⟩
  have hread := hchecked.map MessageHeader.ofFields
    fun hd => (hd.timestamp, hd.facility.code, hd.severity.code, hd.origin)
  rw [← MessageHeader.read_eq] at hread
  exact hread

theorem messageRead_reads : lib.messageRead.Reads (Message.read io) := by
  have hread := ((headerRead_reads h).seq h.shortString1500).map (fun p => Message.mk p.1 p.2)
    fun m => (m.header, m.message)
  rw [← Message.read_eq] at hread
  exact hread

end

end FilePrimitives

/-! ### The loops -/

/-- **The three binary readers agree on every input**, whatever the bytes, the filter and the objects
    that the loops read into.  With one step more than there are bytes each loop has ended, and has
    printed the messages that `Message::Read` delivers until it fails and the filter lets through. -/
theorem readLoops_agree { streamIO : StreamPrimitives} { bz2IO gzIO : FilePrimitives}
    {io : StreamIO} (hstream : streamIO.Accepts io) (hbz2 : bz2IO.Accepts io)
    (hgz : gzIO.Accepts io)
    (filter : Option (Message → Bool)) (m₁ m₂ m₃ : Message) (b : Str) (steps : Nat)
    (hsteps : b.length < steps) :
    let delivered := (Message.readAll io b).filter fun msg => filter.all fun parse => parse msg
    streamIO.processIstream filter steps m₁ ⟨b, false⟩ = some delivered ∧
      processBZ2File bz2IO filter steps m₂ b = some delivered ∧
      processGZFile gzIO filter steps m₃ b = some delivered := by
  have hlt : ∀ bs m rest, Message.read io bs = some (m, rest) → rest.length < bs.length :=
    Message.read_lt io
  refine ⟨?_, ?_, ?_⟩
  · exact StreamReader.loop_eq (StreamPrimitives.messageRead_reads hstream) hlt _ steps m₁ b hsteps
  · exact CountReader.loop_eq (FilePrimitives.messageRead_reads hbz2) hlt _ steps m₂ b hsteps
  · exact CountReader.loop_eq (FilePrimitives.messageRead_reads hgz) hlt _ steps m₃ b hsteps

/-- The primitives of a file that decode with `io` and return the number of bytes taken, or -1. -/
def FilePrimitives.ofStreams (io : StreamIO) : FilePrimitives :=
  let primitive {α : Type} (c : Codec α) : CountReader α := fun a bs =>
    match c.decode bs with
    | some (a, rest) => (bs.length - rest.length, a, rest)
    | none => (-1, a, bs)
  ⟨primitive io.u8, primitive io.u32, primitive io.encodedU64, primitive io.shortString255,
    primitive io.shortString1500⟩

/-- The primitives of a stream that decode with `io`. -/
def StreamPrimitives.ofStreams (io : StreamIO) : StreamPrimitives :=
  let primitive {α : Type} (c : Codec α) : StreamReader α := fun a is =>
    match is.failed, c.decode is.bytes with
    | false, some (a, rest) => (a, ⟨rest, false⟩)
    | _, _ => (a, { is with failed := true })
  ⟨primitive io.u8, primitive io.u32, primitive io.encodedU64, primitive io.shortString255,
    primitive io.shortString1500⟩

theorem FilePrimitives.accepts_ofStreams (io : StreamIO) :
    (FilePrimitives.ofStreams io).Accepts io := by
  have hprimitive : ∀ {α : Type} (c : Codec α), CountReader.Reads (fun a bs =>
      match c.decode bs with
      | some (a, rest) => ((bs.length : Int) - rest.length, a, rest)
      | none => (-1, a, bs)) c.decode := by
    intro α c
    constructor
    · intro a₀ bs a rest h
      have hlt := c.decode_lt _ _ _ h
      exact ⟨bs.length - rest.length, by omega, by simp only [h]⟩
    · intro a₀ bs h
      simp only [h]
      decide
  exact ⟨hprimitive _, hprimitive _, hprimitive _, hprimitive _, hprimitive _⟩

theorem StreamPrimitives.accepts_ofStreams (io : StreamIO) :
    (StreamPrimitives.ofStreams io).Accepts io := by
  have hprimitive : ∀ {α : Type} (c : Codec α), StreamReader.Reads (fun a is =>
      match is.failed, c.decode is.bytes with
      | false, some (a, rest) => (a, ⟨rest, false⟩)
      | _, _ => (a, { is with failed := true })) c.decode := by
    intro α c
    constructor
    · intro a₀ bs a rest h
      simp only [h]
    · intro a₀ bs h
      simp only [h]
  exact ⟨hprimitive _, hprimitive _, hprimitive _, hprimitive _, hprimitive _⟩

/-- Two messages and a part of a third: the loops deliver the two. -/
theorem readLoops_agree_truncated :
    let b := Codec.encodeAll (Message.write prefixedStreams) [daemonMessage, daemonMessage] ++
      [1, 9, 24]
    processBZ2File (.ofStreams prefixedStreams) none (b.length + 1) daemonMessage b =
      some [daemonMessage, daemonMessage] := by
  intro b
  have hloops := readLoops_agree (StreamPrimitives.accepts_ofStreams prefixedStreams)
    (FilePrimitives.accepts_ofStreams prefixedStreams)
    (FilePrimitives.accepts_ofStreams prefixedStreams) none daemonMessage daemonMessage
    daemonMessage b (b.length + 1) (Nat.lt_succ_self _)
  have hacc : daemonMessage.Acceptable := by decide
  have htail : Message.read prefixedStreams [1, 9, 24] = none := by decide
  have hread : Message.readAll prefixedStreams b = [daemonMessage, daemonMessage] := by
    show Message.readAll prefixedStreams ((daemonMessage.write prefixedStreams ++
      (daemonMessage.write prefixedStreams ++ [])) ++ [1, 9, 24]) = _
    rw [List.append_nil, List.append_assoc, Message.readAll,
      Codec.readAll_of_decode _ (Message.read_lt _) (Message.read_write_of_acceptable _ hacc _),
      Codec.readAll_of_decode _ (Message.read_lt _) (Message.read_write_of_acceptable _ hacc _),
      Codec.readAll_of_none _ htail]
  rw [hloops.2.1, hread]
  rfl

end Mclog
