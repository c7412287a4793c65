import Mathlib.Data.List.TakeWhile
import Mclog.Message

/-!
# The binary form of a message, read back

`Message.read_write_of_acceptable` and `Message.read_write_of_not_acceptable` say what the decoder
does on an encoding: it gives the message back when the message passes the decoder's checks and
fails otherwise.  `Message.acceptable_of_read` is the other half: what is read passes the checks,
whatever the bytes.  The read loop of the receivers then yields the longest acceptable prefix of
what was written (`Message.readAll_encodeAll`).
-/

namespace Mclog

open General

/-! ### The name checks -/

/-- A valid name is not empty, and every character is one the loop goes past. -/
theorem isValidName_iff (ok : UInt8 → Bool) (s : Str) :
    isValidName ok s = true ↔ s ≠ [] ∧ ∀ c ∈ s, ok c = true := by
  have htake : s.length = (s.takeWhile ok).length ↔ ∀ c ∈ s, ok c = true := by
    constructor
    · intro h
      have hs : s.takeWhile ok = s := (List.takeWhile_prefix ok).eq_of_length h.symm
      exact List.takeWhile_eq_self_iff.mp hs
    · intro h
      rw [List.takeWhile_eq_self_iff.mpr h]
  simp only [isValidName, Bool.and_eq_true, beq_iff_eq, Bool.not_eq_true', List.isEmpty_eq_false_iff]
  rw [htake]
  exact and_comm

/-- A valid name has no `'/'`, if its character class has none. -/
theorem slash_notMem_of_isValidName {ok : UInt8 → Bool} (hok : ok slash = false) {s : Str}
    (h : isValidName ok s = true) : slash ∉ s := by
  intro hmem
  have := ((isValidName_iff ok s).mp h).2 slash hmem
  simp [hok] at this

/-! ### Reading consumes -/

section

variable (io : StreamIO)

/-- Reading an origin, opened up: the two names pass their checks and the three fields follow one
    another. -/
theorem MessageOrigin.read_eq_some_iff (bs rest : Str) (o : MessageOrigin) :
    MessageOrigin.read io bs = some (o, rest) ↔
      isValidHostname o.hostname.value = true ∧ isValidAppName o.appname.value = true ∧
        ∃ bs₁ bs₂, io.shortString255.decode bs = some (o.hostname, bs₁) ∧
          io.shortString255.decode bs₁ = some (o.appname, bs₂) ∧
          io.u32.decode bs₂ = some (o.procid, rest) := by
  constructor
  · intro h
    simp only [MessageOrigin.read, Option.bind_eq_bind, Option.bind_eq_some_iff, Prod.exists,
      Option.ite_none_right_eq_some, Option.pure_def, Option.some.injEq, Prod.mk.injEq] at h
    obtain ⟨hn, bs₁, h₁, hv, an, bs₂, h₂, ha, pid, bs₃, h₃, rfl, rfl⟩ := h
    exact ⟨hv, ha, bs₁, bs₂, h₁, h₂, h₃⟩
  · rintro ⟨hv, ha, bs₁, bs₂, h₁, h₂, h₃⟩
    simp [MessageOrigin.read, h₁, h₂, h₃, hv, ha]

/-- Reading a header, opened up. -/
theorem MessageHeader.read_eq_some_iff (bs rest : Str) (h : MessageHeader) :
    MessageHeader.read io bs = some (h, rest) ↔
      h.facility.code ≤ Facility.local7.code ∧ h.severity.code ≤ Severity.debug.code ∧
        ∃ bs₁ bs₂ bs₃, io.encodedU64.decode bs = some (h.timestamp.usecs, bs₁) ∧
          io.u8.decode bs₁ = some (h.facility.code, bs₂) ∧
          io.u8.decode bs₂ = some (h.severity.code, bs₃) ∧
          MessageOrigin.read io bs₃ = some (h.origin, rest) := by
  constructor
  · intro hr
    simp only [MessageHeader.read, Option.bind_eq_bind, Option.bind_eq_some_iff, Prod.exists,
      Option.ite_none_left_eq_some, Option.pure_def, Option.some.injEq, Prod.mk.injEq,
      not_or, UInt8.not_lt] at hr
    obtain ⟨us, bs₁, h₁, fac, bs₂, h₂, sev, bs₃, h₃, o, bs₄, h₄, ⟨hf, hs⟩, rfl, rfl⟩ := hr
    exact ⟨hf, hs, bs₁, bs₂, bs₃, h₁, h₂, h₃, h₄⟩
  · rintro ⟨hf, hs, bs₁, bs₂, bs₃, h₁, h₂, h₃, h₄⟩
    have hrange : ¬ (Facility.local7.code < h.facility.code ∨
        Severity.debug.code < h.severity.code) := by
      simpa [not_or, UInt8.not_lt] using And.intro hf hs
    simp [MessageHeader.read, h₁, h₂, h₃, h₄, hrange]

/-- Reading a message, opened up. -/
theorem Message.read_eq_some_iff (bs rest : Str) (m : Message) :
    Message.read io bs = some (m, rest) ↔
      ∃ bs₁, MessageHeader.read io bs = some (m.header, bs₁) ∧
        io.shortString1500.decode bs₁ = some (m.message, rest) := by
  constructor
  · intro h
    simp only [Message.read, Option.bind_eq_bind, Option.bind_eq_some_iff, Prod.exists,
      Option.pure_def, Option.some.injEq, Prod.mk.injEq] at h
    obtain ⟨hd, bs₁, h₁, text, bs₂, h₂, rfl, rfl⟩ := h
    exact ⟨bs₁, h₁, h₂⟩
  · rintro ⟨bs₁, h₁, h₂⟩
    simp [Message.read, h₁, h₂]

/-- A message that is read consumes at least one byte. -/
theorem Message.read_lt (bs : Str) (m : Message) (rest : Str)
    (h : Message.read io bs = some (m, rest)) : rest.length < bs.length := by
  obtain ⟨bs₁, hh, ht⟩ := (Message.read_eq_some_iff io bs rest m).mp h
  obtain ⟨-, -, b₁, b₂, b₃, h₁, h₂, h₃, ho⟩ := (MessageHeader.read_eq_some_iff io _ _ _).mp hh
  obtain ⟨-, -, c₁, c₂, h₄, h₅, h₆⟩ := (MessageOrigin.read_eq_some_iff io _ _ _).mp ho
  have := io.shortString1500.decode_lt _ _ _ ht
  have := io.encodedU64.decode_lt _ _ _ h₁
  have := io.u8.decode_lt _ _ _ h₂
  have := io.u8.decode_lt _ _ _ h₃
  have := io.shortString255.decode_lt _ _ _ h₄
  have := io.shortString255.decode_lt _ _ _ h₅
  have := io.u32.decode_lt _ _ _ h₆
  omega

/-! ### The decoder against the encoder -/

/-- **What is read passes the decoder's checks**, whatever the bytes. -/
theorem Message.acceptable_of_read {bs rest : Str} {m : Message}
    (h : Message.read io bs = some (m, rest)) : m.Acceptable := by
  obtain ⟨bs₁, hh, -⟩ := (Message.read_eq_some_iff io bs rest m).mp h
  obtain ⟨hf, hs, b₁, b₂, b₃, -, -, -, ho⟩ := (MessageHeader.read_eq_some_iff io _ _ _).mp hh
  obtain ⟨hv, ha, -⟩ := (MessageOrigin.read_eq_some_iff io _ _ _).mp ho
  exact ⟨hv, ha, hf, hs⟩

/-- An origin with valid names is read back from its encoding. -/
theorem MessageOrigin.read_write {o : MessageOrigin} (hv : isValidHostname o.hostname.value = true)
    (ha : isValidAppName o.appname.value = true) (rest : Str) :
    MessageOrigin.read io (o.write io ++ rest) = some (o, rest) := by
  rw [MessageOrigin.read_eq_some_iff, MessageOrigin.write, List.append_assoc, List.append_assoc]
  exact ⟨hv, ha, _, _, io.shortString255.decode_encode _ _, io.shortString255.decode_encode _ _,
    io.u32.decode_encode _ _⟩

/-- A header whose fields pass the checks is read back from its encoding. -/
theorem MessageHeader.read_write {h : MessageHeader}
    (hv : isValidHostname h.origin.hostname.value = true)
    (ha : isValidAppName h.origin.appname.value = true)
    (hf : h.facility.code ≤ Facility.local7.code) (hs : h.severity.code ≤ Severity.debug.code)
    (rest : Str) : MessageHeader.read io (h.write io ++ rest) = some (h, rest) := by
  rw [MessageHeader.read_eq_some_iff]
  simp only [MessageHeader.write, List.append_assoc]
  exact ⟨hf, hs, _, _, _, io.encodedU64.decode_encode _ _, io.u8.decode_encode _ _,
    io.u8.decode_encode _ _, MessageOrigin.read_write io hv ha rest⟩

/-- **An acceptable message is read back** from its encoding, whatever follows. -/
theorem Message.read_write_of_acceptable {m : Message} (h : m.Acceptable) (rest : Str) :
    Message.read io (m.write io ++ rest) = some (m, rest) := by
  rw [Message.read_eq_some_iff, Message.write, List.append_assoc]
  exact ⟨_, MessageHeader.read_write io h.hostname h.appname h.facility h.severity _,
    io.shortString1500.decode_encode _ _⟩

/-- **A message that is not acceptable is rejected**: its encoding does not decode. -/
theorem Message.read_write_of_not_acceptable {m : Message} (h : ¬ m.Acceptable) (rest : Str) :
    Message.read io (m.write io ++ rest) = none := by
  -- The decoder goes through the fields of `m` itself, so a success would make `m` acceptable.
  cases hr : Message.read io (m.write io ++ rest) with
  | none => rfl
  | some p =>
    obtain ⟨m', rest'⟩ := p
    refine absurd ?_ h
    obtain ⟨bs₁, hh, -⟩ := (Message.read_eq_some_iff io _ _ _).mp hr
    obtain ⟨hf, hs, b₁, b₂, b₃, h₁, h₂, h₃, ho⟩ := (MessageHeader.read_eq_some_iff io _ _ _).mp hh
    obtain ⟨hv, ha, c₁, c₂, h₄, h₅, -⟩ := (MessageOrigin.read_eq_some_iff io _ _ _).mp ho
    simp only [Message.write, MessageHeader.write, MessageOrigin.write, List.append_assoc] at h₁
    rw [io.encodedU64.decode_encode, Option.some.injEq, Prod.mk.injEq] at h₁
    rw [← h₁.2, io.u8.decode_encode, Option.some.injEq, Prod.mk.injEq] at h₂
    rw [← h₂.2, io.u8.decode_encode, Option.some.injEq, Prod.mk.injEq] at h₃
    rw [← h₃.2, io.shortString255.decode_encode, Option.some.injEq, Prod.mk.injEq] at h₄
    rw [← h₄.2, io.shortString255.decode_encode, Option.some.injEq, Prod.mk.injEq] at h₅
    refine ⟨?_, ?_, ?_, ?_⟩
    · rw [h₄.1]; exact hv
    · rw [h₅.1]; exact ha
    · rw [h₂.1]; exact hf
    · rw [h₃.1]; exact hs

/-- The read loop on a stream of encodings delivers the messages up to the first one that is not
    acceptable. -/
theorem Message.readAll_encodeAll (ms : List Message) :
    Message.readAll io (Codec.encodeAll (Message.write io) ms) =
      ms.takeWhile fun m => decide m.Acceptable := by
  induction ms with
  | nil => rfl
  | cons m ms ih =>
    rw [Codec.encodeAll_cons, List.takeWhile_cons]
    by_cases h : m.Acceptable
    · rw [if_pos (decide_eq_true h), Message.readAll,
        Codec.readAll_of_decode _ (Message.read_lt io) (Message.read_write_of_acceptable io h _)]
      exact congrArg (m :: ·) ih
    · rw [if_neg (by simpa using h), Message.readAll,
        Codec.readAll_of_none _ (Message.read_write_of_not_acceptable io h _)]

/-- An encoding is at least as long as the six fields it holds. -/
theorem Message.write_length_pos (m : Message) : 0 < (m.write io).length := by
  have := io.shortString1500.encode_length_pos m.message
  simp only [Message.write, List.length_append]
  omega

end

end Mclog
