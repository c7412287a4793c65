import Mclog.General.Machine
import Mclog.Message
import Mclog.MessagePacket

/-!
# Multicast sources

`MulticastSource` decrypts the datagrams of one sender with the sender's key.  Without a key it
buffers them and starts a thread that queries for one.  The receiving thread and the query thread
share the key and the flag `_queryDone`; the query thread takes its steps wherever the receiving
thread looks at either, in any number.
-/

namespace Mclog

open General

/-- A number of seconds, in the nanoseconds of the clock. -/
def seconds (n : Int) : Int := n * 1000000000

/-- `MulticastSourceKey`: the key and the times it was asked for and updated. -/
structure MulticastSourceKey where
  value : Str
  lastRequested : Int := 0
  lastQueried : Int := 0
  lastUpdated : Int := 0
deriving DecidableEq

/-- The copy constructor copies the value only. -/
def MulticastSourceKey.copy (key : MulticastSourceKey) : MulticastSourceKey :=
  { value := key.value }

/-- A datagram waiting for a key, with the time it was buffered at. -/
structure BacklogEntry where
  receiveTime : Int
  data : Str
deriving DecidableEq

/-- The most entries a backlog takes. -/
def backlogMaxLength : Nat := 100

/-- The backlog, a queue of limited length. -/
structure Backlog where
  entries : List BacklogEntry
  length_le : entries.length ≤ backlogMaxLength

namespace Backlog

/-- The empty backlog. -/
def empty : Backlog := ⟨[], Nat.zero_le _⟩

/-- `PushBack`: a full queue refuses the entry. -/
def pushBack (b : Backlog) (e : BacklogEntry) : Backlog :=
  if h : b.entries.length < backlogMaxLength then
    ⟨b.entries ++ [e], by rw [List.length_append, List.length_singleton]; omega⟩
  else
    b

/-- The loop of `ClearOldBacklog`: entries of 5 seconds and more are popped off the front. -/
def clearOld (now : Int) (b : Backlog) : Backlog :=
  ⟨b.entries.dropWhile fun e => ¬ now < e.receiveTime + seconds 5,
    le_trans (List.dropWhile_sublist _).length_le b.length_le⟩

end Backlog

/-- Where the query thread is: none is running, it is asking for the key, or it has stored the
    answer and not yet set `_queryDone`. -/
inductive QueryPhase where
  | done
  | asking
  | stored
deriving DecidableEq

/-- A step of the query thread: it stores the answer, which is empty when the query failed, or it
    sets `_queryDone`. -/
inductive QueryStep where
  | store (key : MulticastSourceKey)
  | setDone
deriving DecidableEq

/-- `MulticastSource`. -/
structure MulticastSource where
  key : MulticastSourceKey
  backlog : Backlog
  query : QueryPhase
  lastReceiveTime : Int

/-- A datagram that arrives, with the readings of the clock while it is processed and the steps the
    query thread takes before the receiving thread's accesses to what they share. -/
structure Arrival where
  datagram : Str
  /-- The clock when processing starts. -/
  receiveTime : Int
  /-- The clock when the datagram is buffered, if it is. -/
  bufferTime : Int
  /-- The clock when the last update is compared, if it is. -/
  expireTime : Int
  /-- The clock when old entries are cleared. -/
  clearTime : Int
  /-- Before the key is read first. -/
  beforeKey : List QueryStep := []
  /-- Before `ProcessBacklog` reads the key. -/
  beforeBacklog : List QueryStep := []
  /-- Before the key is discarded. -/
  beforeDiscard : List QueryStep := []
  /-- Before the last update is read. -/
  beforeUpdated : List QueryStep := []
  /-- Before `_queryDone` is tested. -/
  beforeStart : List QueryStep := []

namespace MulticastSource

/-- The constructor. -/
def init : MulticastSource := ⟨{ value := [] }, .empty, .done, 0⟩

/-- A step of the query thread, if it is at that step. -/
def queryStep (s : MulticastSource) : QueryStep → MulticastSource
  | .store key =>
    if s.query = .asking then { s with key := key, query := .stored } else s
  | .setDone =>
    if s.query = .stored then { s with query := .done } else s

/-- Some steps of the query thread. -/
def queryRuns (s : MulticastSource) (steps : List QueryStep) : MulticastSource :=
  steps.foldl queryStep s

/-- `StartQuery`. -/
def startQuery (s : MulticastSource) : MulticastSource :=
  if s.query = .done then { s with query := .asking } else s

section

variable (io : StreamIO) (aead : Aead)

/-- A datagram made into a packet and decrypted in place: the result of `Decrypt`, the messages read
    from the payload and the bytes left in the buffer.  `none` is the constructor's abort. -/
def openPacket (mcastKey data : Str) : Option (Int × List Message × Str) := do
  let pkt ← MessagePacket.ofBuf data
  let (decrc, pkt) := pkt.decrypt aead mcastKey data.length
  pure (decrc, if decrc > 0 then Message.readAll io pkt.payload else [], pkt.buf)

/-- The loop of `ProcessBacklog`: the messages of each entry that decrypts. -/
def openBacklog (mcastKey : Str) : List BacklogEntry → Option (List Message)
  | [] => some []
  | e :: entries => do
    let (_, msgs, _) ← openPacket io aead mcastKey e.data
    let later ← openBacklog mcastKey entries
    pure (msgs ++ later)

/-- `ProcessBacklog`. -/
def processBacklog (s : MulticastSource) : Option (MulticastSource × List Message) :=
  let mcastKey := s.key.copy.value
  if !mcastKey.isEmpty then do
    let msgs ← openBacklog io aead mcastKey s.backlog.entries
    pure ({ s with backlog := .empty }, msgs)
  else
    some (s, [])

/-- `ClearOldBacklog`. -/
def clearOldBacklog (s : MulticastSource) (now : Int) : MulticastSource :=
  { s with backlog := s.backlog.clearOld now }

/-- The source when `ProcessPacket` reads the key first. -/
def arrive (s : MulticastSource) (a : Arrival) : MulticastSource :=
  { s with lastReceiveTime := a.receiveTime }.queryRuns a.beforeKey

/-- What `ProcessPacket` does with a datagram that does not decrypt, `data` being what is left of
    it: the key is discarded, the datagram buffered, and a query started unless the key was updated
    in the last 5 seconds. -/
def discardKey (s : MulticastSource) (a : Arrival) (data : Str) : MulticastSource :=
  let s := s.queryRuns a.beforeDiscard
  let s := { s with
    key := { value := [] }
    backlog := s.backlog.pushBack ⟨a.bufferTime, data⟩ }
  let s := s.queryRuns a.beforeUpdated
  if s.key.copy.lastUpdated < a.expireTime - seconds 5 then
    (s.queryRuns a.beforeStart).startQuery
  else
    s

/-- `ProcessPacket`: its result, the source after it and the messages handed to each sink. -/
def processPacket (s : MulticastSource) (a : Arrival) :
    Option (Bool × MulticastSource × List Message) := do
  let s := s.arrive a
  let mcastKey := s.key.copy.value
  let (rc, s, msgs) ←
    if !mcastKey.isEmpty then do
      let (s, backlogMsgs) ← (s.queryRuns a.beforeBacklog).processBacklog io aead
      let (decrc, msgs, data) ← openPacket io aead mcastKey a.datagram
      if decrc > 0 then
        pure (!msgs.isEmpty, s, backlogMsgs ++ msgs)
      else
        pure (false, s.discardKey a data, backlogMsgs)
    else
      let s := { s with backlog := s.backlog.pushBack ⟨a.bufferTime, a.datagram⟩ }
      pure (true, (s.queryRuns a.beforeStart).startQuery, [])
  pure (rc, s.clearOldBacklog a.clearTime, msgs)

/-- A source as a machine: datagrams in, messages out. -/
def machine : Machine MulticastSource Arrival Message := fun s a =>
  (s.processPacket io aead a).map fun r => (r.2.1, r.2.2)

end

end MulticastSource

end Mclog
