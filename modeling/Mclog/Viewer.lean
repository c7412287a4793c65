import Mclog.LogFiles
import Mclog.MessageReaders

/-!
# The command mclog, for files

`mclog [-F filterExpression] files...` prints the messages in binary log files and in their archives,
one file after another, in the text form.  The extension of a file says how it is read.

The read primitives of the three library classes and what the libraries of the compressors make of a
file are parameters.
-/

namespace Mclog

open General

/-- `path::extension()`: what the file name ends in, from its last dot on. -/
def extension (path : Str) : Str :=
  let name := filename path
  let afterDot := (name.reverse.takeWhile fun c => c ≠ dot).length
  -- There is no dot, or it is the first character.
  if name = [dot, dot] ∨ name.length ≤ afterDot + 1 then []
  else name.drop (name.length - (afterDot + 1))

/-- What mclog reads files with. -/
structure Viewer where
  streamIO : StreamPrimitives
  bz2IO : FilePrimitives
  gzIO : FilePrimitives
  /-- What `BZ2_bzRead` gives for a file. -/
  bunzip2 : Str → Str
  /-- What `gzread` gives for a file. -/
  gunzip : Str → Str
  /-- What a new `Message` holds. -/
  msg : Message

namespace Viewer

variable (v : Viewer) (files : Str → Option Str)

section

variable (filter : Option (Message → Bool))

/-- `ProcessIstream`: the messages printed, and the stream after it, which has failed then. -/
def processIstream (is : InputStream) : Option (List Message × InputStream) :=
  if is.failed then
    some ([], is)
  else do
    let msgs ← v.streamIO.processIstream filter (is.bytes.length + 1) v.msg is
    pure (msgs, { is with failed := true })

/-- `ProcessBinaryFile`, `ProcessBZ2File` or `ProcessGZFile`, for a file with these bytes. -/
def processBytes (ext bytes : Str) : Option (List Message) :=
  if ext = str ".bz2" then
    let bs := v.bunzip2 bytes
    processBZ2File v.bz2IO filter (bs.length + 1) v.msg bs
  else if ext = str ".gz" then
    let bs := v.gunzip bytes
    processGZFile v.gzIO filter (bs.length + 1) v.msg bs
  else
    v.streamIO.processIstream filter (bytes.length + 1) v.msg ⟨bytes, false⟩

/-- `ProcessFile`.  `files` are the bytes of the files that can be opened, and `cin` is the standard
    input. -/
def processFile (path : Str) (cin : InputStream) : Option (List Message × InputStream) :=
  if path = [hyphen] then
    v.processIstream filter cin
  else
    match files path with
    | some bytes => do
      let msgs ← v.processBytes filter (extension path) bytes
      pure (msgs, cin)
    | none => some ([], cin)

/-- The loop of `main` over the files of the command line. -/
def processFiles : List Str → InputStream → Option (List Message)
  | [], _ => some []
  | path :: paths, cin => do
    let (msgs, cin) ← v.processFile files filter path cin
    let rest ← processFiles paths cin
    pure (msgs ++ rest)

end

/-- `main` with files on its command line: what it prints.  `none` is the exception of a filter that
    is no filter expression. -/
def main (plat : Platform) (driver : MessageFilterDriver) (filtexpr : Str) (paths : List Str)
    (cin : Str) : Option Str := do
  if filtexpr ≠ [] ∧ (!driver.valid filtexpr) = true then none
  let filter := if filtexpr = [] then none else some (driver.accepts filtexpr)
  let msgs ← v.processFiles files filter paths ⟨cin, false⟩
  pure (msgs.flatMap (LogFile.messageText plat))

end Viewer

end Mclog
