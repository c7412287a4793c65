import Mclog.Equiv.LogFile
import Mclog.Equiv.MessageReaders
import Mclog.Viewer

/-!
# What mclog shows of a log

Each file on the command line adds the messages in it up to the first that cannot be decoded, and
those that the filter lets through are printed (`processFiles_eq`).  Of a truncated file these are
the messages that are complete (`view_truncated`), and of the archives of a binary log file, oldest
first, and the live file the messages logged (`view_log`).
-/

namespace Mclog

open General

/-! ### Extensions -/

/-- A file name without a dot has no extension. -/
theorem extension_of_notMem {path : Str} (h : dot ∉ filename path) : extension path = [] := by
  unfold extension
  have hall : (filename path).reverse.takeWhile (fun c => c ≠ dot) = (filename path).reverse := by
    rw [List.takeWhile_eq_self_iff]
    intro c hc
    rw [decide_eq_true_eq]
    rintro rfl
    exact h (List.mem_reverse.mp hc)
  rw [if_pos]
  rw [hall, List.length_reverse]
  exact Or.inr (Nat.le_succ _)

/-- The extension of a name that has a dot before its last part. -/
theorem extension_append {path name ext : Str} (hname : name ≠ [])
    (hfile : filename path = name ++ dot :: ext) (hdot : dot ∉ ext) (hext : ext ≠ []) :
    extension path = dot :: ext := by
  simp only [extension]
  have hafter : ((filename path).reverse.takeWhile fun c => c ≠ dot).length = ext.length := by
    rw [hfile, List.reverse_append, List.reverse_cons, List.append_assoc,
      List.takeWhile_append_of_pos]
    · simp
    · intro c hc
      rw [decide_eq_true_eq]
      rintro rfl
      exact hdot (List.mem_reverse.mp hc)
  have hpos := List.length_pos_of_ne_nil hname
  have hlength : (filename path).length = name.length + (ext.length + 1) := by
    rw [hfile, List.length_append, List.length_cons]
  rw [hafter, if_neg]
  · rw [hlength, Nat.add_sub_cancel, hfile]
    exact List.drop_left
  · rintro (hdots | hle)
    · have hlast := congrArg List.getLast? (hfile.symm.trans hdots)
      rw [List.getLast?_append_cons, List.getLast?_cons] at hlast
      obtain ⟨c, hc⟩ := Option.isSome_iff_exists.mp (List.getLast?_isSome.mpr hext)
      rw [hc] at hlast
      have hlast : c = dot := by simpa using hlast
      exact hdot (hlast ▸ List.mem_of_getLast? hc)
    · omega

/-- A name behind the directory of a path. -/
theorem filename_parentPath_append (path : Str) {name : Str} (h : slash ∉ name) :
    filename (parentPath path ++ name) = name := by
  rcases isDirectoryPath_parentPath path with hdir | ⟨q, hdir⟩
  · rw [hdir, List.nil_append]
    exact filename_of_notMem h
  · rw [hdir, List.append_assoc]
    exact filename_append q h

theorem filename_append_of_notMem (path : Str) {s : Str} (h : slash ∉ s) :
    filename (path ++ s) = filename path ++ s := by
  conv_lhs => rw [← parentPath_append_filename path, List.append_assoc]
  apply filename_parentPath_append
  rw [List.mem_append]
  rintro (hmem | hmem)
  · exact slash_notMem_filename path hmem
  · exact h hmem

/-- Either compressor has its own extension. -/
theorem compressor_cases (compress : Str) :
    (archiveExtension compress = str "bz2" ∧ compressCommand compress = str "bzip2") ∨
      (archiveExtension compress = str "gz" ∧ compressCommand compress = str "gzip") := by
  unfold archiveExtension compressCommand sg_compressionExt
  rw [List.lookup_cons, List.lookup_cons, List.lookup_nil]
  cases hbzip2 : compress == str "bzip2" with
  | true => exact Or.inl ⟨rfl, eq_of_beq hbzip2⟩
  | false =>
    cases hgzip : compress == str "gzip" with
    | true => exact Or.inr ⟨rfl, eq_of_beq hgzip⟩
    | false => exact Or.inl ⟨rfl, rfl⟩

namespace Viewer

variable (v : Viewer) (files : Str → Option Str) (filter : Option (Message → Bool))

/-- The libraries read what they write: the primitives take the encodings of `io`. -/
structure Accepts (io : StreamIO) : Prop where
  streamIO : v.streamIO.Accepts io
  bz2IO : v.bz2IO.Accepts io
  gzIO : v.gzIO.Accepts io

/-- The decompressors undo what the compressors do. -/
structure Decompresses (plat : Platform) : Prop where
  bzip2 : ∀ s, v.bunzip2 (plat.pack (str "bzip2") s) = s
  gzip : ∀ s, v.gunzip (plat.pack (str "gzip") s) = s

/-- What is read of a file with an extension. -/
def contents (ext bytes : Str) : Str :=
  if ext = str ".bz2" then v.bunzip2 bytes
  else if ext = str ".gz" then v.gunzip bytes
  else bytes

/-- The messages that mclog prints of some bytes. -/
def shown (io : StreamIO) (bs : Str) : List Message :=
  (Message.readAll io bs).filter fun msg => filter.all fun parse => parse msg

/-- The messages that mclog prints for the files of its command line.  The standard input is read
    once. -/
def printed (io : StreamIO) : InputStream → List Str → List Message
  | _, [] => []
  | cin, path :: paths =>
    if path = [hyphen] then
      (if cin.failed then [] else shown filter io cin.bytes) ++
        printed io { cin with failed := true } paths
    else
      ((files path).elim [] fun bytes => shown filter io (v.contents (extension path) bytes)) ++
        printed io cin paths

variable {v files filter} {io : StreamIO}

/-- The loop for streams ends, whatever comes. -/
theorem loopIstream_eq (h : v.Accepts io) (bytes : Str) :
    v.streamIO.processIstream filter (bytes.length + 1) v.msg ⟨bytes, false⟩ =
      some (shown filter io bytes) :=
  StreamReader.loop_eq (StreamPrimitives.messageRead_reads h.streamIO) (Message.read_lt io) _ _ _ _
    (Nat.lt_succ_self _)

/-- The loops end, whatever is in the file. -/
theorem processBytes_eq (h : v.Accepts io) (ext bytes : Str) :
    v.processBytes filter ext bytes = some (shown filter io (v.contents ext bytes)) := by
  unfold processBytes contents
  split_ifs
  · exact CountReader.loop_eq (FilePrimitives.messageRead_reads h.bz2IO) (Message.read_lt io) _ _ _ _
      (Nat.lt_succ_self _)
  · exact CountReader.loop_eq (FilePrimitives.messageRead_reads h.gzIO) (Message.read_lt io) _ _ _ _
      (Nat.lt_succ_self _)
  · exact loopIstream_eq h bytes

/-- The standard input is read to its end. -/
theorem processIstream_eq (h : v.Accepts io) (cin : InputStream) :
    v.processIstream filter cin =
      some (if cin.failed then [] else shown filter io cin.bytes, { cin with failed := true }) := by
  obtain ⟨bytes, failed⟩ := cin
  cases failed with
  | true => rfl
  | false =>
    simp only [processIstream, Bool.false_eq_true, if_false, loopIstream_eq h]
    rfl

/-- **What mclog prints of any files.** -/
theorem processFiles_eq (h : v.Accepts io) (paths : List Str) (cin : InputStream) :
    v.processFiles files filter paths cin = some (v.printed files filter io cin paths) := by
  induction paths generalizing cin with
  | nil => rfl
  | cons path paths ih =>
    unfold processFiles processFile printed
    by_cases hdash : path = [hyphen]
    · rw [if_pos hdash, if_pos hdash, processIstream_eq h]
      simp only [Option.bind_eq_bind, Option.bind_some, ih]
      rfl
    · rw [if_neg hdash, if_neg hdash]
      cases files path with
      | none =>
        simp only [Option.bind_eq_bind, Option.bind_some, ih]
        rfl
      | some bytes =>
        simp only [Option.bind_eq_bind, Option.bind_some, processBytes_eq h, ih, Option.pure_def]
        rfl

end Viewer

/-! ### Truncated files -/

/-- The primitive types are read from the front of a stream: what is behind does not matter. -/
structure StreamIO.Extends (io : StreamIO) : Prop where
  u8 : Decoder.Extends io.u8.decode
  u32 : Decoder.Extends io.u32.decode
  encodedU64 : Decoder.Extends io.encodedU64.decode
  shortString255 : Decoder.Extends io.shortString255.decode
  shortString1500 : Decoder.Extends io.shortString1500.decode

theorem extends_prefixedStreams : StreamIO.Extends prefixedStreams where
  u8 := Codec.extends_map _ _ _ _ (Codec.extends_bigEndian 1 _)
  u32 := Codec.extends_map _ _ _ _ (Codec.extends_bigEndian 4 _)
  encodedU64 := Codec.extends_map _ _ _ _ (Codec.extends_lengthPrefixed 1 8 _ _)
  shortString255 := Codec.extends_map _ _ _ _ (Codec.extends_lengthPrefixed 1 255 _ _)
  shortString1500 := Codec.extends_map _ _ _ _ (Codec.extends_lengthPrefixed 2 1500 _ _)

/-- So are messages. -/
theorem Message.extends_read {io : StreamIO} (h : io.Extends) : Decoder.Extends (Message.read io) := by
  have horigin : Decoder.Extends (MessageOrigin.read io) := by
    rw [MessageOrigin.read_eq_checks_last]
    exact ((h.shortString255.seq (h.shortString255.seq h.u32)).check _).map _
  have hheader : Decoder.Extends (MessageHeader.read io) := by
    rw [MessageHeader.read_eq]
    exact (((h.encodedU64.map _).seq (h.u8.seq (h.u8.seq horigin))).check _).map _
  rw [Message.read_eq]
  exact (hheader.seq h.shortString1500).map _

namespace Viewer

variable {v : Viewer} {files : Str → Option Str} {filter : Option (Message → Bool)} {io : StreamIO}

/-- Files are printed one after another. -/
theorem printed_append {paths : List Str} (hcin : [hyphen] ∉ paths) (cin : InputStream)
    (more : List Str) :
    v.printed files filter io cin (paths ++ more) =
      v.printed files filter io cin paths ++ v.printed files filter io cin more := by
  induction paths with
  | nil => rfl
  | cons path paths ih =>
    obtain ⟨hpath, hpaths⟩ := List.ne_and_not_mem_of_not_mem_cons hcin
    rw [List.cons_append, printed, printed, if_neg (Ne.symm hpath), if_neg (Ne.symm hpath),
      ih hpaths, List.append_assoc]

/-- What `main` prints, for a filter expression that is one. -/
theorem main_eq (h : v.Accepts io) (plat : Platform) {driver : MessageFilterDriver} {filtexpr : Str}
    (hvalid : filtexpr = [] ∨ driver.valid filtexpr = true) (paths : List Str) (cin : Str) :
    v.main files plat driver filtexpr paths cin =
      some ((v.printed files (if filtexpr = [] then none else some (driver.accepts filtexpr)) io
        ⟨cin, false⟩ paths).flatMap (LogFile.messageText plat)) := by
  have hguard : ¬ (filtexpr ≠ [] ∧ (!driver.valid filtexpr) = true) := by
    rintro ⟨hne, hinvalid⟩
    rcases hvalid with hnil | hvalid
    · exact hne hnil
    · rw [hvalid] at hinvalid
      cases hinvalid
  unfold main
  rw [if_neg hguard]
  dsimp only
  rw [processFiles_eq h]
  rfl

/-- What the filter of a command line lets through. -/
theorem filter_all (driver : MessageFilterDriver) (filtexpr : Str) :
    (fun msg => (if filtexpr = [] then none else some (driver.accepts filtexpr)).all
      fun parse => parse msg) = fun msg => filtexpr = [] || driver.accepts filtexpr msg := by
  ext msg
  split_ifs with hnil <;> simp [hnil]

/-- **A truncated file costs its last message.**  Let the libraries read what they write, whatever
    stands behind it.  Take the records of messages that can be decoded, in a file that can be opened
    or in what an archive decompresses to, cut off anywhere.  If neither this file nor one before it
    is the standard input, and there is no filter or a valid one, mclog prints of it the messages
    that are complete; and what it prints of the files before and behind it is what it prints
    without it. -/
theorem view_truncated (plat : Platform) (v : Viewer) (haccepts : v.Accepts plat.io)
    (hextends : plat.io.Extends) (driver : MessageFilterDriver) (filtexpr cin : Str)
    (hvalid : filtexpr = [] ∨ driver.valid filtexpr = true) (files : Str → Option Str)
    (before after : List Str) (hcin : [hyphen] ∉ before) (path bytes : Str)
    (hpath : path ≠ [hyphen]) (hfile : files path = some bytes) (msgs : List Message)
    (hacceptable : ∀ msg ∈ msgs, msg.Acceptable) (k : Nat)
    (hcut : v.contents (extension path) bytes =
      (Codec.encodeAll (Message.write plat.io) msgs).take k) :
    ∃ out₁ out₂, v.main files plat driver filtexpr before cin = some out₁ ∧
      v.main files plat driver filtexpr after cin = some out₂ ∧
      v.main files plat driver filtexpr (before ++ path :: after) cin =
        some (out₁ ++ ((Decoder.complete (Message.write plat.io) k msgs).filter fun msg =>
          filtexpr = [] || driver.accepts filtexpr msg).flatMap (LogFile.record plat .text) ++
          out₂) := by
  refine ⟨_, _, main_eq haccepts plat hvalid before cin, main_eq haccepts plat hvalid after cin, ?_⟩
  have hread : Message.readAll plat.io (v.contents (extension path) bytes) =
      Decoder.complete (Message.write plat.io) k msgs := by
    rw [hcut]
    exact (Message.extends_read hextends).readAll_take (Message.read_lt plat.io) msgs
      (fun msg hmsg rest => Message.read_write_of_acceptable plat.io (hacceptable msg hmsg) rest) k
  rw [main_eq haccepts plat hvalid, printed_append hcin, printed, if_neg hpath, hfile,
    Option.elim_some, shown, hread, filter_all, List.flatMap_append, List.flatMap_append,
    ← List.append_assoc]
  rfl

/-- A viewer for `LogFile.plainPlatform`. -/
def plainViewer : Viewer where
  streamIO := .ofStreams prefixedStreams
  bz2IO := .ofStreams prefixedStreams
  gzIO := .ofStreams prefixedStreams
  bunzip2 s := s.drop 5
  gunzip s := s.drop 4
  msg := LogFile.messageAt 0

theorem plainViewer_accepts : plainViewer.Accepts prefixedStreams :=
  ⟨StreamPrimitives.accepts_ofStreams _, FilePrimitives.accepts_ofStreams _,
    FilePrimitives.accepts_ofStreams _⟩

/-- Two messages, the second of which has lost its last byte. -/
def cutLog : Str :=
  (Codec.encodeAll (Message.write prefixedStreams)
    [LogFile.messageAt 1, LogFile.messageAt 2]).take 45

theorem view_truncated_cutLog :
    let files := fun path => if path = str "log" then some cutLog else none
    let driver := ⟨fun _ => true, fun _ _ => true⟩
    Decoder.complete (Message.write prefixedStreams) 45
        [LogFile.messageAt 1, LogFile.messageAt 2] = [LogFile.messageAt 1] ∧
      ∃ out₁ out₂, plainViewer.main files LogFile.plainPlatform driver [] [str "none"] [] =
          some out₁ ∧
        plainViewer.main files LogFile.plainPlatform driver [] [] [] = some out₂ ∧
        plainViewer.main files LogFile.plainPlatform driver [] [str "none", str "log"] [] =
          some (out₁ ++ ((Decoder.complete (Message.write prefixedStreams) 45
            [LogFile.messageAt 1, LogFile.messageAt 2]).filter fun _ => true).flatMap
              (LogFile.record LogFile.plainPlatform .text) ++ out₂) := by
  intro files driver
  exact ⟨by decide, view_truncated LogFile.plainPlatform plainViewer plainViewer_accepts
    extends_prefixedStreams driver [] [] (Or.inl rfl) files [str "none"] [] (by decide)
    (str "log") cutLog (by decide) rfl [LogFile.messageAt 1, LogFile.messageAt 2] (by decide) 45 rfl⟩

end Viewer

/-! ### The files of a log -/

/-- The message of a call of `Process`. -/
def LogFileEvent.message? : LogFileEvent → Option Message
  | .open _ => none
  | .process _ msg => some msg
  | .close _ => none
  | .compressor _ => none

namespace LogFile

/-- Where a closed segment is, the most recent one having the number 0: in its archive, or in the
    rolled file while its compressor has not made the archive. -/
def segmentPath (lf : LogFile) (w : World) (num : Nat) : Str :=
  if num = 0 ∧ ∃ job ∈ w.jobs, job.phase ≠ .created then rolledString lf.path
  else archiveString lf.path num lf.compress

/-- The files of a log, oldest first. -/
def segmentPaths (plat : Platform) (lf : LogFile) (w : World) : List Str :=
  (List.range (min (closedSegments plat lf.path w).length lf.keep.toNat)).reverse.map
    (segmentPath lf w) ++ [lf.path]

variable {plat : Platform} {lf : LogFile} {sm : Str → Option Str} {old : Nat → Prop}
  {s s' : LogFile × World} {v : Viewer}

/-- A step writes the record of its message or nothing. -/
theorem records_step {e : LogFileEvent} {out : List Str} (h : machine plat s e = some (s', out)) :
    ∃ msgs : List Message, msgs.Sublist e.message?.toList ∧
      out = msgs.map (record plat s.1.format) := by
  cases e with
  | process env msg =>
    unfold machine at h
    dsimp only at h
    split at h
    · rename_i rc s₁ hprocess
      obtain ⟨-, rfl⟩ := Prod.mk.inj (Option.some.inj h)
      cases rc with
      | true => exact ⟨[msg], List.Sublist.refl _, rfl⟩
      | false => exact ⟨[], List.nil_sublist _, rfl⟩
    · cases h
  | «open» env =>
    unfold machine at h
    dsimp only at h
    split at h
    · obtain ⟨-, rfl⟩ := Prod.mk.inj (Option.some.inj h)
      exact ⟨[], List.nil_sublist _, rfl⟩
    · cases h
  | close env =>
    obtain ⟨-, rfl⟩ := Prod.mk.inj (Option.some.inj h)
    exact ⟨[], List.nil_sublist _, rfl⟩
  | compressor i =>
    obtain ⟨-, rfl⟩ := Prod.mk.inj (Option.some.inj h)
    exact ⟨[], List.nil_sublist _, rfl⟩

/-- What a run writes are the records of some of its messages. -/
theorem records_run (hsite : Site plat lf sm) {events : List LogFileEvent}
    (hstart : Orderly plat lf sm old s) (hmeets : (machine plat).Meets (RollsWhenIdle plat) s events)
    {out : List Str} (hrun : (machine plat).run s events = some (s', out)) :
    ∃ msgs : List Message, msgs.Sublist (events.filterMap LogFileEvent.message?) ∧
      out = msgs.map (record plat lf.format) := by
  have hhistory := (machine plat).history_of_run (C := RollsWhenIdle plat)
    (R := fun before emitted s => Orderly plat lf sm old s ∧ ∃ msgs : List Message,
      msgs.Sublist (before.filterMap LogFileEvent.message?) ∧
        emitted = msgs.map (record plat lf.format)) ?_ events [] [] s s' out
    ⟨hstart, [], List.Sublist.refl _, rfl⟩ hmeets hrun
  · exact hhistory.2
  · rintro before emitted s e s₁ out₁ ⟨horderly, msgs, hsub, rfl⟩ hok hstep
    obtain ⟨s₂, out₂, rolled, hstep', horderly', -⟩ := orderly_step hsite horderly hok
    obtain ⟨rfl, rfl⟩ := Prod.mk.inj (Option.some.inj (hstep.symm.trans hstep'))
    obtain ⟨msgs', hsub', hout⟩ := records_step hstep
    refine ⟨horderly', msgs ++ msgs', ?_, ?_⟩
    · rw [List.filterMap_append]
      refine hsub.append ?_
      cases e with
      | process env msg => exact hsub'
      | _ => exact hsub'
    · rw [List.map_append, hout, horderly.settings.format]

theorem slash_mem_of_parentPath {path : Str} (h : parentPath path ≠ []) : slash ∈ path := by
  rcases path_cases path with ⟨-, hdir, -⟩ | ⟨q, -, -, hpath⟩
  · exact absurd hdir h
  · rw [hpath]
    simp

/-- The extension of a rolled file is that of no compressor. -/
theorem extension_rolledString {path : Str} (h : Ordinary (filename path)) :
    extension (rolledString path) = str ".0" := by
  apply extension_append h.1
  · exact filename_append_of_notMem path (by decide)
  · decide
  · decide

theorem extension_archiveString {path : Str} (num : Nat) (compress : Str) :
    extension (archiveString path num compress) = dot :: archiveExtension compress := by
  have hslash : slash ∉ dot :: decimal num ++ dot :: archiveExtension compress := by
    rw [List.mem_append, List.mem_cons, List.mem_cons]
    rintro ((h | h) | h | h)
    · cases h
    · exact not_mem_decimal (by decide) num h
    · cases h
    · exact slash_notMem_archiveExtension compress h
  have hfile : filename (archiveString path num compress) =
      (filename path ++ dot :: decimal num) ++ dot :: archiveExtension compress := by
    unfold archiveString
    rw [List.append_assoc, List.append_assoc]
    exact filename_append_of_notMem path hslash
  apply extension_append _ hfile
  · rcases archiveExtension_eq compress with h | h <;> rw [h] <;> decide
  · rcases archiveExtension_eq compress with h | h <;> rw [h] <;> decide
  · simp

/-- What is read of an archive is what the compressor made it of. -/
theorem contents_packed (hv : v.Decompresses plat) (compress segment : Str) :
    v.contents (dot :: archiveExtension compress) (packed plat compress segment) = segment := by
  unfold Viewer.contents packed
  rcases compressor_cases compress with ⟨hext, hcommand⟩ | ⟨hext, hcommand⟩
  · rw [hext, hcommand, if_pos (by decide)]
    exact hv.bzip2 segment
  · rw [hext, hcommand, if_neg (by decide), if_pos (by decide)]
    exact hv.gzip segment

/-- The newest closed segment is in its archive, unless a compressor has not got there. -/
theorem compressed_of_created {w : World} (h : Newest plat lf w)
    (hcreated : ∀ job ∈ w.jobs, job.phase = .created) : Compressed plat lf w := by
  rcases newest_cases h with ⟨-, hdone⟩ | ⟨job, hjobs, hrun⟩
  · exact hdone
  · have hphase := hrun.phase
    rw [hcreated job (by rw [hjobs]; simp)] at hphase
    exact hphase

/-- **A closed segment that is kept can be read.** -/
theorem read_segmentPath (hv : v.Decompresses plat) (hsite : Site plat lf sm)
    (h : Orderly plat lf sm old s) {num : Nat} {segment : Str} (hkeep : num < lf.keep.toNat)
    (hsegment : recent plat lf.path s.2 num = some segment) :
    ∃ bytes, s.2.disk.read (key plat (segmentPath lf s.2 num)) = some bytes ∧
      v.contents (extension (segmentPath lf s.2 num)) bytes = segment := by
  unfold segmentPath
  split_ifs with hrolled
  · obtain ⟨rfl, job, hjob, -⟩ := hrolled
    refine ⟨segment, ?_, ?_⟩
    · rcases newest_cases h.newest with ⟨hidle, -⟩ | ⟨job', -, hrun⟩
      · rw [hidle] at hjob
        cases hjob
      · rw [key_rolledString plat hsite.ordinary, ← hsegment]
        exact hrun.rolled
    · rw [extension_rolledString hsite.ordinary]
      rfl
  · have hread : s.2.disk.read (archiveKey plat lf.path lf.compress num) =
        some (packed plat lf.compress segment) := by
      by_cases hzero : num = 0
      · subst hzero
        refine compressed_of_created h.newest (fun job hjob => ?_) segment hsegment
        by_contra hphase
        exact hrolled ⟨rfl, job, hjob, hphase⟩
      · exact h.archives num segment (by omega) hkeep hsegment
    refine ⟨packed plat lf.compress segment, ?_, ?_⟩
    · rw [key_archiveString]
      exact hread
    · rw [extension_archiveString]
      exact contents_packed hv lf.compress segment

/-- **What mclog prints of the last segments** are their messages, if they are acceptable. -/
theorem printed_newest (hv : v.Decompresses plat) (hsite : Site plat lf sm)
    (hplain : dot ∉ filename lf.path) (h : Orderly plat lf sm old s) {log : SegmentedLog Message}
    (hlog : Refines plat lf.path s.2 (log.map (Message.write plat.io)))
    (hacceptable : ∀ msg ∈ log.history, msg.Acceptable) (filter : Option (Message → Bool))
    (cin : InputStream) {n : Nat} (hclosed : n ≤ log.closed.length) (hkeep : n ≤ lf.keep.toNat) :
    v.printed (fun path => s.2.disk.read (key plat path)) filter plat.io cin
        ((List.range n).reverse.map (segmentPath lf s.2) ++ [lf.path]) =
      (log.newest n).filter fun msg => filter.all fun parse => parse msg := by
  have hslash := slash_mem_of_parentPath hsite.parent
  have hshown : ∀ seg : List Message, (∀ msg ∈ seg, msg.Acceptable) →
      Viewer.shown filter plat.io (seg.map (Message.write plat.io)).flatten =
        seg.filter fun msg => filter.all fun parse => parse msg := by
    intro seg hseg
    rw [Viewer.shown, ← List.flatMap_def]
    congr 1
    refine (Message.readAll_encodeAll plat.io seg).trans ?_
    rw [List.takeWhile_eq_self_iff]
    exact fun msg hmsg => decide_eq_true (hseg msg hmsg)
  -- A path with a directory is not the one that stands for the standard input.
  have hname : ∀ rest : Str, lf.path ++ rest ≠ [hyphen] := by
    intro rest heq
    have hmem : slash ∈ lf.path ++ rest := List.mem_append_left _ hslash
    rw [heq] at hmem
    cases List.mem_singleton.mp hmem
  induction n with
  | zero =>
    have hlive : (s.2.disk.read (key plat lf.path)).getD [] =
        (log.live.map (Message.write plat.io)).flatten := hlog.live
    have hmem : ∀ msg ∈ log.live, msg.Acceptable :=
      fun msg hmsg => hacceptable msg (List.mem_append_right _ hmsg)
    rw [SegmentedLog.newest_zero, ← hshown log.live hmem, ← hlive, List.range_zero,
      List.reverse_nil, List.map_nil, List.nil_append, Viewer.printed,
      if_neg (by simpa using hname []), Viewer.printed, List.append_nil,
      extension_of_notMem hplain]
    cases s.2.disk.read (key plat lf.path) with
    | none => exact (hshown [] (by simp)).symm
    | some bytes => rfl
  | succ n ih =>
    have hlt : n < log.closed.reverse.length := by
      rw [List.length_reverse]
      exact hclosed
    -- Segment `n` is the oldest one, and is printed first.
    obtain ⟨seg, hseg⟩ : ∃ seg, log.closed.reverse[n]? = some seg :=
      ⟨_, List.getElem?_eq_getElem hlt⟩
    have hsegment : recent plat lf.path s.2 n =
        some (seg.map (Message.write plat.io)).flatten := by
      rw [recent, hlog.closed, SegmentedLog.map, List.map_map, ← List.map_reverse,
        List.getElem?_map, hseg]
      rfl
    obtain ⟨bytes, hread, hcontents⟩ := read_segmentPath hv hsite h hkeep hsegment
    have hdash : segmentPath lf s.2 n ≠ [hyphen] := by
      unfold segmentPath
      split_ifs
      · exact hname _
      · unfold archiveString
        rw [List.append_assoc]
        exact hname _
    have hmem : ∀ msg ∈ seg, msg.Acceptable := by
      intro msg hmsg
      apply hacceptable
      apply List.mem_append_left
      rw [List.mem_flatten]
      exact ⟨seg, List.mem_reverse.mp (List.mem_of_getElem? hseg), hmsg⟩
    rw [SegmentedLog.newest_succ hseg, List.filter_append, ← hshown seg hmem, List.range_succ,
      List.reverse_append, List.reverse_singleton, List.singleton_append, List.map_cons,
      List.cons_append, Viewer.printed, if_neg hdash, hread, Option.elim_some, hcontents,
      ih (by omega) (by omega)]

/-- **mclog shows what was logged.**  Let the libraries read what they write, and the decompressors
    undo what the compressors do.  Take a binary log file that is not open and keeps at least one
    archive, with a path that is one word to the shell and has a plain name in a fresh directory.
    Take any calls with messages that can be decoded, and any clock, such that all system calls
    succeed and there is no roll while a compressor is running.  Then at any time mclog, given the
    archives and the live file and no filter or a valid one, prints what a text log would hold of
    the messages written since the oldest archive that is kept, in order and filtered; and the closed
    segments and the live file are segments of all that was written. -/
theorem view_log (plat : Platform) (v : Viewer) (haccepts : v.Accepts plat.io)
    (hdecompresses : v.Decompresses plat) (driver : MessageFilterDriver) (filtexpr cin : Str)
    (hvalid : filtexpr = [] ∨ driver.valid filtexpr = true) (lf : LogFile) (disk : Disk)
    (events : List LogFileEvent) (hparent : parentPath lf.path ≠ [])
    (hname : PlainName (filename lf.path))
    (hshell : compressorArguments plat (rolledString lf.path) = [rolledString lf.path])
    (hkeep : 1 ≤ lf.keep.toNat) (hofs : lf.ofs = none) (hbinary : lf.format = .binary)
    (hfresh : FreshDirectory plat lf.path disk)
    (hmeets : (machine plat).Meets (RollsWhenIdle plat) (lf, { disk }) events)
    (hacceptable : ∀ msg ∈ events.filterMap LogFileEvent.message?, msg.Acceptable) :
    ∃ (s : LogFile × World) (out : List Str) (log : SegmentedLog Message),
      (machine plat).run (lf, { disk }) events = some (s, out) ∧
      out = log.history.map (record plat .binary) ∧
      log.history.Sublist (events.filterMap LogFileEvent.message?) ∧
      closedSegments plat lf.path s.2 =
        log.closed.map (fun seg => seg.flatMap (record plat .binary)) ∧
      v.main (fun path => s.2.disk.read (key plat path)) plat driver filtexpr
          (segmentPaths plat lf s.2) cin =
        some (((log.newest lf.keep.toNat).filter fun msg =>
          filtexpr = [] || driver.accepts filtexpr msg).flatMap (record plat .text)) := by
  obtain ⟨sm, hown⟩ := recognizesOwn_of_plain plat lf.compress hname.all_isPlain
  have hsite : Site plat lf sm := ⟨hparent, hname.ordinary, hown, hshell, hkeep⟩
  have hstart := orderly_start hofs (hfresh.noDirectories lf.compress)
    (hfresh.canonicalArchives hname hown)
  obtain ⟨s, out, hrun, horderly, hlogs⟩ := run_orderly hsite hstart events hmeets
  have hempty : Refines plat lf.path { disk } SegmentedLog.empty := by
    refine ⟨rfl, ?_⟩
    have hnone := hfresh (filename lf.path) [] (List.prefix_refl _)
    rw [liveContent, liveKey_eq hsite, liveKey, FileStore.read, hnone]
    rfl
  obtain ⟨recordLog, hrefines, hhistory, -⟩ := hlogs SegmentedLog.empty hempty
  obtain ⟨written, hsub, hout⟩ := records_run hsite hstart hmeets hrun
  rw [hbinary] at hout
  obtain ⟨log, rfl, hlog⟩ := SegmentedLog.exists_map (hhistory.trans hout)
  rw [hlog] at hrefines
  have hsegments : closedSegments plat lf.path s.2 =
      log.closed.map fun seg => seg.flatMap (record plat .binary) := by
    rw [hrefines.closed, SegmentedLog.map, List.map_map]
    rfl
  refine ⟨s, out, log, hrun, hout, hsub, hsegments, ?_⟩
  -- Only the last segments are kept.
  have hnewest : log.newest (min log.closed.length lf.keep.toNat) = log.newest lf.keep.toNat := by
    unfold SegmentedLog.newest
    congr 3
    omega
  have hprinted := printed_newest hdecompresses hsite hname.dot_notMem horderly hrefines
    (fun msg hmsg => hacceptable msg (hsub.subset hmsg))
    (if filtexpr = [] then none else some (driver.accepts filtexpr)) ⟨cin, false⟩
    (n := min log.closed.length lf.keep.toNat) (min_le_left _ _) (min_le_right _ _)
  rw [Viewer.main_eq haccepts plat hvalid, segmentPaths, hsegments, List.length_map, hprinted,
    hnewest, Viewer.filter_all]
  rfl

/-- A binary log file that rolls before every message but the first. -/
def binaryLog : LogFile := { appLog with format := .binary }

/-- Three messages, two of them in archives. -/
theorem view_log_rollsTwice :
    ∃ (s : LogFile × World) (out : List Str) (log : SegmentedLog Message),
      (machine plainPlatform).run (binaryLog, { disk := emptyDisk }) rollsTwice = some (s, out) ∧
      out = log.history.map (record plainPlatform .binary) ∧
      Viewer.plainViewer.main (fun path => s.2.disk.read (key plainPlatform path)) plainPlatform
          ⟨fun _ => true, fun _ _ => true⟩ [] (segmentPaths plainPlatform binaryLog s.2) [] =
        some (((log.newest 7).filter fun _ => true).flatMap (record plainPlatform .text)) := by
  have hidle : (machine plainPlatform).Meets (fun s e => Rolls plainPlatform s e → s.2.jobs = [])
      (binaryLog, { disk := emptyDisk }) rollsTwice := by decide
  have hmeets : (machine plainPlatform).Meets (RollsWhenIdle plainPlatform)
      (binaryLog, { disk := emptyDisk }) rollsTwice := by
    refine hidle.and_forall fun e he => ?_
    fin_cases he
    all_goals first | trivial | exact ⟨fun _ => rfl, rfl⟩
  obtain ⟨s, out, log, hrun, hout, -, -, hview⟩ := view_log plainPlatform
    Viewer.plainViewer Viewer.plainViewer_accepts ⟨fun _ => rfl, fun _ => rfl⟩
    ⟨fun _ => true, fun _ _ => true⟩ [] [] (Or.inl rfl) binaryLog emptyDisk rollsTwice (by decide)
    (by decide) (by decide) (by decide) rfl rfl (freshDirectory_emptyDisk _ _) hmeets (by decide)
  exact ⟨s, out, log, hrun, hout, hview⟩

end LogFile

end Mclog
