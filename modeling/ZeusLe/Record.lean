import ZeusLe.Library.Decimal
import ZeusLe.Library.Run
import ZeusLe.WavFile

/-!
The recorder, `record.c`. The caller's thread runs the functions of the API
under the mutex; the close thread takes a `struct wav` out of
`record_close_queue` and closes it. The close thread may run before every call
that `record_buffer` makes to the WAV writer, the file system or the queue.
-/

namespace ZeusLe.Record

open ZeusLe.FileSystem
open ZeusLe.WavFile
open ZeusLe.Library
open ZeusLe.Library.Word

inductive RecordState where
  | stopped
  | waitingStart
  | waitingNewFile
  | running
  deriving DecidableEq, Repr

inductive LedRecordState where
  | idle
  | waiting
  | running
  deriving DecidableEq, Repr

def recordFileNamePrefixLen : Nat := 32

/-- A string that fits into `file_name_prefix` with its terminator. -/
abbrev FileNamePrefix := { p : List Char // p.length < recordFileNamePrefixLen }

structure RecordData where
  init : Bool
  fileNamePrefix : FileNamePrefix
  /-- The `struct wav` of the current file, stale after it was handed over. -/
  file : Wav
  /-- Next unused file index. -/
  fileIndex : UInt32
  state : RecordState
  startTime : UInt32
  lastSyncTimeMs : Int
  deriving DecidableEq, Repr

/-- `struct audio_block`; `len` is the length of the buffer. -/
structure AudioBlock where
  buf : List UInt8
  buf_lt : buf.length < 2 ^ 32
  startTime : UInt32
  duration : UInt32
  bytesPerFrame : UInt8
  deriving DecidableEq, Repr

def AudioBlock.len (block : AudioBlock) : UInt32 :=
  UInt32.ofNat block.buf.length

@[simp] theorem AudioBlock.toNat_len (block : AudioBlock) :
    block.len.toNat = block.buf.length := by
  have h := block.buf_lt
  simp only [AudioBlock.len, UInt32.toNat_ofNat']
  exact Nat.mod_eq_of_lt h

/-- What the recorder did to a `struct wav`, and its calls into the codec. -/
inductive Event where
  /-- `wav_open` was called; `present` tells whether the name was on the card. -/
  | opened (name : Path) (present : Bool) (ret : Int) (w : Wav)
  | written (w : Wav) (ret : Int)
  /-- Put into `record_close_queue`. -/
  | queued (w : Wav)
  /-- Passed to `wav_close` by the close thread. -/
  | closed (w : Wav)
  | closedNoUpdate (w : Wav)
  | audioStart
  | audioStop
  deriving DecidableEq, Repr

/-- The recorder with its surroundings. `trace` lists the events so far, oldest
first; `settings` is the stored value of `rec/prefix`. -/
structure Recorder where
  data : RecordData
  closeQueue : List Wav
  fs : Fs
  settings : Option (List Char)
  led : LedRecordState
  trace : List Event

def Recorder.setState (state : RecordState) (s : Recorder) : Recorder :=
  { s with data := { s.data with state := state } }

def Recorder.setLastSyncTimeMs (ms : Int) (s : Recorder) : Recorder :=
  { s with data := { s.data with lastSyncTimeMs := ms } }

def Recorder.nextFileIndex (s : Recorder) : Recorder :=
  { s with data := { s.data with fileIndex := s.data.fileIndex + 1 } }

def Recorder.setLed (led : LedRecordState) (s : Recorder) : Recorder :=
  { s with led := led }

def closeQueueLen : Nat := 1

/-- One round of `record_close_thread_run`; without an item it keeps waiting. -/
def recordCloseThreadRun (s : Recorder) (io : WavCloseIo) : Recorder :=
  match s.closeQueue with
  | [] => s
  | w :: queue =>
      let (_, fs) := wavClose io w s.fs
      { s with closeQueue := queue, fs := fs, trace := s.trace ++ [.closed w] }

/-- The rounds of the close thread between two calls of the recorder. -/
def closeThread (rounds : List WavCloseIo) (s : Recorder) : Recorder :=
  rounds.foldl recordCloseThreadRun s

@[simp] theorem recordCloseThreadRun_data (s : Recorder) (io : WavCloseIo) :
    (recordCloseThreadRun s io).data = s.data := by
  simp only [recordCloseThreadRun]
  split <;> rfl

theorem closeThread_keeps {P : Recorder → Prop}
    (hround : ∀ s io, P s → P (recordCloseThreadRun s io)) {s : Recorder} (hs : P s)
    (rounds : List WavCloseIo) : P (closeThread rounds s) :=
  Run.invariant_run_of_step hround hs rounds

@[simp] theorem closeThread_data (rounds : List WavCloseIo) (s : Recorder) :
    (closeThread rounds s).data = s.data := by
  apply closeThread_keeps (P := fun t => t.data = s.data)
  · intro t io ht
    exact (recordCloseThreadRun_data t io).trans ht
  · rfl

/-- Environment of one `record_close_file`. The caller waits while the queue is
full, until the round `room` of the close thread; `failed` is an error of
`k_msgq_put`. -/
structure CloseFileIo where
  before : List WavCloseIo := []
  room : WavCloseIo := {}
  failed : Bool := false
  fsClose : Outcome := .ok

def queueFile (s : Recorder) : Recorder :=
  { s with
    closeQueue := s.closeQueue ++ [s.data.file]
    trace := s.trace ++ [.queued s.data.file] }

def closeFileNoUpdate (o : Outcome) (s : Recorder) : Recorder :=
  { s with
    data := { s.data with file := (wavCloseNoUpdate o s.data.file).2 }
    trace := s.trace ++ [.closedNoUpdate s.data.file] }

def recordCloseFile (io : CloseFileIo) (s : Recorder) : Recorder :=
  let s := closeThread io.before s
  if io.failed then closeFileNoUpdate io.fsClose s
  else queueFile
    (if s.closeQueue.length < closeQueueLen then s else recordCloseThreadRun s io.room)

def wavSuffix : Path := ['.', 'w', 'a', 'v']

def ulongMax : UInt32 := 4294967295

def indexedName (fileNamePrefix : List Char) (index : UInt32) : Path :=
  fileNamePrefix ++ '_' :: Decimal.padded 4 index.toNat ++ wavSuffix

/-- The name that `record_buffer` formats for the next file. -/
def RecordData.fileName (data : RecordData) : Path :=
  mountPoint ++ '/' :: indexedName data.fileNamePrefix.val data.fileIndex

def fileNameSize : Nat :=
  mountPoint.length + 1 + (recordFileNamePrefixLen - 1) + 1 + 10 + wavSuffix.length + 1

def isSpace (c : Char) : Bool :=
  c == ' ' || (9 ≤ c.toNat && c.toNat ≤ 13)

/-- An optional sign: whether it is a minus, and the rest. -/
def readSign : List Char → Bool × List Char
  | '-' :: rest => (true, rest)
  | '+' :: rest => (false, rest)
  | str => (false, str)

/-- `strtoul` with base ten: the value, and what is left of the string. -/
def strtoul (str : List Char) : UInt32 × List Char :=
  let (negative, number) := readSign (str.dropWhile isSpace)
  let digits := number.takeWhile Char.isDigit
  if digits = [] then (0, str)
  else
    let n := Decimal.value digits
    let v := if n ≤ ulongMax.toNat then
        (if negative then -UInt32.ofNat n else UInt32.ofNat n)
      else ulongMax
    (v, number.dropWhile Char.isDigit)

/-- One directory entry in the loop of `record_find_next_file_index`. -/
def scanEntry (data : RecordData) (name : Path) : Except Int RecordData :=
  let namePrefix := data.fileNamePrefix.val
  if name.length < namePrefix.length + 1 then .ok data
  else if name.take namePrefix.length ≠ namePrefix then .ok data
  else if name[namePrefix.length]? ≠ some '_' then .ok data
  else
    let indexStart := name.drop (namePrefix.length + 1)
    let (fileIndex, suffixStart) := strtoul indexStart
    if suffixStart.length = indexStart.length then .ok data
    else if fileIndex = ulongMax then .error (-erange)
    else if suffixStart ≠ wavSuffix then .ok data
    else if fileIndex + 1 > data.fileIndex then
      .ok { data with fileIndex := fileIndex + 1 }
    else .ok data

/-- The loop, from the `k`-th `fs_readdir` on. An entry without a name ends the
directory. -/
def scanEntries (readdir : Nat → Outcome) : Nat → List Path → RecordData → Int × RecordData
  | k, [], data =>
      if (readdir k).code < 0 then ((readdir k).code, data) else (0, data)
  | k, name :: names, data =>
      if (readdir k).code < 0 then ((readdir k).code, data)
      else match scanEntry data name with
        | .error ret => (ret, data)
        | .ok data => scanEntries readdir (k + 1) names data

/-- What `fs_readdir` lists for the root directory of the card. -/
def rootEntries (card : List Path) : List Path :=
  card.filter fun name => name ≠ [] ∧ '/' ∉ name

structure ScanIo where
  opendir : Outcome := .ok
  readdir : Nat → Outcome := fun _ => .ok

def recordFindNextFileIndex (io : ScanIo) (card : List Path) (data : RecordData) :
    Int × RecordData :=
  if io.opendir.code ≠ 0 then (io.opendir.code, data)
  else scanEntries io.readdir 0 (rootEntries card) { data with fileIndex := 0 }

theorem scanEntry_ok {data data' : RecordData} {name : Path}
    (h : scanEntry data name = .ok data') :
    ∃ index, data' = { data with fileIndex := index } := by
  simp only [scanEntry] at h
  split at h
  · exact ⟨data.fileIndex, (Except.ok.inj h).symm⟩
  · split at h
    · exact ⟨data.fileIndex, (Except.ok.inj h).symm⟩
    · split at h
      · exact ⟨data.fileIndex, (Except.ok.inj h).symm⟩
      · split at h
        · exact ⟨data.fileIndex, (Except.ok.inj h).symm⟩
        · split at h
          · cases h
          · split at h
            · exact ⟨data.fileIndex, (Except.ok.inj h).symm⟩
            · split at h
              · exact ⟨_, (Except.ok.inj h).symm⟩
              · exact ⟨data.fileIndex, (Except.ok.inj h).symm⟩

theorem scanEntries_data (readdir : Nat → Outcome) (k : Nat) (names : List Path)
    (data : RecordData) :
    ∃ index, (scanEntries readdir k names data).2 = { data with fileIndex := index } := by
  induction names generalizing k data with
  | nil =>
      refine ⟨data.fileIndex, ?_⟩
      simp only [scanEntries]
      split <;> rfl
  | cons name names ih =>
      simp only [scanEntries]
      split
      · exact ⟨data.fileIndex, rfl⟩
      · rcases hentry : scanEntry data name with ret | data'
        · exact ⟨data.fileIndex, rfl⟩
        · obtain ⟨index, rfl⟩ := scanEntry_ok hentry
          obtain ⟨index', h'⟩ := ih (k + 1) { data with fileIndex := index }
          exact ⟨index', h'⟩

theorem recordFindNextFileIndex_data (io : ScanIo) (card : List Path) (data : RecordData) :
    ∃ index, (recordFindNextFileIndex io card data).2 = { data with fileIndex := index } := by
  simp only [recordFindNextFileIndex]
  split
  · exact ⟨data.fileIndex, rfl⟩
  · obtain ⟨index, h⟩ := scanEntries_data io.readdir 0 (rootEntries card)
      { data with fileIndex := 0 }
    exact ⟨index, h⟩

theorem recordFindNextFileIndex_fileNamePrefix (io : ScanIo) (card : List Path)
    (data : RecordData) :
    (recordFindNextFileIndex io card data).2.fileNamePrefix = data.fileNamePrefix := by
  obtain ⟨index, hindex⟩ := recordFindNextFileIndex_data io card data
  rw [hindex]

structure InitIo where
  /-- Return code of `settings_load_subtree_direct`. -/
  load : Outcome := .ok
  read : Outcome := .ok
  scan : ScanIo := {}

/-- `record_settings_load_cb` for the key `prefix`. -/
def recordSettingsLoadCb (read : Outcome) (stored : List Char) (data : RecordData) :
    RecordData :=
  match read with
  | .ok =>
      let loaded := stored.take (recordFileNamePrefixLen - 1)
      if loaded = [] then data
      else
        { data with fileNamePrefix := ⟨loaded.takeWhile (· ≠ Char.ofNat 0), by
            have htake : loaded.length ≤ recordFileNamePrefixLen - 1 := by
              simp [loaded]
            have hwhile :=
              (List.takeWhile_sublist (p := (· ≠ Char.ofNat 0)) (l := loaded)).length_le
            simp only [recordFileNamePrefixLen] at *
            omega⟩ }
  | _ => data

/-- `settings_load_subtree_direct("rec", ...)`: the callback runs for a stored
value. -/
def loadSettings (io : InitIo) (settings : Option (List Char)) (data : RecordData) :
    RecordData :=
  match io.load, settings with
  | .ok, some stored => recordSettingsLoadCb io.read stored data
  | _, _ => data

theorem recordSettingsLoadCb_data (read : Outcome) (stored : List Char) (data : RecordData) :
    ∃ namePrefix, recordSettingsLoadCb read stored data =
      { data with fileNamePrefix := namePrefix } := by
  simp only [recordSettingsLoadCb]
  split
  · split
    · exact ⟨data.fileNamePrefix, rfl⟩
    · exact ⟨_, rfl⟩
  · exact ⟨data.fileNamePrefix, rfl⟩

theorem loadSettings_data (io : InitIo) (settings : Option (List Char)) (data : RecordData) :
    ∃ namePrefix, loadSettings io settings data = { data with fileNamePrefix := namePrefix } := by
  simp only [loadSettings]
  split
  · exact recordSettingsLoadCb_data _ _ _
  · exact ⟨data.fileNamePrefix, rfl⟩

def recordInit (io : InitIo) (s : Recorder) : Int × Recorder :=
  if s.data.init then (-ealready, s)
  else
    let data := loadSettings io s.settings s.data
    let (_, data) := recordFindNextFileIndex io.scan s.fs.card.names data
    (0, { s with data := { data with init := true } })

structure SetPrefixIo where
  save : Outcome := .ok
  scan : ScanIo := {}

def recordSetFileNamePrefix (io : SetPrefixIo) (namePrefix : List Char) (s : Recorder) :
    Int × Recorder :=
  if !s.data.init then (-einval, s)
  else if h : namePrefix.length < recordFileNamePrefixLen then
    let s := { s with data := { s.data with fileNamePrefix := ⟨namePrefix, h⟩ } }
    if io.save.code ≠ 0 then (io.save.code, s)
    else
      let s := { s with settings := if namePrefix = [] then none else some namePrefix }
      let (_, data) := recordFindNextFileIndex io.scan s.fs.card.names s.data
      (0, { s with data := data })
  else (-einval, s)

def recordCardInserted (io : ScanIo) (s : Recorder) : Int × Recorder :=
  if !s.data.init then (-einval, s)
  else
    let (ret, data) := recordFindNextFileIndex io s.fs.card.names s.data
    (if ret < 0 then ret else 0, { s with data := data })

/-- `audio_start` returns `audioStart`. -/
def recordStart (audioStart : Int) (time : UInt32) (s : Recorder) : Int × Recorder :=
  if !s.data.init then (-einval, s)
  else
    let s := { s with trace := s.trace ++ [.audioStart] }
    if audioStart ≠ 0 ∧ audioStart ≠ -ealready then (audioStart, s)
    else
      let state := match s.data.state with
        | .stopped | .waitingStart => .waitingStart
        | .waitingNewFile | .running => .waitingNewFile
      (0, { s with
        data := { s.data with state := state, startTime := time }
        led := .waiting })

/-- The local variables of `record_buffer` after its `switch`. -/
structure Split where
  oldFile : Bool
  newFile : Bool
  splitOffset : UInt32
  deriving DecidableEq, Repr

/-- The byte offset in the block at which a file starts that has to wait for
`waitTime` ticks from the start of the block. -/
def AudioBlock.splitOffset (block : AudioBlock) (waitTime : UInt32) : UInt32 :=
  let blockFrames := block.len / block.bytesPerFrame.toUInt32
  divRoundClosest (waitTime * blockFrames) block.duration * block.bytesPerFrame.toUInt32

/-- The `switch` of `record_buffer`; `none` is its early return. -/
def recordSwitch (data : RecordData) (block : AudioBlock) : Option Split :=
  let waiting (oldFile : Bool) : Split :=
    let waitTime := ahead data.startTime block.startTime
    if waitTime ≤ block.duration then ⟨oldFile, true, block.splitOffset waitTime⟩
    else ⟨oldFile, false, block.len⟩
  match data.state with
  | .stopped => none
  | .waitingNewFile => some (waiting true)
  | .waitingStart => some (waiting false)
  | .running => some ⟨true, false, block.len⟩

structure BufferIo where
  beforeWrite : List WavCloseIo := []
  write : Outcome := .ok
  /-- The two values of `k_uptime_get`. -/
  uptimeMs : Int := 0
  newUptimeMs : Int := 0
  beforeSync : List WavCloseIo := []
  sync : Outcome := .ok
  closeFile : CloseFileIo := {}
  beforeOpen : List WavCloseIo := []
  wavOpen : WavOpenIo := {}
  beforeNewWrite : List WavCloseIo := []
  newWrite : Outcome := .ok
  errorCloseFile : CloseFileIo := {}

def writeFile (o : Outcome) (buf : List UInt8) (len : UInt32) (s : Recorder) :
    Int × Recorder :=
  let (ret, file, fs) := wavWrite o s.data.file buf len s.fs
  (ret, { s with
    data := { s.data with file := file }
    fs := fs
    trace := s.trace ++ [.written s.data.file ret] })

@[simp] theorem setState_state (state : RecordState) (s : Recorder) :
    (s.setState state).data.state = state :=
  rfl

@[simp] theorem setLastSyncTimeMs_state (ms : Int) (s : Recorder) :
    (s.setLastSyncTimeMs ms).data.state = s.data.state :=
  rfl

@[simp] theorem setLed_data (led : LedRecordState) (s : Recorder) :
    (s.setLed led).data = s.data :=
  rfl

@[simp] theorem writeFile_state (o : Outcome) (buf : List UInt8) (len : UInt32) (s : Recorder) :
    (writeFile o buf len s).2.data.state = s.data.state :=
  rfl

def recordFileFormat : WavFormat where
  channels := 2
  sampleRate := 48000
  bitsPerSample := 16
  maxFileSize := 2147483647

/-- The bytes of samples that a file of the format takes. -/
def maxDataSize : Nat := 2147483600

theorem recordFileFormat_accepted : recordFileFormat.Accepted := by
  refine ⟨?_, ?_, ?_, ?_⟩ <;> decide

/-- `wav_open` of the next file name. -/
def openFile (io : WavOpenIo) (s : Recorder) : Int × Recorder :=
  let name := s.data.fileName
  let (ret, file, fs) := wavOpen io s.data.file name recordFileFormat s.fs
  (ret, { s with
    data := { s.data with file := file }
    fs := fs
    trace := s.trace ++ [.opened name (s.fs.card.finds name) ret file] })

def bufferError (ret : Int) (s : Recorder) : Int × Recorder :=
  (ret, s.setState .stopped)

def bufferFileError (io : BufferIo) (ret : Int) (s : Recorder) : Int × Recorder :=
  bufferError ret (recordCloseFile io.errorCloseFile s)

def recordSyncIntervalMs : Int := 5000

def bufferOldFile (io : BufferIo) (block : AudioBlock) (split : Split) (s : Recorder) :
    Except Int Split × Recorder :=
  let (ret, s) := writeFile io.write block.buf split.splitOffset (closeThread io.beforeWrite s)
  if ret < 0 then (.error ret, s)
  else
    let split := if ret ≠ split.splitOffset.toNat
      then { split with newFile := true, splitOffset := UInt32.ofInt ret }
      else split
    if io.uptimeMs - s.data.lastSyncTimeMs ≥ recordSyncIntervalMs then
      let s := closeThread io.beforeSync s
      let ret := fsSync io.sync s.data.file.fp
      if ret ≠ 0 then (.error ret, s)
      else (.ok split, s.setLastSyncTimeMs io.uptimeMs)
    else (.ok split, s)

/-- The rest of the block goes into the new file. -/
def writeNewFile (io : BufferIo) (block : AudioBlock) (split : Split) (s : Recorder) :
    Int × Recorder :=
  let writeLen := block.len - split.splitOffset
  let (ret, s) := writeFile io.newWrite (block.buf.drop split.splitOffset.toNat) writeLen
    (closeThread io.beforeNewWrite s)
  if UInt32.ofInt ret ≠ writeLen then bufferFileError io ret s
  else (0, s.setState .running)

/-- The branch `if (new_file)`, up to the end of the function. -/
def bufferNewFile (io : BufferIo) (block : AudioBlock) (split : Split) (s : Recorder) :
    Int × Recorder :=
  let s := if split.oldFile then recordCloseFile io.closeFile s else s
  let s := s.setLastSyncTimeMs io.newUptimeMs
  if s.data.fileName.length ≥ fileNameSize then bufferError (-eoverflow) s
  else
    let (ret, s) := openFile io.wavOpen (closeThread io.beforeOpen s)
    if ret ≠ 0 then bufferFileError io ret s
    else writeNewFile io block split s.nextFileIndex

def recordBuffer (io : BufferIo) (block : AudioBlock) (s : Recorder) : Int × Recorder :=
  if !s.data.init then (-einval, s)
  else match recordSwitch s.data block with
    | none => (0, s)
    | some split =>
        let s := if split.newFile then s.setLed .running else s
        let (result, s) :=
          if split.oldFile then bufferOldFile io block split s else (.ok split, s)
        match result with
        | .error ret => bufferFileError io ret s
        | .ok split => if split.newFile then bufferNewFile io block split s else (0, s)

/-- The `switch` of `record_stop_unlocked`. -/
def closeWhenRecording (io : CloseFileIo) (s : Recorder) : Recorder :=
  match s.data.state with
  | .stopped | .waitingStart => s
  | .waitingNewFile | .running => recordCloseFile io s

def recordStopUnlocked (io : CloseFileIo) (s : Recorder) : Int × Recorder :=
  if !s.data.init then (-einval, s)
  else
    let s := closeWhenRecording io s
    (0, { s with
      data := { s.data with state := .stopped }
      led := .idle
      trace := s.trace ++ [.audioStop] })

def recordStop (io : CloseFileIo) (s : Recorder) : Int × Recorder :=
  recordStopUnlocked io s

def recordShutdown (io : CloseFileIo) (s : Recorder) : Int × Recorder :=
  if !s.data.init then (-ealready, s)
  else
    let (ret, s) := recordStopUnlocked io s
    if ret < 0 then (ret, s)
    else (0, { s with data := { s.data with init := false } })

/-- One call into the recorder, one round of the close thread, or a change of
the card in the slot. Files opened before a change stay listed in `fs.files`. -/
inductive Call where
  | start (audioStart : Int) (time : UInt32)
  | buffer (io : BufferIo) (block : AudioBlock)
  | stop (io : CloseFileIo)
  | shutdown (io : CloseFileIo)
  | closeThread (io : WavCloseIo)
  | setFileNamePrefix (io : SetPrefixIo) (namePrefix : List Char)
  | cardInserted (io : ScanIo)
  | swapCard (card : Card)

def step (s : Recorder) : Call → Recorder
  | .start audioStart time => (recordStart audioStart time s).2
  | .buffer io block => (recordBuffer io block s).2
  | .stop io => (recordStop io s).2
  | .shutdown io => (recordShutdown io s).2
  | .closeThread io => recordCloseThreadRun s io
  | .setFileNamePrefix io namePrefix => (recordSetFileNamePrefix io namePrefix s).2
  | .cardInserted io => (recordCardInserted io s).2
  | .swapCard card => { s with fs := { s.fs with card := card } }

def boot (card : Card) (settings : Option (List Char)) : Recorder where
  data :=
    { init := false
      fileNamePrefix := ⟨['R', 'E', 'C'], by decide⟩
      file := Wav.zero
      fileIndex := 0
      state := .stopped
      startTime := 0
      lastSyncTimeMs := 0 }
  closeQueue := []
  fs := ⟨card, []⟩
  settings := settings
  led := .idle
  trace := []

def initial (card : Card) (settings : Option (List Char)) (io : InitIo) : Recorder :=
  (recordInit io (boot card settings)).2

theorem initial_data (card : Card) (settings : Option (List Char)) (io : InitIo) :
    ∃ namePrefix index, (initial card settings io).data =
      { (boot card settings).data with
        init := true, fileNamePrefix := namePrefix, fileIndex := index } := by
  obtain ⟨namePrefix, hname⟩ := loadSettings_data io settings (boot card settings).data
  obtain ⟨index, hindex⟩ := recordFindNextFileIndex_data io.scan card.names
    (loadSettings io settings (boot card settings).data)
  refine ⟨namePrefix, index, ?_⟩
  change ({ (recordFindNextFileIndex io.scan card.names
    (loadSettings io settings (boot card settings).data)).2 with init := true } : RecordData) = _
  rw [hindex, hname]

end ZeusLe.Record
