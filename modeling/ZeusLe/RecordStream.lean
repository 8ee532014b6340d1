import ZeusLe.Library.Takes
import ZeusLe.RecordLifecycle

/-!
What the recorder is for: it cuts the stream of audio blocks into takes. When no
call into the file system fails, the files on the card are the takes that
`Library.Takes` describes, whatever the close thread does meanwhile.
-/

namespace ZeusLe.RecordStream

open ZeusLe.FileSystem
open ZeusLe.WavFile
open ZeusLe.Library.Run
open ZeusLe.Library.Word
open ZeusLe.Library.Takes
open ZeusLe.Record
open ZeusLe.RecordLifecycle

/-- The current file: the last one that was opened, written up to its end. -/
structure CurrentFile (s : Recorder) (current : List UInt8) : Prop where
  bounded : current.length ≤ maxDataSize
  last : ∃ init f, s.fs.files = init ++ [f] ∧ f.pos = f.bytes.length ∧ dataOf f = current ∧
    s.data.file = { recordFileFormat.opened init.length with
      dataSize := UInt32.ofNat current.length }

/-- The files hold the finished takes and, while one is owned, the current take. -/
structure Holds (s : Recorder) (done : List (List UInt8)) (own : Option (List UInt8)) :
    Prop where
  custody : Custody own.isSome s
  headers : ∀ f ∈ s.fs.files, wavHeaderSize.toNat ≤ f.bytes.length
  files : s.fs.files.map dataOf = done ++ own.toList
  current : ∀ current, own = some current → CurrentFile s current

theorem Holds.of_eq {s t : Recorder} {done : List (List UInt8)} {own : Option (List UInt8)}
    (h : Holds s done own) (htrace : t.trace = s.trace) (hqueue : t.closeQueue = s.closeQueue)
    (hfile : t.data.file = s.data.file) (hfiles : t.fs.files = s.fs.files) :
    Holds t done own where
  custody := h.custody.of_eq htrace hqueue hfile (le_of_eq (congrArg List.length hfiles.symm))
  headers := by simpa only [hfiles] using h.headers
  files := by simpa only [hfiles] using h.files
  current current hown := by
    obtain ⟨hbounded, hlast⟩ := h.current current hown
    exact ⟨hbounded, by simpa only [hfiles, hfile] using hlast⟩

theorem map_dataOf_modify {g : File → File} (hg : HeaderEdit g) {files : List File}
    (hheaders : ∀ f ∈ files, wavHeaderSize.toNat ≤ f.bytes.length) (h : Nat) :
    (files.modify h g).map dataOf = files.map dataOf := by
  induction files generalizing h with
  | nil => simp
  | cons f files ih =>
      have hf := hheaders f (by simp)
      cases h with
      | zero => simp [hg.data f hf]
      | succ h =>
          simp only [List.modify_succ_cons, List.map_cons]
          rw [ih fun f' hmem => hheaders f' (by simp [hmem])]

theorem headers_modify {g : File → File} (hg : HeaderEdit g) {files : List File}
    (hheaders : ∀ f ∈ files, wavHeaderSize.toNat ≤ f.bytes.length) (h : Nat) :
    ∀ f ∈ files.modify h g, wavHeaderSize.toNat ≤ f.bytes.length := by
  intro f hf
  obtain ⟨i, hi, rfl⟩ := List.getElem_of_mem hf
  have hi' : i < files.length := by simpa using hi
  have hold := hheaders _ (List.getElem_mem hi')
  rw [List.getElem_modify]
  split
  · rw [hg.length _ hold]
    exact hold
  · exact hold

theorem holds_closeThreadRun {s : Recorder} {done : List (List UInt8)}
    {own : Option (List UInt8)} (h : Holds s done own) (io : WavCloseIo) :
    Holds (recordCloseThreadRun s io) done own := by
  rcases hqueue : s.closeQueue with _ | ⟨w, queue⟩
  · simpa only [recordCloseThreadRun, hqueue] using h
  · obtain ⟨handle, hopened, hfp, hother⟩ := h.custody.queued_opened (w := w) (by simp [hqueue])
    have hlt := h.custody.fresh handle hopened
    obtain ⟨g, hg, hclose⟩ := wavUpdateSize_headerEdit io hfp s.fs
    have hfiles : (recordCloseThreadRun s io).fs.files = s.fs.files.modify handle g := by
      simp only [recordCloseThreadRun, hqueue, wavClose_fs, hclose]
    refine ⟨custody_closeThreadRun h.custody io, ?_, ?_, ?_⟩
    · rw [hfiles]
      exact headers_modify hg h.headers handle
    · rw [hfiles, map_dataOf_modify hg h.headers, h.files]
    · intro current hown
      obtain ⟨hbounded, init, f, hinit, hpos, hdata, hfile⟩ := h.current current hown
      have hne : s.data.file.fp ≠ some handle := hother (by simp [hown])
      have hhandle : handle < init.length := by
        have hneLast : handle ≠ init.length := fun heq => hne (by rw [hfile, heq]; rfl)
        have hlen : s.fs.files.length = init.length + 1 := by simp [hinit]
        omega
      refine ⟨hbounded, init.modify handle g, f, ?_, hpos, hdata, ?_⟩
      · rw [hfiles, hinit, modify_not_last g f hhandle]
      · rw [recordCloseThreadRun_data, hfile, List.length_modify]

theorem holds_closeThread {s : Recorder} {done : List (List UInt8)}
    {own : Option (List UInt8)} (h : Holds s done own) (rounds : List WavCloseIo) :
    Holds (closeThread rounds s) done own :=
  closeThread_keeps (P := fun s => Holds s done own) (fun _ io h => holds_closeThreadRun h io) h
    rounds

@[simp] theorem recordCloseFile_init (io : CloseFileIo) (s : Recorder) :
    (recordCloseFile io s).data.init = s.data.init := by
  simp only [recordCloseFile]
  split
  · simp [closeFileNoUpdate]
  · split <;> simp [queueFile]

theorem holds_recordCloseFile {s : Recorder} {done : List (List UInt8)} {current : List UInt8}
    (h : Holds s done (some current)) (io : CloseFileIo) :
    Holds (recordCloseFile io s) (done ++ [current]) none := by
  have hcustody := custody_recordCloseFile h.custody io
  have hbefore := holds_closeThread h io.before
  have hdrop : ∀ t : Recorder, Holds t done (some current) →
      t.fs.files = (recordCloseFile io s).fs.files →
      Holds (recordCloseFile io s) (done ++ [current]) none := by
    intro t ht hfiles
    refine ⟨hcustody, by simpa only [hfiles] using ht.headers, ?_, by simp⟩
    rw [← hfiles, ht.files]
    simp
  by_cases hfailed : io.failed
  · exact hdrop _ hbefore (by simp only [recordCloseFile, hfailed, if_true, closeFileNoUpdate])
  · by_cases hroom : (closeThread io.before s).closeQueue.length < closeQueueLen
    · exact hdrop _ hbefore (by simp [recordCloseFile, hfailed, hroom, queueFile])
    · exact hdrop _ (holds_closeThreadRun hbefore io.room)
        (by simp [recordCloseFile, hfailed, hroom, queueFile])

theorem holds_openFile {s : Recorder} {done : List (List UInt8)} (h : Holds s done none)
    {io : WavOpenIo} (hio : io.Succeeds) :
    (openFile io s).1 = 0 ∧ Holds (openFile io s).2 done (some []) := by
  obtain ⟨hret, hcustody⟩ := custody_openFile h.custody hio
  have hopen := wavOpen_ok hio recordFileFormat_accepted s.data.file s.data.fileName s.fs
  have hfiles : (openFile io s).2.fs.files =
      s.fs.files ++ [recordFileFormat.newFile s.data.fileName] := by
    simp only [openFile, hopen]
  have hfile : (openFile io s).2.data.file = recordFileFormat.opened s.fs.files.length := by
    simp only [openFile, hopen]
  refine ⟨hret, hcustody, ?_, ?_, ?_⟩
  · intro f hf
    rw [hfiles] at hf
    rcases List.mem_append.mp hf with hold | hnew
    · exact h.headers f hold
    · rw [List.mem_singleton.mp hnew, WavFormat.length_newFile]
  · rw [hfiles, List.map_append, h.files]
    simp [dataOf, List.drop_eq_nil_of_le, WavFormat.length_newFile]
  · rintro current hcurrent
    obtain rfl : [] = current := Option.some.inj hcurrent
    refine ⟨by simp, s.fs.files, recordFileFormat.newFile s.data.fileName, hfiles, ?_, ?_, ?_⟩
    · rw [WavFormat.length_newFile]
      rfl
    · simp [dataOf, List.drop_eq_nil_of_le, WavFormat.length_newFile]
    · rw [hfile]
      rfl

/-- How much of `len` bytes still fits into the take. -/
def roomFor (current : List UInt8) (len : Nat) : Nat :=
  min len (maxDataSize - current.length)

theorem holds_writeFile {s : Recorder} {done : List (List UInt8)} {current : List UInt8}
    (h : Holds s done (some current)) (buf : List UInt8) {len : UInt32}
    (hlen : len.toNat ≤ maxDataSize) (hbuf : len.toNat ≤ buf.length) :
    (writeFile .ok buf len s).1 = roomFor current len.toNat ∧
      Holds (writeFile .ok buf len s).2 done
        (some (current ++ buf.take (roomFor current len.toNat))) := by
  obtain ⟨hbounded, init, f, hfiles, hpos, hdata, hfile⟩ := h.current current rfl
  have hmax : maxDataSize = 2147483600 := rfl
  have hcur : (UInt32.ofNat current.length).toNat = current.length := by
    simp only [UInt32.toNat_ofNat']
    exact Nat.mod_eq_of_lt (by omega)
  let w : Wav := { recordFileFormat.opened init.length with
    dataSize := UInt32.ofNat current.length }
  have hwmax : w.maxDataSize.toNat = maxDataSize := rfl
  have hroom : (w.writeLen len).toNat = roomFor current len.toNat := by
    rw [Wav.toNat_writeLen, hwmax, hcur, roomFor]
    · rw [UInt32.le_iff_toNat_le, hcur, hwmax]
      exact hbounded
    · rw [hcur]
      omega
  have hle : roomFor current len.toNat ≤ len.toNat := Nat.min_le_left _ _
  have hsum : current.length + roomFor current len.toNat ≤ maxDataSize := by
    simp only [roomFor]
    omega
  have hheader : wavHeaderSize.toNat ≤ f.bytes.length :=
    h.headers f (by simp [hfiles])
  have hwrite := wavWrite_ok (w := w) (h := init.length) rfl
    (show (w.writeLen len).toNat < 2 ^ 31 by rw [hroom]; omega) buf s.fs
  rw [hroom, hfiles, modify_last, File.store_eq_append hpos] at hwrite
  have hcustody := custody_writeFile h.custody .ok buf len
  have hresult : writeFile .ok buf len s = ((roomFor current len.toNat : Int),
      { s with
        data := { s.data with file := { w with dataSize := w.dataSize + w.writeLen len } }
        fs := { s.fs with files := init ++ [f.append (buf.take (roomFor current len.toNat))] }
        trace := s.trace ++ [.written s.data.file (roomFor current len.toNat)] }) := by
    simp only [writeFile]
    rw [hfile, hwrite]
  rw [hresult] at hcustody ⊢
  refine ⟨rfl, hcustody, ?_, ?_, ?_⟩
  · intro f' hf'
    rcases List.mem_append.mp hf' with hold | hnew
    · exact h.headers f' (by simp [hfiles, hold])
    · rw [List.mem_singleton.mp hnew]
      simp only [File.append, List.length_append]
      omega
  · have hold := h.files
    rw [hfiles, List.map_append, List.map_singleton, hdata] at hold
    simp only [List.map_append, List.map_cons, List.map_nil, dataOf_append hheader, hdata]
    have hinit : init.map dataOf = done := List.append_inj_left' hold rfl
    rw [hinit]
    rfl
  · rintro current' hcurrent'
    obtain rfl := Option.some.inj hcurrent'
    have htake : (buf.take (roomFor current len.toNat)).length = roomFor current len.toNat :=
      List.length_take_of_le (hle.trans hbuf)
    refine ⟨?_, init, f.append (buf.take (roomFor current len.toNat)), rfl, ?_, ?_, ?_⟩
    · rw [List.length_append, htake]
      exact hsum
    · simp [File.append]
    · rw [dataOf_append hheader, hdata]
    · have hsize : w.dataSize + w.writeLen len =
          UInt32.ofNat (current ++ buf.take (roomFor current len.toNat)).length := by
        rw [List.length_append, htake, UInt32.ofNat_add, ← hroom, UInt32.ofNat_toNat]
      rw [← hsize]

/-- The offset at which a file for `time` starts, when it starts in this block. -/
def cutAt (block : AudioBlock) (time : UInt32) : Option Nat :=
  let waitTime := ahead time block.startTime
  if waitTime ≤ block.duration then some (block.splitOffset waitTime).toNat else none

abbrev streamBlock (block : AudioBlock) : Block UInt8 UInt32 where
  symbols := block.buf
  cut := cutAt block

theorem splitOffset_le (block : AudioBlock) {waitTime : UInt32}
    (hwait : waitTime ≤ block.duration) : block.splitOffset waitTime ≤ block.len := by
  let frames := block.len / block.bytesPerFrame.toUInt32
  have hframes : divRoundClosest (waitTime * frames) block.duration ≤ frames :=
    divRoundClosest_mul_le hwait
  rw [UInt32.le_iff_toNat_le] at hframes ⊢
  calc
    (block.splitOffset waitTime).toNat
      ≤ (divRoundClosest (waitTime * frames) block.duration).toNat *
          block.bytesPerFrame.toUInt32.toNat := by
        simp only [AudioBlock.splitOffset, UInt32.toNat_mul]
        exact Nat.mod_le _ _
    _ ≤ frames.toNat * block.bytesPerFrame.toUInt32.toNat := Nat.mul_le_mul_right _ hframes
    _ ≤ block.len.toNat := by
        simp only [frames, UInt32.toNat_div]
        exact Nat.div_mul_le_self _ _

theorem recordSwitch_waiting {data : RecordData} (block : AudioBlock) (oldFile : Bool)
    (hstate : data.state = if oldFile then .waitingNewFile else .waitingStart) :
    ∃ split, recordSwitch data block = some split ∧ split.oldFile = oldFile ∧
      split.splitOffset ≤ block.len ∧
      ((split.newFile = true ∧
          cutAt block data.startTime = some split.splitOffset.toNat) ∨
        (split.newFile = false ∧ split.splitOffset = block.len ∧
          cutAt block data.startTime = none)) := by
  by_cases hwait : ahead data.startTime block.startTime ≤ block.duration
  · refine ⟨⟨oldFile, true, block.splitOffset (ahead data.startTime block.startTime)⟩,
      ?_, rfl, splitOffset_le block hwait, Or.inl ⟨rfl, ?_⟩⟩
    · cases oldFile <;> simp [recordSwitch, hstate, hwait]
    · simp only [cutAt, if_pos hwait]
  · refine ⟨⟨oldFile, false, block.len⟩, ?_, rfl, UInt32.le_refl _, Or.inr ⟨rfl, rfl, ?_⟩⟩
    · cases oldFile <;> simp [recordSwitch, hstate, hwait]
    · simp only [cutAt, if_neg hwait]

def control (s : Recorder) : Bool × RecordState × UInt32 :=
  (s.data.init, s.data.state, s.data.startTime)

/-- No call that `record_buffer` makes to the file system fails, and the block
fits into a file. The blocks of `audio_thread_run` have 14400 bytes. -/
structure BufferSucceeds (io : BufferIo) (block : AudioBlock) : Prop where
  write : io.write = .ok
  sync : io.sync = .ok
  wavOpen : io.wavOpen.Succeeds
  newWrite : io.newWrite = .ok
  fits : block.buf.length ≤ maxDataSize

/-- The split after the write to the old file: a full file makes room for a new
one. -/
def afterWrite (split : Split) (stored : Nat) : Split :=
  if stored = split.splitOffset.toNat then split
  else { split with newFile := true, splitOffset := UInt32.ofNat stored }

theorem holds_bufferOldFile {s : Recorder} {done : List (List UInt8)} {current : List UInt8}
    (h : Holds s done (some current)) {io : BufferIo} {block : AudioBlock}
    (hio : BufferSucceeds io block) {split : Split} (hsplit : split.splitOffset ≤ block.len) :
    (bufferOldFile io block split s).1 =
        .ok (afterWrite split (roomFor current split.splitOffset.toNat)) ∧
      Holds (bufferOldFile io block split s).2 done
        (some (current ++ block.buf.take (roomFor current split.splitOffset.toNat))) ∧
      control (bufferOldFile io block split s).2 = control s := by
  have hlen : split.splitOffset.toNat ≤ block.buf.length := by
    simpa [UInt32.le_iff_toNat_le] using hsplit
  have hfits := hio.fits
  have hmax : maxDataSize = 2147483600 := rfl
  obtain ⟨hret, hwritten⟩ := holds_writeFile (holds_closeThread h io.beforeWrite) block.buf
    (hlen.trans hfits) hlen
  have hcontrol : control (writeFile .ok block.buf split.splitOffset
      (closeThread io.beforeWrite s)).2 = control s := by
    simp [control, writeFile]
  have hafter : (if (roomFor current split.splitOffset.toNat : Int) ≠ split.splitOffset.toNat
      then { split with
        newFile := true
        splitOffset := UInt32.ofInt (roomFor current split.splitOffset.toNat) }
      else split) = afterWrite split (roomFor current split.splitOffset.toNat) := by
    simp only [afterWrite, ne_eq, Int.natCast_inj, ite_not, ofInt_natCast]
  simp only [bufferOldFile, hio.write, hret]
  rw [if_neg (by omega), hafter]
  generalize (writeFile .ok block.buf split.splitOffset
    (closeThread io.beforeWrite s)).2 = t at hwritten hcontrol ⊢
  obtain ⟨_, init, f, _, _, _, hfile⟩ :=
    (holds_closeThread hwritten io.beforeSync).current _ rfl
  have hsync : fsSync io.sync (closeThread io.beforeSync t).data.file.fp = 0 := by
    rw [hfile, hio.sync]
    rfl
  split
  · rw [if_neg (by simpa using hsync)]
    refine ⟨rfl, (holds_closeThread hwritten io.beforeSync).of_eq rfl rfl rfl rfl, ?_⟩
    rw [← hcontrol]
    simp [control, Recorder.setLastSyncTimeMs]
  · exact ⟨rfl, hwritten, hcontrol⟩

theorem length_fileName_lt (data : RecordData) : data.fileName.length < fileNameSize := by
  have hname := data.fileNamePrefix.property
  have hdigits : (Library.Decimal.padded 4 data.fileIndex.toNat).length ≤ 10 :=
    Library.Decimal.length_padded_le (by decide) (by decide)
      (data.fileIndex.toNat_lt.trans (by decide))
  simp only [RecordData.fileName, indexedName, List.length_append, List.length_cons,
    fileNameSize, recordFileNamePrefixLen] at *
  omega

theorem holds_writeNewFile {s : Recorder} {done : List (List UInt8)}
    (h : Holds s done (some [])) {io : BufferIo} {block : AudioBlock}
    (hio : BufferSucceeds io block) {split : Split} (hsplit : split.splitOffset ≤ block.len) :
    (writeNewFile io block split s).1 = 0 ∧
      Holds (writeNewFile io block split s).2 done
        (some (block.buf.drop split.splitOffset.toNat)) ∧
      (writeNewFile io block split s).2.data.state = .running ∧
      (writeNewFile io block split s).2.data.init = s.data.init := by
  have hfits := hio.fits
  have hlen : (block.len - split.splitOffset).toNat =
      (block.buf.drop split.splitOffset.toNat).length := by
    rw [UInt32.toNat_sub_of_le _ _ hsplit, AudioBlock.toNat_len, List.length_drop]
  have hdrop : (block.buf.drop split.splitOffset.toNat).length ≤ maxDataSize := by
    rw [List.length_drop]
    omega
  obtain ⟨hret, hwritten⟩ := holds_writeFile (holds_closeThread h io.beforeNewWrite)
    (block.buf.drop split.splitOffset.toNat) (hlen.trans_le hdrop) hlen.le
  have hroom : roomFor [] (block.len - split.splitOffset).toNat =
      (block.buf.drop split.splitOffset.toNat).length := by
    rw [roomFor, hlen]
    exact Nat.min_eq_left hdrop
  rw [hroom, List.nil_append, List.take_length] at hwritten
  have hall : UInt32.ofInt (writeFile .ok (block.buf.drop split.splitOffset.toNat)
      (block.len - split.splitOffset) (closeThread io.beforeNewWrite s)).1 =
      block.len - split.splitOffset := by
    rw [hret, hroom, ← hlen]
    exact (ofInt_natCast _).trans UInt32.ofNat_toNat
  simp only [writeNewFile, hio.newWrite]
  rw [if_neg (by simpa using hall)]
  refine ⟨rfl, hwritten.of_eq rfl rfl rfl rfl, rfl, ?_⟩
  simp [writeFile, Recorder.setState]

theorem holds_bufferNewFile {s : Recorder} {done : List (List UInt8)}
    {own : Option (List UInt8)} (h : Holds s done own) {io : BufferIo} {block : AudioBlock}
    (hio : BufferSucceeds io block) {split : Split} (hsplit : split.splitOffset ≤ block.len)
    (hold : split.oldFile = own.isSome) :
    (bufferNewFile io block split s).1 = 0 ∧
      Holds (bufferNewFile io block split s).2 (done ++ own.toList)
        (some (block.buf.drop split.splitOffset.toNat)) ∧
      (bufferNewFile io block split s).2.data.state = .running ∧
      (bufferNewFile io block split s).2.data.init = s.data.init := by
  have hclosed : Holds (if split.oldFile then recordCloseFile io.closeFile s else s)
      (done ++ own.toList) none := by
    rcases own with _ | current
    · rw [hold, Option.toList_none, List.append_nil]
      exact h
    · rw [hold]
      exact holds_recordCloseFile h io.closeFile
  have hinit : (if split.oldFile then recordCloseFile io.closeFile s else s).data.init =
      s.data.init := by
    split
    · exact recordCloseFile_init io.closeFile s
    · rfl
  simp only [bufferNewFile]
  generalize (if split.oldFile then recordCloseFile io.closeFile s else s) = t at hclosed hinit ⊢
  rw [if_neg (Nat.not_le_of_lt (length_fileName_lt _))]
  have hready : Holds (t.setLastSyncTimeMs io.newUptimeMs) (done ++ own.toList) none :=
    hclosed.of_eq rfl rfl rfl rfl
  obtain ⟨hret, hopened⟩ := holds_openFile (holds_closeThread hready io.beforeOpen) hio.wavOpen
  rw [if_neg (by simpa using hret)]
  have hcounted : Holds (openFile io.wavOpen (closeThread io.beforeOpen
      (t.setLastSyncTimeMs io.newUptimeMs))).2.nextFileIndex (done ++ own.toList) (some []) :=
    hopened.of_eq rfl rfl rfl rfl
  obtain ⟨hzero, hholds, hstate, hkeep⟩ := holds_writeNewFile hcounted hio hsplit
  refine ⟨hzero, hholds, hstate, hkeep.trans ?_⟩
  rw [← hinit]
  simp [openFile, Recorder.nextFileIndex, Recorder.setLastSyncTimeMs]

theorem afterWrite_oldFile (split : Split) (stored : Nat) :
    (afterWrite split stored).oldFile = split.oldFile := by
  simp only [afterWrite]
  split <;> rfl

theorem afterWrite_newFile (split : Split) (stored : Nat) :
    (afterWrite split stored).newFile = true ↔
      split.newFile = true ∨ stored ≠ split.splitOffset.toNat := by
  simp only [afterWrite]
  split <;> simp_all

theorem afterWrite_splitOffset {split : Split} {stored : Nat}
    (hstored : stored ≤ split.splitOffset.toNat) :
    (afterWrite split stored).splitOffset.toNat = stored := by
  have hlt := split.splitOffset.toNat_lt
  simp only [afterWrite]
  split
  · exact Eq.symm ‹_›
  · simp only [UInt32.toNat_ofNat']
    exact Nat.mod_eq_of_lt (by omega)

theorem holds_led {s : Recorder} {done : List (List UInt8)} {own : Option (List UInt8)}
    (h : Holds s done own) (newFile : Bool) :
    Holds (if newFile then s.setLed .running else s) done own ∧
      control (if newFile then s.setLed .running else s) = control s := by
  split
  · exact ⟨h.of_eq rfl rfl rfl rfl, rfl⟩
  · exact ⟨h, rfl⟩

theorem recordBuffer_split {s : Recorder} {done : List (List UInt8)} {current : List UInt8}
    (h : Holds s done (some current)) (hinit : s.data.init = true) {io : BufferIo}
    {block : AudioBlock} (hio : BufferSucceeds io block) {split : Split}
    (hswitch : recordSwitch s.data block = some split) (hold : split.oldFile = true)
    (hsplit : split.splitOffset ≤ block.len) {n : Nat}
    (hn : n = roomFor current split.splitOffset.toNat)
    (hnew : split.newFile = true ∨ n ≠ split.splitOffset.toNat) :
    (recordBuffer io block s).1 = 0 ∧
      Holds (recordBuffer io block s).2 (done ++ [current ++ block.buf.take n])
        (some (block.buf.drop n)) ∧
      (recordBuffer io block s).2.data.state = .running ∧
      (recordBuffer io block s).2.data.init = true := by
  obtain ⟨hled, hcontrol⟩ := holds_led h split.newFile
  simp only [recordBuffer, hinit, hswitch, hold, Bool.not_true, Bool.false_eq_true, if_false,
    if_true]
  generalize (if split.newFile then s.setLed .running else s) = t at hled hcontrol ⊢
  obtain ⟨hres, hwritten, hkeep⟩ := holds_bufferOldFile hled hio hsplit
  rw [← hn] at hres hwritten
  have hle : n ≤ split.splitOffset.toNat := hn.trans_le (Nat.min_le_left _ _)
  have hoffset := afterWrite_splitOffset hle
  simp only [hres, (afterWrite_newFile split n).mpr hnew, if_true]
  have hinside : (afterWrite split n).splitOffset ≤ block.len := by
    rw [UInt32.le_iff_toNat_le] at hsplit ⊢
    omega
  obtain ⟨hret, hholds, hstate, hsame⟩ := holds_bufferNewFile hwritten hio hinside
    (by rw [afterWrite_oldFile, hold]; rfl)
  rw [hoffset] at hholds
  refine ⟨hret, hholds, hstate, hsame.trans ?_⟩
  rw [← hinit]
  exact congrArg Prod.fst (hkeep.trans hcontrol)

theorem recordBuffer_keep {s : Recorder} {done : List (List UInt8)} {current : List UInt8}
    (h : Holds s done (some current)) (hinit : s.data.init = true) {io : BufferIo}
    {block : AudioBlock} (hio : BufferSucceeds io block) {split : Split}
    (hswitch : recordSwitch s.data block = some split) (hold : split.oldFile = true)
    (hsplit : split.splitOffset = block.len) (hnew : split.newFile = false)
    (hroom : current.length + block.buf.length ≤ maxDataSize) :
    (recordBuffer io block s).1 = 0 ∧
      Holds (recordBuffer io block s).2 done (some (current ++ block.buf)) ∧
      control (recordBuffer io block s).2 = control s := by
  have hn : roomFor current split.splitOffset.toNat = block.buf.length := by
    rw [roomFor, hsplit, AudioBlock.toNat_len]
    omega
  have hstored : block.buf.length = split.splitOffset.toNat := by
    rw [hsplit, AudioBlock.toNat_len]
  have hinside : split.splitOffset ≤ block.len := by
    rw [hsplit]
    exact UInt32.le_refl _
  obtain ⟨hres, hwritten, hkeep⟩ := holds_bufferOldFile h hio hinside
  rw [hn, List.take_length] at hwritten
  rw [hn, afterWrite, if_pos hstored] at hres
  simp only [recordBuffer, hinit, hswitch, hold, hnew, Bool.not_true, Bool.false_eq_true,
    if_false, if_true, hres]
  exact ⟨trivial, hwritten, hkeep⟩

theorem recordBuffer_first {s : Recorder} {done : List (List UInt8)}
    (h : Holds s done none) (hinit : s.data.init = true) {io : BufferIo}
    {block : AudioBlock} (hio : BufferSucceeds io block) {split : Split}
    (hswitch : recordSwitch s.data block = some split) (hold : split.oldFile = false)
    (hsplit : split.splitOffset ≤ block.len) (hnew : split.newFile = true) :
    (recordBuffer io block s).1 = 0 ∧
      Holds (recordBuffer io block s).2 done
        (some (block.buf.drop split.splitOffset.toNat)) ∧
      (recordBuffer io block s).2.data.state = .running ∧
      (recordBuffer io block s).2.data.init = true := by
  have hled : Holds (s.setLed .running) done none := h.of_eq rfl rfl rfl rfl
  obtain ⟨hret, hholds, hstate, hsame⟩ := holds_bufferNewFile hled hio hsplit (by simpa using hold)
  simp only [recordBuffer, hinit, hswitch, hold, hnew, Bool.not_true, Bool.false_eq_true,
    if_false, if_true]
  rw [Option.toList_none, List.append_nil] at hholds
  exact ⟨hret, hholds, hstate, hsame.trans hinit⟩

def InPhase (data : RecordData) : Phase UInt8 UInt32 → Prop
  | .stopped => data.state = .stopped
  | .waitingStart time => data.state = .waitingStart ∧ data.startTime = time
  | .waitingNewTake time _ => data.state = .waitingNewFile ∧ data.startTime = time
  | .running _ => data.state = .running

/-- The recorder is initialized and its files are the takes of the tape. -/
structure Refines (s : Recorder) (tape : Tape UInt8 UInt32) : Prop where
  init : s.data.init = true
  phase : InPhase s.data tape.phase
  holds : Holds s tape.done tape.phase.current

theorem refines_recordBuffer {s : Recorder} {tape : Tape UInt8 UInt32} (h : Refines s tape)
    {io : BufferIo} {block : AudioBlock} (hio : BufferSucceeds io block) :
    (recordBuffer io block s).1 = 0 ∧
      Refines (recordBuffer io block s).2 (tape.block maxDataSize (streamBlock block)) := by
  obtain ⟨hinit, hphase, hholds⟩ := h
  rcases tape with ⟨done, _ | time | ⟨time, current⟩ | current⟩
  · have hswitch : recordSwitch s.data block = none := by
      simp only [recordSwitch, show s.data.state = .stopped from hphase]
    have hsame : recordBuffer io block s = (0, s) := by
      simp [recordBuffer, hinit, hswitch]
    rw [hsame]
    exact ⟨rfl, hinit, hphase, hholds⟩
  · obtain ⟨hstate, rfl⟩ := hphase
    obtain ⟨split, hswitch, hold, hsplit, hcut⟩ :=
      recordSwitch_waiting block false hstate
    rcases hcut with ⟨hnew, hcut⟩ | ⟨hnew, _, hcut⟩
    · obtain ⟨hret, hfirst, hrunning, hkept⟩ :=
        recordBuffer_first hholds hinit hio hswitch hold hsplit hnew
      simp only [Tape.block, hcut]
      exact ⟨hret, hkept, hrunning, hfirst⟩
    · have hsame : recordBuffer io block s = (0, s) := by
        simp [recordBuffer, hinit, hswitch, hold, hnew]
      simp only [hsame, Tape.block, hcut]
      exact ⟨trivial, hinit, ⟨hstate, rfl⟩, hholds⟩
  · obtain ⟨hstate, rfl⟩ := hphase
    obtain ⟨split, hswitch, hold, hsplit, hcut⟩ :=
      recordSwitch_waiting block true hstate
    have hbounded := (hholds.current current rfl).bounded
    rcases hcut with ⟨hnew, hcut⟩ | ⟨hnew, hwhole, hcut⟩
    · obtain ⟨hret, hsplitted, hrunning, hkept⟩ :=
        recordBuffer_split hholds hinit hio hswitch hold hsplit rfl (Or.inl hnew)
      simp only [Tape.block, hcut]
      exact ⟨hret, hkept, hrunning, hsplitted⟩
    · simp only [Tape.block, hcut]
      by_cases hroom : current.length + block.buf.length ≤ maxDataSize
      · obtain ⟨hret, hwritten, hkept⟩ :=
          recordBuffer_keep hholds hinit hio hswitch hold hwhole hnew hroom
        rw [if_pos hroom]
        simp only [control, Prod.mk.injEq] at hkept
        obtain ⟨hkeptInit, hkeptState, hkeptTime⟩ := hkept
        exact ⟨hret, hkeptInit.trans hinit, ⟨hkeptState.trans hstate, hkeptTime⟩, hwritten⟩
      · have hn : maxDataSize - current.length = roomFor current split.splitOffset.toNat := by
          rw [roomFor, hwhole, AudioBlock.toNat_len]
          omega
        obtain ⟨hret, hsplitted, hrunning, hkept⟩ :=
          recordBuffer_split hholds hinit hio hswitch hold hsplit hn
            (Or.inr (by rw [hwhole, AudioBlock.toNat_len]; omega))
        rw [if_neg hroom]
        exact ⟨hret, hkept, hrunning, hsplitted⟩
  · have hstate : s.data.state = .running := hphase
    have hswitch : recordSwitch s.data block = some ⟨true, false, block.len⟩ := by
      simp only [recordSwitch, hstate]
    have hbounded := (hholds.current current rfl).bounded
    simp only [Tape.block]
    by_cases hroom : current.length + block.buf.length ≤ maxDataSize
    · obtain ⟨hret, hwritten, hkept⟩ :=
        recordBuffer_keep hholds hinit hio hswitch rfl rfl rfl hroom
      rw [if_pos hroom]
      simp only [control, Prod.mk.injEq] at hkept
      obtain ⟨hkeptInit, hkeptState, _⟩ := hkept
      exact ⟨hret, hkeptInit.trans hinit, hkeptState.trans hstate, hwritten⟩
    · have hn : maxDataSize - current.length = roomFor current block.len.toNat := by
        rw [roomFor, AudioBlock.toNat_len]
        omega
      obtain ⟨hret, hsplitted, hrunning, hkept⟩ :=
        recordBuffer_split hholds hinit hio hswitch rfl (UInt32.le_refl _) hn
          (Or.inr (by rw [AudioBlock.toNat_len]; omega))
      rw [if_neg hroom]
      exact ⟨hret, hkept, hrunning, hsplitted⟩

theorem refines_recordStop {s : Recorder} {tape : Tape UInt8 UInt32} (h : Refines s tape)
    (io : CloseFileIo) : Refines (recordStop io s).2 tape.stop := by
  obtain ⟨hinit, hphase, hholds⟩ := h
  have hclosed : Holds (closeWhenRecording io s) tape.takes none ∧
      (closeWhenRecording io s).data.init = true := by
    simp only [closeWhenRecording]
    rcases tape with ⟨done, _ | time | ⟨time, current⟩ | current⟩
    · rw [show s.data.state = .stopped from hphase]
      exact ⟨by simpa [Tape.takes, Phase.current] using hholds, hinit⟩
    · rw [hphase.1]
      exact ⟨by simpa [Tape.takes, Phase.current] using hholds, hinit⟩
    · rw [hphase.1]
      exact ⟨holds_recordCloseFile hholds io, (recordCloseFile_init io s).trans hinit⟩
    · rw [show s.data.state = .running from hphase]
      exact ⟨holds_recordCloseFile hholds io, (recordCloseFile_init io s).trans hinit⟩
  have hready : ¬ (!s.data.init) = true := by simp [hinit]
  simp only [recordStop, recordStopUnlocked, if_neg hready]
  refine ⟨hclosed.2, rfl, ?_⟩
  obtain ⟨hcustody, hheaders, hfiles, _⟩ := hclosed.1
  exact ⟨(custody_audio hcustody (Or.inr rfl)).of_eq rfl rfl rfl le_rfl, hheaders, hfiles,
    by rintro current ⟨⟩⟩

theorem refines_recordStart {s : Recorder} {tape : Tape UInt8 UInt32} (h : Refines s tape)
    {audioStart : Int} (haudio : audioStart = 0 ∨ audioStart = -ealready) (time : UInt32) :
    Refines (recordStart audioStart time s).2 (tape.start time) := by
  obtain ⟨hinit, hphase, hholds⟩ := h
  have hstarted : ∀ (state : RecordState),
      Holds { s with
        data := { s.data with state := state, startTime := time }
        led := .waiting
        trace := s.trace ++ [.audioStart] } tape.done tape.phase.current := by
    intro state
    obtain ⟨hcustody, hheaders, hfiles, hcurrent⟩ := hholds
    refine ⟨(custody_audio hcustody (Or.inl rfl)).of_eq rfl rfl rfl le_rfl, hheaders, hfiles, ?_⟩
    intro current hown
    obtain ⟨hbounded, hlast⟩ := hcurrent current hown
    exact ⟨hbounded, hlast⟩
  have hcall : ¬ (audioStart ≠ 0 ∧ audioStart ≠ -ealready) := by tauto
  have hready : ¬ (!s.data.init) = true := by simp [hinit]
  simp only [recordStart, if_neg hready, if_neg hcall]
  rcases tape with ⟨done, _ | time' | ⟨time', current⟩ | current⟩
  · rw [show s.data.state = .stopped from hphase]
    exact ⟨hinit, ⟨rfl, rfl⟩, hstarted _⟩
  · rw [hphase.1]
    exact ⟨hinit, ⟨rfl, rfl⟩, hstarted _⟩
  · rw [hphase.1]
    exact ⟨hinit, ⟨rfl, rfl⟩, hstarted _⟩
  · rw [show s.data.state = .running from hphase]
    exact ⟨hinit, ⟨rfl, rfl⟩, hstarted _⟩

def input : Call → Input UInt8 UInt32
  | .start audioStart time =>
      if audioStart = 0 ∨ audioStart = -ealready then .start time else .idle
  | .buffer _ block => .block (streamBlock block)
  | .stop _ | .shutdown _ => .stop
  | .closeThread _ | .setFileNamePrefix _ _ | .cardInserted _ | .swapCard _ => .idle

/-- No call of the recorder to the file system fails. The outcomes of the codec,
of the close thread and of the scans are free. -/
def NoFailure (_ : Recorder) : Call → Prop
  | .buffer io block => BufferSucceeds io block
  | .shutdown _ => False
  | _ => True

theorem Refines.of_eq {s t : Recorder} {tape : Tape UInt8 UInt32} (h : Refines s tape)
    (hcontrol : control t = control s) (htrace : t.trace = s.trace)
    (hqueue : t.closeQueue = s.closeQueue) (hfile : t.data.file = s.data.file)
    (hfiles : t.fs.files = s.fs.files) : Refines t tape := by
  obtain ⟨hinit, hphase, hholds⟩ := h
  simp only [control, Prod.mk.injEq] at hcontrol
  obtain ⟨hinit', hstate, htime⟩ := hcontrol
  refine ⟨hinit'.trans hinit, ?_, hholds.of_eq htrace hqueue hfile hfiles⟩
  rcases tape with ⟨done, _ | time | ⟨time, current⟩ | current⟩ <;>
    simpa only [InPhase, hstate, htime] using hphase

theorem refines_scan {s : Recorder} {tape : Tape UInt8 UInt32} (h : Refines s tape)
    (io : ScanIo) :
    Refines { s with data := (recordFindNextFileIndex io s.fs.card.names s.data).2 } tape := by
  obtain ⟨index, hdata⟩ := recordFindNextFileIndex_data io s.fs.card.names s.data
  rw [hdata]
  exact h.of_eq rfl rfl rfl rfl rfl

theorem refines_recordSetFileNamePrefix {s : Recorder} {tape : Tape UInt8 UInt32}
    (h : Refines s tape) (io : SetPrefixIo) (namePrefix : List Char) :
    Refines (recordSetFileNamePrefix io namePrefix s).2 tape := by
  simp only [recordSetFileNamePrefix]
  split
  · exact h
  · split
    · rename_i hlen
      split
      · exact h.of_eq rfl rfl rfl rfl rfl
      · have hsaved : Refines { s with
            data := { s.data with fileNamePrefix := ⟨namePrefix, hlen⟩ }
            settings := if namePrefix = [] then none else some namePrefix } tape :=
          h.of_eq rfl rfl rfl rfl rfl
        exact refines_scan hsaved io.scan
    · exact h

theorem refines_step (s : Recorder) (tape : Tape UInt8 UInt32) (call : Call) (h : Refines s tape)
    (hcall : NoFailure s call) : Refines (step s call) (tape.step maxDataSize (input call)) := by
  cases call with
  | start audioStart time =>
      simp only [input]
      by_cases haudio : audioStart = 0 ∨ audioStart = -ealready
      · rw [if_pos haudio]
        exact refines_recordStart h haudio time
      · have hrejected : audioStart ≠ 0 ∧ audioStart ≠ -ealready := by tauto
        have hready : ¬ (!s.data.init) = true := by simp [h.init]
        rw [if_neg haudio]
        simp only [step, recordStart, if_neg hready, if_pos hrejected, Tape.step]
        obtain ⟨hinit, hphase, hcustody, hheaders, hfiles, hcurrent⟩ := h
        exact ⟨hinit, hphase, custody_audio hcustody (Or.inl rfl), hheaders, hfiles,
          fun current hown => ⟨(hcurrent current hown).bounded, (hcurrent current hown).last⟩⟩
  | buffer io block => exact (refines_recordBuffer h hcall).2
  | stop io => exact refines_recordStop h io
  | shutdown io => exact hcall.elim
  | closeThread io =>
      refine ⟨?_, ?_, holds_closeThreadRun h.holds io⟩
      · simpa only [step, recordCloseThreadRun_data] using h.init
      · simpa only [step, recordCloseThreadRun_data, input, Tape.step] using h.phase
  | setFileNamePrefix io namePrefix => exact refines_recordSetFileNamePrefix h io namePrefix
  | cardInserted io =>
      simp only [step, recordCardInserted, input, Tape.step]
      split
      · exact h
      · exact refines_scan h io
  | swapCard card => exact h.of_eq rfl rfl rfl rfl rfl

theorem refines_initial (card : Card) (settings : Option (List Char)) (io : InitIo) :
    Refines (initial card settings io) ⟨[], .stopped⟩ := by
  obtain ⟨namePrefix, index, hdata⟩ := initial_data card settings io
  have hfiles : (initial card settings io).fs.files = [] := rfl
  refine ⟨by rw [hdata], ?_, custody_initial card settings io, ?_, ?_, ?_⟩
  · simp only [InPhase, hdata]
    rfl
  · simp [hfiles]
  · simp [hfiles, Phase.current]
  · rintro current ⟨⟩

theorem refines_run (card : Card) (settings : Option (List Char)) (io : InitIo)
    {calls : List Call} (hcalls : Along step NoFailure (initial card settings io) calls) :
    Refines (run step (initial card settings io) calls)
      (run (Tape.step maxDataSize) ⟨[], .stopped⟩ (calls.map input)) :=
  simulation_run refines_step (refines_initial card settings io) hcalls

theorem Refines.takes {s : Recorder} {tape : Tape UInt8 UInt32} (h : Refines s tape) :
    s.fs.files.map dataOf = tape.takes :=
  h.holds.files

def currentData (s : Recorder) : List UInt8 :=
  (s.fs.files.map dataOf).getLast?.getD []

theorem current_of_recording {s : Recorder} {tape : Tape UInt8 UInt32} (h : Refines s tape)
    (hrec : Recording s) : ∃ current, tape.phase.current = some current ∧
      currentData s = current := by
  have hphase := h.phase
  have hfiles := h.holds.files
  rcases tape with ⟨done, _ | time | ⟨time, current⟩ | current⟩
  · simp [Recording, show s.data.state = .stopped from hphase] at hrec
  · simp [Recording, hphase.1] at hrec
  · exact ⟨current, rfl, by simp [currentData, hfiles, Phase.current]⟩
  · exact ⟨current, rfl, by simp [currentData, hfiles, Phase.current]⟩

end ZeusLe.RecordStream
