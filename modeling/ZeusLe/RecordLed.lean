import ZeusLe.RecordStream

/-! What the LED and the codec show of the recorder's state. -/

namespace ZeusLe.RecordLed

open ZeusLe.FileSystem
open ZeusLe.WavFile
open ZeusLe.Library.Run
open ZeusLe.Record

/-- `audio_start` was called and not `audio_stop` after it. -/
def codecOn (s : Recorder) : Bool :=
  s.trace.foldl (fun on event => match event with
    | .audioStart => true
    | .audioStop => false
    | _ => on) false

structure Truthful (s : Recorder) : Prop where
  idle : s.data.state = .stopped ↔ s.led = .idle
  waiting : s.data.state = .waitingStart ∨ s.data.state = .waitingNewFile ↔ s.led = .waiting
  running : s.data.state = .running ↔ s.led = .running
  codec : s.data.state = .stopped → codecOn s = false

/-- The state of `record_buffer` behind its `switch`. -/
def afterSwitch (split : Split) (s : Recorder) : Recorder :=
  if split.newFile then s.setLed .running else s

/-- What `wav_write` to the old file returns. -/
def oldWriteRet (io : BufferIo) (block : AudioBlock) (split : Split) (s : Recorder) : Int :=
  (writeFile io.write block.buf split.splitOffset (closeThread io.beforeWrite s)).1

/-- Neither the write to the old file nor an `fs_sync` that is due fails. -/
def OldFileSucceeds (io : BufferIo) (block : AudioBlock) (split : Split) (s : Recorder) : Prop :=
  0 ≤ oldWriteRet io block split s ∧
    (recordSyncIntervalMs ≤ io.uptimeMs - s.data.lastSyncTimeMs →
      fsSync io.sync s.data.file.fp = 0)

/-- The old file cannot take all that is meant for it. -/
def FileFull (io : BufferIo) (block : AudioBlock) (split : Split) (s : Recorder) : Prop :=
  oldWriteRet io block split s ≠ split.splitOffset.toNat

/-- The split with which `record_buffer` goes on behind the old file. -/
def splitAfter (io : BufferIo) (block : AudioBlock) (split : Split) (s : Recorder) : Split :=
  if oldWriteRet io block split s ≠ split.splitOffset.toNat
    then { split with newFile := true, splitOffset := UInt32.ofInt (oldWriteRet io block split s) }
  else split

/-- The state in which `record_buffer` calls `wav_open`. -/
def readyToOpen (io : BufferIo) (split : Split) (s : Recorder) : Recorder :=
  closeThread io.beforeOpen
    ((if split.oldFile then recordCloseFile io.closeFile s else s).setLastSyncTimeMs
      io.newUptimeMs)

/-- `wav_open` succeeds, and `wav_write` takes the rest of the block. -/
def NewFileSucceeds (io : BufferIo) (block : AudioBlock) (split : Split) (s : Recorder) : Prop :=
  let opened := openFile io.wavOpen (readyToOpen io split s)
  let written := writeFile io.newWrite (block.buf.drop split.splitOffset.toNat)
    (block.len - split.splitOffset) (closeThread io.beforeNewWrite opened.2.nextFileIndex)
  opened.1 = 0 ∧ UInt32.ofInt written.1 = block.len - split.splitOffset

/-- The split and the state behind the old file. -/
def goesOn (io : BufferIo) (block : AudioBlock) (split : Split) (s : Recorder) :
    Split × Recorder :=
  if split.oldFile then (splitAfter io block split s, (bufferOldFile io block split s).2)
  else (split, s)

/-- No call to the WAV writer or the file system fails, and no file is full while
the recorder waits for a later block. -/
structure BufferKeepsLed (io : BufferIo) (block : AudioBlock) (split : Split) (s : Recorder) :
    Prop where
  old : split.oldFile = true → OldFileSucceeds io block split s
  full : split.oldFile = true → split.newFile = false → FileFull io block split s →
    s.data.state = .running
  new : (goesOn io block split s).1.newFile = true →
    NewFileSucceeds io block (goesOn io block split s).1 (goesOn io block split s).2

/-- The calls that keep the LED and the codec in step. Where the recorder is
stopped the codec starts when it is told to. -/
def KeepsLed (s : Recorder) : Call → Prop
  | .start audioStart _ =>
      s.data.init = true → s.data.state = .stopped → audioStart = 0 ∨ audioStart = -ealready
  | .buffer io block =>
      s.data.init = true → ∀ split, recordSwitch s.data block = some split →
        BufferKeepsLed io block split (afterSwitch split s)
  | _ => True

structure SameDisplay (s t : Recorder) : Prop where
  led : t.led = s.led
  codec : codecOn t = codecOn s

theorem SameDisplay.refl (s : Recorder) : SameDisplay s s :=
  ⟨rfl, rfl⟩

theorem SameDisplay.trans {s t u : Recorder} (hst : SameDisplay s t) (htu : SameDisplay t u) :
    SameDisplay s u :=
  ⟨htu.led.trans hst.led, htu.codec.trans hst.codec⟩

theorem sameDisplay_closeThreadRun (s : Recorder) (io : WavCloseIo) :
    SameDisplay s (recordCloseThreadRun s io) := by
  simp only [recordCloseThreadRun]
  split
  · exact SameDisplay.refl s
  · exact ⟨rfl, by simp [codecOn]⟩

theorem sameDisplay_closeThread (rounds : List WavCloseIo) (s : Recorder) :
    SameDisplay s (closeThread rounds s) := by
  apply closeThread_keeps (P := SameDisplay s)
  · intro t io ht
    exact ht.trans (sameDisplay_closeThreadRun t io)
  · exact SameDisplay.refl s

theorem sameDisplay_writeFile (o : Outcome) (buf : List UInt8) (len : UInt32) (s : Recorder) :
    SameDisplay s (writeFile o buf len s).2 :=
  ⟨rfl, by simp [writeFile, codecOn]⟩

theorem sameDisplay_openFile (io : WavOpenIo) (s : Recorder) :
    SameDisplay s (openFile io s).2 :=
  ⟨rfl, by simp [openFile, codecOn]⟩

theorem sameDisplay_recordCloseFile (io : CloseFileIo) (s : Recorder) :
    SameDisplay s (recordCloseFile io s) := by
  have hbefore := sameDisplay_closeThread io.before s
  simp only [recordCloseFile]
  split
  · exact hbefore.trans ⟨rfl, by simp [closeFileNoUpdate, codecOn]⟩
  · split
    · exact hbefore.trans ⟨rfl, by simp [queueFile, codecOn]⟩
    · exact (hbefore.trans (sameDisplay_closeThreadRun _ io.room)).trans
        ⟨rfl, by simp [queueFile, codecOn]⟩

theorem sameDisplay_bufferFileError (io : BufferIo) (ret : Int) (s : Recorder) :
    SameDisplay s (bufferFileError io ret s).2 :=
  (sameDisplay_recordCloseFile io.errorCloseFile s).trans ⟨rfl, rfl⟩

theorem sameDisplay_bufferOldFile (io : BufferIo) (block : AudioBlock) (split : Split)
    (s : Recorder) : SameDisplay s (bufferOldFile io block split s).2 := by
  have hwrite := (sameDisplay_closeThread io.beforeWrite s).trans
    (sameDisplay_writeFile io.write block.buf split.splitOffset _)
  have hsync := hwrite.trans (sameDisplay_closeThread io.beforeSync _)
  simp only [bufferOldFile]
  split
  · exact hwrite
  · split
    · split
      · exact hsync
      · exact hsync.trans ⟨rfl, rfl⟩
    · exact hwrite

theorem bufferOldFile_state (io : BufferIo) (block : AudioBlock) (split : Split) (s : Recorder) :
    (bufferOldFile io block split s).2.data.state = s.data.state := by
  simp only [bufferOldFile]
  split
  · simp
  · split
    · split <;> simp
    · simp

theorem sameDisplay_writeNewFile (io : BufferIo) (block : AudioBlock) (split : Split)
    (s : Recorder) : SameDisplay s (writeNewFile io block split s).2 := by
  have hwrite := (sameDisplay_closeThread io.beforeNewWrite s).trans
    (sameDisplay_writeFile io.newWrite (block.buf.drop split.splitOffset.toNat)
      (block.len - split.splitOffset) _)
  simp only [writeNewFile]
  split
  · exact hwrite.trans (sameDisplay_bufferFileError io _ _)
  · exact hwrite.trans ⟨rfl, rfl⟩

theorem sameDisplay_readyToOpen (io : BufferIo) (split : Split) (s : Recorder) :
    SameDisplay s (readyToOpen io split s) := by
  have hclose : SameDisplay s (if split.oldFile then recordCloseFile io.closeFile s else s) := by
    split
    · exact sameDisplay_recordCloseFile io.closeFile s
    · exact SameDisplay.refl s
  have hsync : SameDisplay (if split.oldFile then recordCloseFile io.closeFile s else s)
      ((if split.oldFile then recordCloseFile io.closeFile s else s).setLastSyncTimeMs
        io.newUptimeMs) := ⟨rfl, rfl⟩
  exact (hclose.trans hsync).trans (sameDisplay_closeThread io.beforeOpen _)

theorem bufferNewFile_eq (io : BufferIo) (block : AudioBlock) (split : Split) (s : Recorder) :
    bufferNewFile io block split s =
      if (openFile io.wavOpen (readyToOpen io split s)).1 ≠ 0 then
        bufferFileError io (openFile io.wavOpen (readyToOpen io split s)).1
          (openFile io.wavOpen (readyToOpen io split s)).2
      else writeNewFile io block split
        (openFile io.wavOpen (readyToOpen io split s)).2.nextFileIndex := by
  simp only [bufferNewFile]
  rw [if_neg (by
    rw [ge_iff_le, Nat.not_le]
    exact RecordStream.length_fileName_lt _)]
  rfl

theorem sameDisplay_bufferNewFile (io : BufferIo) (block : AudioBlock) (split : Split)
    (s : Recorder) : SameDisplay s (bufferNewFile io block split s).2 := by
  have hopen := (sameDisplay_readyToOpen io split s).trans (sameDisplay_openFile io.wavOpen _)
  rw [bufferNewFile_eq]
  split
  · exact hopen.trans (sameDisplay_bufferFileError io _ _)
  · have hindex : SameDisplay (openFile io.wavOpen (readyToOpen io split s)).2
        (openFile io.wavOpen (readyToOpen io split s)).2.nextFileIndex := ⟨rfl, rfl⟩
    exact (hopen.trans hindex).trans (sameDisplay_writeNewFile io block split _)

theorem bufferFileError_state (io : BufferIo) (ret : Int) (s : Recorder) :
    (bufferFileError io ret s).2.data.state = .stopped :=
  rfl

theorem bufferNewFile_running {io : BufferIo} {block : AudioBlock} {split : Split} {s : Recorder}
    (h : NewFileSucceeds io block split s) :
    (bufferNewFile io block split s).2.data.state = .running := by
  rw [bufferNewFile_eq, if_neg (not_not_intro h.1)]
  simp only [writeNewFile]
  rw [if_neg (not_not_intro h.2)]
  rfl

theorem bufferNewFile_stopped {io : BufferIo} {block : AudioBlock} {split : Split} {s : Recorder}
    (h : ¬ NewFileSucceeds io block split s) :
    (bufferNewFile io block split s).2.data.state = .stopped := by
  rw [bufferNewFile_eq]
  split
  · exact bufferFileError_state io _ _
  · rename_i hopen
    simp only [writeNewFile]
    split
    · exact bufferFileError_state io _ _
    · rename_i hwrite
      exact absurd ⟨not_not.mp hopen, not_not.mp hwrite⟩ h

theorem bufferOldFile_fst (io : BufferIo) (block : AudioBlock) (split : Split) (s : Recorder) :
    (bufferOldFile io block split s).1 =
      if oldWriteRet io block split s < 0 then .error (oldWriteRet io block split s)
      else if recordSyncIntervalMs ≤ io.uptimeMs - s.data.lastSyncTimeMs then
        if fsSync io.sync s.data.file.fp ≠ 0 then .error (fsSync io.sync s.data.file.fp)
        else .ok (splitAfter io block split s)
      else .ok (splitAfter io block split s) := by
  have hfile : (closeThread io.beforeSync (writeFile io.write block.buf split.splitOffset
      (closeThread io.beforeWrite s)).2).data.file.fp = s.data.file.fp := by
    rw [closeThread_data]
    simp only [writeFile, wavWrite_fp, closeThread_data]
  have hlast : (writeFile io.write block.buf split.splitOffset
      (closeThread io.beforeWrite s)).2.data.lastSyncTimeMs = s.data.lastSyncTimeMs := by
    simp only [writeFile, closeThread_data]
  simp only [bufferOldFile, hfile, hlast, ge_iff_le]
  change (if oldWriteRet io block split s < 0 then _ else _ : Except Int Split × Recorder).1 = _
  split
  · rfl
  · split
    · split <;> rfl
    · rfl

theorem bufferOldFile_of_succeeds {io : BufferIo} {block : AudioBlock} {split : Split}
    {s : Recorder} (h : OldFileSucceeds io block split s) :
    (bufferOldFile io block split s).1 = .ok (splitAfter io block split s) := by
  rw [bufferOldFile_fst, if_neg (Int.not_lt.mpr h.1)]
  split
  · rename_i hdue
    rw [if_neg (not_not_intro (h.2 hdue))]
  · rfl

theorem bufferOldFile_of_fails {io : BufferIo} {block : AudioBlock} {split : Split}
    {s : Recorder} (h : ¬ OldFileSucceeds io block split s) :
    ∃ ret, (bufferOldFile io block split s).1 = .error ret := by
  rw [bufferOldFile_fst]
  split
  · exact ⟨_, rfl⟩
  · rename_i hwrite
    split
    · split
      · exact ⟨_, rfl⟩
      · rename_i hret
        exact absurd ⟨Int.not_lt.mp hwrite, fun _ => not_not.mp hret⟩ h
    · rename_i hdue
      exact absurd ⟨Int.not_lt.mp hwrite, fun hdue' => absurd hdue' hdue⟩ h

theorem recordBuffer_of_fails {io : BufferIo} {block : AudioBlock} {split : Split} {s : Recorder}
    (hinit : s.data.init = true) (hswitch : recordSwitch s.data block = some split)
    (hold : split.oldFile = true) (h : ¬ OldFileSucceeds io block split (afterSwitch split s)) :
    ∃ ret, (recordBuffer io block s).2 =
      (bufferFileError io ret (bufferOldFile io block split (afterSwitch split s)).2).2 := by
  obtain ⟨ret, hret⟩ := bufferOldFile_of_fails h
  refine ⟨ret, ?_⟩
  simp only [afterSwitch] at hret ⊢
  simp only [recordBuffer, hinit, Bool.not_true, Bool.false_eq_true, if_false, hswitch, hold,
    if_true, hret]

theorem recordBuffer_of_goesOn {io : BufferIo} {block : AudioBlock} {split : Split} {s : Recorder}
    (hinit : s.data.init = true) (hswitch : recordSwitch s.data block = some split)
    (h : split.oldFile = true → OldFileSucceeds io block split (afterSwitch split s)) :
    (recordBuffer io block s).2 =
      if (goesOn io block split (afterSwitch split s)).1.newFile then
        (bufferNewFile io block (goesOn io block split (afterSwitch split s)).1
          (goesOn io block split (afterSwitch split s)).2).2
      else (goesOn io block split (afterSwitch split s)).2 := by
  rcases hold : split.oldFile with _ | _
  · simp only [afterSwitch, recordBuffer, hinit, Bool.not_true, Bool.false_eq_true, if_false,
      hswitch, hold, goesOn]
    split <;> rfl
  · have hok := bufferOldFile_of_succeeds (h hold)
    simp only [afterSwitch] at hok
    simp only [afterSwitch, recordBuffer, hinit, Bool.not_true, Bool.false_eq_true, if_false,
      if_true, hswitch, hold, goesOn, hok]
    exact apply_ite Prod.snd _ _ _

theorem sameDisplay_recordBuffer {io : BufferIo} {block : AudioBlock} {split : Split}
    {s : Recorder} (hinit : s.data.init = true)
    (hswitch : recordSwitch s.data block = some split) :
    SameDisplay (afterSwitch split s) (recordBuffer io block s).2 := by
  have hold := sameDisplay_bufferOldFile io block split (afterSwitch split s)
  by_cases hfails : split.oldFile = true ∧ ¬ OldFileSucceeds io block split (afterSwitch split s)
  · obtain ⟨ret, hret⟩ := recordBuffer_of_fails hinit hswitch hfails.1 hfails.2
    rw [hret]
    exact hold.trans (sameDisplay_bufferFileError io ret _)
  · have hgoes : SameDisplay (afterSwitch split s)
        (goesOn io block split (afterSwitch split s)).2 := by
      simp only [goesOn]
      split
      · exact hold
      · exact SameDisplay.refl _
    rw [recordBuffer_of_goesOn hinit hswitch
      (fun h => not_not.mp fun hnot => hfails ⟨h, hnot⟩)]
    split
    · exact hgoes.trans (sameDisplay_bufferNewFile io block _ _)
    · exact hgoes

/-- What the LED should show. -/
def shown : RecordState → LedRecordState
  | .stopped => .idle
  | .waitingStart | .waitingNewFile => .waiting
  | .running => .running

theorem truthful_iff (s : Recorder) :
    Truthful s ↔ s.led = shown s.data.state ∧ (s.data.state = .stopped → codecOn s = false) := by
  constructor
  · intro h
    refine ⟨?_, h.codec⟩
    rcases hstate : s.data.state with _ | _ | _ | _
    · exact h.idle.mp hstate
    · exact h.waiting.mp (Or.inl hstate)
    · exact h.waiting.mp (Or.inr hstate)
    · exact h.running.mp hstate
  · rintro ⟨hled, hcodec⟩
    refine ⟨?_, ?_, ?_, hcodec⟩ <;>
      rcases hstate : s.data.state with _ | _ | _ | _ <;> simp [hled, hstate, shown]

theorem goesOn_state (io : BufferIo) (block : AudioBlock) (split : Split) (s : Recorder) :
    (goesOn io block split s).2.data.state = s.data.state := by
  simp only [goesOn]
  split
  · exact bufferOldFile_state io block split s
  · rfl

theorem afterSwitch_state (split : Split) (s : Recorder) :
    (afterSwitch split s).data.state = s.data.state := by
  simp only [afterSwitch]
  split <;> rfl

theorem recordSwitch_not_stopped {data : RecordData} {block : AudioBlock} {split : Split}
    (h : recordSwitch data block = some split) : data.state ≠ .stopped := by
  intro hstate
  simp only [recordSwitch, hstate, reduceCtorEq] at h

theorem goesOn_newFile (io : BufferIo) (block : AudioBlock) (split : Split) (s : Recorder) :
    (goesOn io block split s).1.newFile = true ↔
      split.newFile = true ∨ (split.oldFile = true ∧ FileFull io block split s) := by
  rcases hold : split.oldFile with _ | _
  · simp [goesOn, hold]
  · simp only [goesOn, hold, if_true, splitAfter, FileFull, true_and]
    split <;> simp_all

theorem led_afterSwitch (split : Split) (s : Recorder) :
    (afterSwitch split s).led = if split.newFile then .running else s.led := by
  simp only [afterSwitch]
  split <;> rfl

theorem shown_idle_iff (state : RecordState) : shown state = .idle ↔ state = .stopped := by
  cases state <;> simp [shown]

theorem shown_running : shown .running = .running :=
  rfl

theorem shown_running_iff (state : RecordState) : shown state = .running ↔ state = .running := by
  cases state <;> simp [shown]

theorem led_afterSwitch_ne_idle (split : Split) {s : Recorder} (hs : Truthful s)
    (hstate : s.data.state ≠ .stopped) : (afterSwitch split s).led ≠ .idle := by
  rw [led_afterSwitch]
  split
  · decide
  · rw [((truthful_iff s).mp hs).1, ne_eq, shown_idle_iff]
    exact hstate

section

variable {s : Recorder} {io : BufferIo} {block : AudioBlock} {split : Split}

theorem not_truthful_of_stopped (hs : Truthful s) (hinit : s.data.init = true)
    (hswitch : recordSwitch s.data block = some split)
    (hstop : (recordBuffer io block s).2.data.state = .stopped) :
    ¬ Truthful (recordBuffer io block s).2 := by
  intro htruth
  apply led_afterSwitch_ne_idle split hs (recordSwitch_not_stopped hswitch)
  rw [← (sameDisplay_recordBuffer hinit hswitch).led]
  exact htruth.idle.mp hstop

theorem not_truthful_of_fails (hs : Truthful s) (hinit : s.data.init = true)
    (hswitch : recordSwitch s.data block = some split) (hold : split.oldFile = true)
    (h : ¬ OldFileSucceeds io block split (afterSwitch split s)) :
    ¬ Truthful (recordBuffer io block s).2 := by
  obtain ⟨ret, hret⟩ := recordBuffer_of_fails hinit hswitch hold h
  apply not_truthful_of_stopped hs hinit hswitch
  rw [hret, bufferFileError_state]

theorem truthful_of_running_iff (hs : Truthful s) (hinit : s.data.init = true)
    (hswitch : recordSwitch s.data block = some split)
    (hrun : (recordBuffer io block s).2.data.state = .running) :
    Truthful (recordBuffer io block s).2 ↔
      (split.newFile = false → s.data.state = .running) := by
  rw [truthful_iff, hrun, (sameDisplay_recordBuffer hinit hswitch).led, led_afterSwitch]
  rcases split.newFile with _ | _
  · rw [if_neg (by decide), ((truthful_iff s).mp hs).1, shown_running, shown_running_iff]
    simp
  · simp [shown]

theorem truthful_of_same (hs : Truthful s) (hinit : s.data.init = true)
    (hswitch : recordSwitch s.data block = some split) (hnew : split.newFile = false)
    (hsame : (recordBuffer io block s).2.data.state = s.data.state) :
    Truthful (recordBuffer io block s).2 := by
  have hstate := recordSwitch_not_stopped hswitch
  rw [truthful_iff, hsame, (sameDisplay_recordBuffer hinit hswitch).led, led_afterSwitch, hnew,
    if_neg (by decide)]
  exact ⟨((truthful_iff s).mp hs).1, fun h => absurd h hstate⟩

theorem truthful_buffer_iff (hs : Truthful s) (hinit : s.data.init = true)
    (hswitch : recordSwitch s.data block = some split) :
    Truthful (recordBuffer io block s).2 ↔
      BufferKeepsLed io block split (afterSwitch split s) := by
  have hnew := goesOn_newFile io block split (afterSwitch split s)
  by_cases hold : split.oldFile = true → OldFileSucceeds io block split (afterSwitch split s)
  · have hbuffer := recordBuffer_of_goesOn hinit hswitch hold
    by_cases hgoes : (goesOn io block split (afterSwitch split s)).1.newFile = true
    · rw [if_pos hgoes] at hbuffer
      by_cases hfile : NewFileSucceeds io block (goesOn io block split (afterSwitch split s)).1
        (goesOn io block split (afterSwitch split s)).2
      · have hrun : (recordBuffer io block s).2.data.state = .running := by
          rw [hbuffer, bufferNewFile_running hfile]
        rw [truthful_of_running_iff hs hinit hswitch hrun]
        constructor
        · intro hstate
          refine ⟨hold, fun _ hno _ => ?_, fun _ => hfile⟩
          exact (afterSwitch_state split s).trans (hstate hno)
        · intro hkeeps hno
          have hfull := (hnew.mp hgoes).resolve_left (by simp [hno])
          exact (afterSwitch_state split s).symm.trans (hkeeps.full hfull.1 hno hfull.2)
      · have hstop : (recordBuffer io block s).2.data.state = .stopped := by
          rw [hbuffer, bufferNewFile_stopped hfile]
        have hfalse := not_truthful_of_stopped hs hinit hswitch hstop
        exact ⟨fun h => absurd h hfalse, fun hkeeps => absurd (hkeeps.new hgoes) hfile⟩
    · rw [if_neg hgoes] at hbuffer
      have hnone := fun h => hgoes (hnew.mpr h)
      have hsame : (recordBuffer io block s).2.data.state = s.data.state := by
        rw [hbuffer, goesOn_state, afterSwitch_state]
      have htruth := truthful_of_same hs hinit hswitch
        (Bool.eq_false_iff.mpr fun h => hnone (Or.inl h)) hsame
      have hkeeps : BufferKeepsLed io block split (afterSwitch split s) :=
        ⟨hold, fun h _ hfull => absurd (Or.inr ⟨h, hfull⟩) hnone, fun h => absurd h hgoes⟩
      exact ⟨fun _ => hkeeps, fun _ => htruth⟩
  · obtain ⟨holdFile, hfails⟩ := Classical.not_imp.mp hold
    have hfalse := not_truthful_of_fails hs hinit hswitch holdFile hfails
    exact ⟨fun h => absurd h hfalse, fun hkeeps => absurd hkeeps.old hold⟩

end

theorem Truthful.of_eq {s t : Recorder} (hs : Truthful s) (hstate : t.data.state = s.data.state)
    (hdisplay : SameDisplay s t) : Truthful t := by
  rw [truthful_iff] at hs ⊢
  rw [hstate, hdisplay.led, hdisplay.codec]
  exact hs

theorem truthful_start_iff {s : Recorder} (hs : Truthful s) (audioStart : Int) (time : UInt32) :
    Truthful (recordStart audioStart time s).2 ↔ KeepsLed s (.start audioStart time) := by
  simp only [recordStart, KeepsLed]
  rcases hinit : s.data.init with _ | _
  · simpa using hs
  · simp only [Bool.not_true, Bool.false_eq_true, if_false, true_implies]
    split
    · rename_i hfail
      have hon : codecOn { s with trace := s.trace ++ [.audioStart] } = true := by
        simp [codecOn]
      have hled := ((truthful_iff s).mp hs).1
      rw [truthful_iff, hon]
      constructor
      · rintro ⟨-, hcodec⟩ hstop
        exact absurd (hcodec hstop) (by decide)
      · intro hkeeps
        refine ⟨hled, fun hstop => ?_⟩
        rcases hkeeps hstop with hzero | halready
        · exact absurd hzero hfail.1
        · exact absurd halready hfail.2
    · rename_i hok
      have hkeeps : audioStart = 0 ∨ audioStart = -ealready := by tauto
      refine ⟨fun _ _ => hkeeps, fun _ => ?_⟩
      rw [truthful_iff]
      rcases hstate : s.data.state with _ | _ | _ | _ <;> simp [shown]

theorem truthful_stopUnlocked {s : Recorder} (hs : Truthful s) (io : CloseFileIo) :
    Truthful (recordStopUnlocked io s).2 := by
  simp only [recordStopUnlocked]
  split
  · exact hs
  · rw [truthful_iff]
    exact ⟨rfl, fun _ => by simp [codecOn]⟩

theorem truthful_shutdown {s : Recorder} (hs : Truthful s) (io : CloseFileIo) :
    Truthful (recordShutdown io s).2 := by
  have hstop := truthful_stopUnlocked hs io
  simp only [recordShutdown]
  split
  · exact hs
  · split
    · exact hstop
    · exact hstop.of_eq rfl ⟨rfl, rfl⟩

theorem truthful_scan {s : Recorder} (hs : Truthful s) (io : ScanIo) :
    Truthful { s with data := (recordFindNextFileIndex io s.fs.card.names s.data).2 } := by
  obtain ⟨index, hscan⟩ := recordFindNextFileIndex_data io s.fs.card.names s.data
  rw [hscan]
  exact hs.of_eq rfl ⟨rfl, rfl⟩

theorem truthful_setFileNamePrefix {s : Recorder} (hs : Truthful s) (io : SetPrefixIo)
    (namePrefix : List Char) : Truthful (recordSetFileNamePrefix io namePrefix s).2 := by
  simp only [recordSetFileNamePrefix]
  split
  · exact hs
  · split
    · rename_i hlen
      split
      · exact hs.of_eq rfl ⟨rfl, rfl⟩
      · have hsaved : Truthful { s with
            data := { s.data with fileNamePrefix := ⟨namePrefix, hlen⟩ }
            settings := if namePrefix = [] then none else some namePrefix } :=
          hs.of_eq rfl ⟨rfl, rfl⟩
        exact truthful_scan hsaved io.scan
    · exact hs

theorem truthful_step_iff (s : Recorder) (call : Call) (hs : Truthful s) :
    Truthful (step s call) ↔ KeepsLed s call := by
  cases call with
  | start audioStart time => exact truthful_start_iff hs audioStart time
  | buffer io block =>
      simp only [step, KeepsLed]
      rcases hinit : s.data.init with _ | _
      · simpa [recordBuffer, hinit] using hs
      · rcases hswitch : recordSwitch s.data block with _ | split
        · simpa [recordBuffer, hinit, hswitch] using hs
        · simp only [true_implies, Option.some.injEq, forall_eq']
          exact truthful_buffer_iff hs hinit hswitch
  | stop io => exact iff_of_true (truthful_stopUnlocked hs io) trivial
  | shutdown io => exact iff_of_true (truthful_shutdown hs io) trivial
  | closeThread io =>
      refine iff_of_true (hs.of_eq ?_ (sameDisplay_closeThreadRun s io)) trivial
      exact congrArg RecordData.state (recordCloseThreadRun_data s io)
  | setFileNamePrefix io namePrefix =>
      exact iff_of_true (truthful_setFileNamePrefix hs io namePrefix) trivial
  | cardInserted io =>
      refine iff_of_true ?_ trivial
      simp only [step, recordCardInserted]
      split
      · exact hs
      · exact truthful_scan hs io
  | swapCard card => exact iff_of_true (hs.of_eq rfl ⟨rfl, rfl⟩) trivial

theorem truthful_initial (card : Card) (settings : Option (List Char)) (io : InitIo) :
    Truthful (initial card settings io) := by
  obtain ⟨namePrefix, index, hdata⟩ := initial_data card settings io
  have hstate : (initial card settings io).data.state = .stopped := by
    rw [hdata]
    rfl
  rw [truthful_iff, hstate]
  exact ⟨rfl, fun _ => rfl⟩

/-- The LED and the codec tell the truth after every call of a run exactly when
every call keeps them in step. -/
theorem truthful_run_iff (card : Card) (settings : Option (List Char)) (io : InitIo)
    (calls : List Call) :
    Along step (fun s call => Truthful (step s call)) (initial card settings io) calls ↔
      Along step KeepsLed (initial card settings io) calls :=
  along_after_iff truthful_step_iff (truthful_initial card settings io)

/-- When the file cannot be created the LED goes on showing a recording, and the
codec stays on. -/
theorem not_truthful_of_open_failure :
    ¬ Truthful (run step (initial emptyCard none {})
      [.start 0 0, .buffer { wavOpen := { fsOpen := .err 0 4 } } RecordLifecycle.shortBlock]) := by
  intro h
  exact absurd (h.idle.mp rfl) (by decide)

end ZeusLe.RecordLed
