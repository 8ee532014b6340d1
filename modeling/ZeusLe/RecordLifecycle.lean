import Mathlib.Data.List.Nodup
import Mathlib.Data.Option.Basic
import ZeusLe.Record

/-!
Who owns an open recording file. Between two calls every file that was opened
is the current file, waits in the close queue, or has been closed once.
-/

namespace ZeusLe.RecordLifecycle

open ZeusLe.FileSystem
open ZeusLe.WavFile
open ZeusLe.Library.Run
open ZeusLe.Record

/-- The handle that a successful `wav_open` returned. -/
def opensHandle : Event → Option Nat
  | .opened _ _ ret w => if ret = 0 then w.fp else none
  | _ => none

def handsOver : Event → Option FsFile
  | .queued w => some w.fp
  | .closedNoUpdate w => some w.fp
  | _ => none

/-- The file that `wav_close` or `wav_close_no_update` receives. -/
def closesFile : Event → Option FsFile
  | .closed w => some w.fp
  | .closedNoUpdate w => some w.fp
  | _ => none

def writesFile : Event → Option FsFile
  | .written w _ => some w.fp
  | _ => none

def opened (s : Recorder) : List Nat :=
  s.trace.filterMap opensHandle

def handedOver (s : Recorder) : List FsFile :=
  s.trace.filterMap handsOver

def closed (s : Recorder) : List FsFile :=
  s.trace.filterMap closesFile

def queued (s : Recorder) : List FsFile :=
  s.closeQueue.map Wav.fp

/-- The current file is open and was not given away. -/
def OwnsFile (s : Recorder) : Prop :=
  ∃ h ∈ opened s, s.data.file.fp = some h ∧ some h ∉ handedOver s

def Recording (s : Recorder) : Prop :=
  s.data.state = .running ∨ s.data.state = .waitingNewFile

instance (s : Recorder) : Decidable (Recording s) :=
  inferInstanceAs (Decidable (_ ∨ _))

/-- No file is written after it was given away. -/
def NotWrittenAfter (earlier later : Event) : Prop :=
  ∀ fp, handsOver earlier = some fp → writesFile later ≠ some fp

structure Lifecycle (s : Recorder) : Prop where
  /-- Whatever reaches a close function, or waits for it, was opened. -/
  closed_opened : ∀ fp ∈ closed s ++ queued s, ∃ h ∈ opened s, fp = some h
  /-- Nothing is closed twice. -/
  closed_once : (closed s ++ queued s).Nodup
  /-- A file that is not the current one is closed or will be. -/
  opened_closed : ∀ h ∈ opened s,
    some h ∈ closed s ++ queued s ∨ (Recording s ∧ s.data.file.fp = some h)
  not_written_after : s.trace.Pairwise NotWrittenAfter
  state_iff : Recording s ↔ OwnsFile s
  /-- `wav_update_size` divides by the frame size. -/
  divisor : ∀ w, .closed w ∈ s.trace → w.bytesPerFrame ≠ 0

/-- The ledger of handles. `own` tells whether the current file still belongs to
the recorder; inside `record_buffer` this differs from the state variable. -/
structure Custody (own : Bool) (s : Recorder) : Prop where
  handed : (handedOver s).Perm (closed s ++ queued s)
  ledger : (handedOver s ++ if own then [s.data.file.fp] else []).Perm ((opened s).map some)
  nodup : (opened s).Nodup
  fresh : ∀ h ∈ opened s, h < s.fs.files.length
  order : s.trace.Pairwise NotWrittenAfter
  divisor : ∀ w, .closed w ∈ s.trace ∨ w ∈ s.closeQueue ∨ (own = true ∧ w = s.data.file) →
    w.bytesPerFrame ≠ 0

theorem custody_initial (card : Card) (settings : Option (List Char)) (io : InitIo) :
    Custody false (initial card settings io) := by
  have htrace : (initial card settings io).trace = [] := rfl
  have hqueue : (initial card settings io).closeQueue = [] := rfl
  constructor <;> simp [handedOver, closed, queued, opened, htrace, hqueue]

theorem Custody.of_eq {own : Bool} {s t : Recorder} (h : Custody own s)
    (htrace : t.trace = s.trace) (hqueue : t.closeQueue = s.closeQueue)
    (hfile : t.data.file = s.data.file) (hfiles : s.fs.files.length ≤ t.fs.files.length) :
    Custody own t where
  handed := by simpa only [handedOver, closed, queued, htrace, hqueue] using h.handed
  ledger := by simpa only [handedOver, opened, htrace, hfile] using h.ledger
  nodup := by simpa only [opened, htrace] using h.nodup
  fresh handle hmem := by
    have hmem' : handle ∈ opened s := by simpa only [opened, htrace] using hmem
    exact (h.fresh handle hmem').trans_le hfiles
  order := by simpa only [htrace] using h.order
  divisor w hw := by
    rw [htrace, hqueue, hfile] at hw
    exact h.divisor w hw

theorem pairwise_append_of_not_write {trace : List Event} (h : trace.Pairwise NotWrittenAfter)
    {e : Event} (he : writesFile e = none) : (trace ++ [e]).Pairwise NotWrittenAfter := by
  rw [List.pairwise_append]
  refine ⟨h, List.pairwise_singleton _ _, ?_⟩
  intro earlier _ later hlater fp _
  rw [List.mem_singleton.mp hlater, he]
  exact Option.some_ne_none fp |>.symm

theorem custody_closeThreadRun {own : Bool} {s : Recorder} (h : Custody own s) (io : WavCloseIo) :
    Custody own (recordCloseThreadRun s io) := by
  rcases hqueue : s.closeQueue with _ | ⟨w, queue⟩
  · simpa only [recordCloseThreadRun, hqueue] using h
  · have hrun : recordCloseThreadRun s io =
        { s with
          closeQueue := queue
          fs := (wavClose io w s.fs).2
          trace := s.trace ++ [.closed w] } := by
      simp only [recordCloseThreadRun, hqueue]
    rw [hrun]
    refine ⟨?_, ?_, ?_, ?_, ?_, ?_⟩
    · have hhanded := h.handed
      simp only [handedOver, closed, queued, hqueue, List.map_cons] at hhanded
      simpa [handedOver, closed, queued, handsOver, closesFile, List.filterMap_cons] using hhanded
    · simpa [handedOver, opened, handsOver, opensHandle, List.filterMap_cons] using h.ledger
    · simpa [opened, opensHandle, List.filterMap_cons] using h.nodup
    · intro handle hmem
      have hmem' : handle ∈ opened s := by
        simpa [opened, opensHandle, List.filterMap_cons] using hmem
      simpa only [length_files_wavClose] using h.fresh handle hmem'
    · exact pairwise_append_of_not_write h.order rfl
    · intro v hv
      apply h.divisor v
      simp only [List.mem_append, List.mem_cons, List.not_mem_nil, or_false,
        Event.closed.injEq, hqueue] at hv ⊢
      tauto

theorem custody_closeThread {own : Bool} {s : Recorder} (h : Custody own s)
    (rounds : List WavCloseIo) : Custody own (closeThread rounds s) :=
  closeThread_keeps (P := Custody own) (fun _ io h => custody_closeThreadRun h io) h rounds

theorem custody_queueFile {s : Recorder} (h : Custody true s) : Custody false (queueFile s) := by
  refine ⟨?_, ?_, ?_, ?_, ?_, ?_⟩
  · have hhanded := h.handed.append_right [s.data.file.fp]
    simpa [queueFile, handedOver, closed, queued, handsOver, closesFile,
      List.filterMap_cons] using hhanded
  · simpa [queueFile, handedOver, opened, handsOver, opensHandle,
      List.filterMap_cons] using h.ledger
  · simpa [queueFile, opened, opensHandle, List.filterMap_cons] using h.nodup
  · intro handle hmem
    exact h.fresh handle (by simpa [queueFile, opened, opensHandle, List.filterMap_cons] using hmem)
  · exact pairwise_append_of_not_write h.order rfl
  · intro v hv
    apply h.divisor v
    simp only [queueFile, List.mem_append, List.mem_cons, List.not_mem_nil, or_false] at hv ⊢
    tauto

theorem custody_closeFileNoUpdate {s : Recorder} (h : Custody true s) (o : Outcome) :
    Custody false (closeFileNoUpdate o s) := by
  refine ⟨?_, ?_, ?_, ?_, ?_, ?_⟩
  · have hhanded := h.handed.append_right [s.data.file.fp]
    simp only [closeFileNoUpdate, handedOver, closed, queued, List.filterMap_append,
      List.filterMap_cons, handsOver, closesFile, List.filterMap_nil] at hhanded ⊢
    refine hhanded.trans ?_
    rw [List.append_assoc, List.append_assoc]
    exact List.perm_append_comm.append_left _
  · simpa [closeFileNoUpdate, handedOver, opened, handsOver, opensHandle,
      List.filterMap_cons] using h.ledger
  · simpa [closeFileNoUpdate, opened, opensHandle, List.filterMap_cons] using h.nodup
  · intro handle hmem
    exact h.fresh handle
      (by simpa [closeFileNoUpdate, opened, opensHandle, List.filterMap_cons] using hmem)
  · exact pairwise_append_of_not_write h.order rfl
  · intro v hv
    apply h.divisor v
    simp only [closeFileNoUpdate, List.mem_append, List.mem_cons, List.not_mem_nil] at hv
    tauto

theorem custody_recordCloseFile {s : Recorder} (h : Custody true s) (io : CloseFileIo) :
    Custody false (recordCloseFile io s) := by
  have hbefore := custody_closeThread h io.before
  simp only [recordCloseFile]
  split
  · exact custody_closeFileNoUpdate hbefore io.fsClose
  · apply custody_queueFile
    split
    · exact hbefore
    · exact custody_closeThreadRun hbefore io.room

theorem Custody.not_handedOver {s : Recorder} (h : Custody true s) :
    s.data.file.fp ∉ handedOver s := by
  have hnodup : (handedOver s ++ [s.data.file.fp]).Nodup :=
    h.ledger.nodup_iff.mpr (List.Nodup.map (Option.some_injective _) h.nodup)
  intro hmem
  exact (List.nodup_append.mp hnodup).2.2 _ hmem _ (by simp) rfl

theorem Custody.queued_opened {own : Bool} {s : Recorder} (h : Custody own s) {w : Wav}
    (hw : w ∈ s.closeQueue) :
    ∃ handle ∈ opened s, w.fp = some handle ∧ (own = true → s.data.file.fp ≠ some handle) := by
  have hqueued : w.fp ∈ queued s := List.mem_map_of_mem hw
  have hhanded : w.fp ∈ handedOver s := h.handed.mem_iff.mpr (List.mem_append_right _ hqueued)
  have hopened := h.ledger.mem_iff.mp (List.mem_append_left _ hhanded)
  obtain ⟨handle, hmem, hfp⟩ := List.mem_map.mp hopened
  refine ⟨handle, hmem, hfp.symm, ?_⟩
  rintro rfl hfile
  apply h.not_handedOver
  rw [hfile, hfp]
  exact hhanded

theorem custody_writeFile {s : Recorder} (h : Custody true s) (o : Outcome) (buf : List UInt8)
    (len : UInt32) : Custody true (writeFile o buf len s).2 := by
  refine ⟨?_, ?_, ?_, ?_, ?_, ?_⟩
  · simpa [writeFile, handedOver, closed, queued, handsOver, closesFile,
      List.filterMap_cons] using h.handed
  · simpa [writeFile, handedOver, opened, handsOver, opensHandle,
      List.filterMap_cons] using h.ledger
  · simpa [writeFile, opened, opensHandle, List.filterMap_cons] using h.nodup
  · intro handle hmem
    have hmem' : handle ∈ opened s := by
      simpa [writeFile, opened, opensHandle, List.filterMap_cons] using hmem
    simpa only [writeFile, length_files_wavWrite] using h.fresh handle hmem'
  · simp only [writeFile, List.pairwise_append]
    refine ⟨h.order, List.pairwise_singleton _ _, ?_⟩
    intro earlier hearlier later hlater fp hfp
    rw [List.mem_singleton.mp hlater]
    intro hwrites
    have hfile : s.data.file.fp = fp := Option.some.inj hwrites
    apply h.not_handedOver
    rw [hfile]
    exact List.mem_filterMap.mpr ⟨earlier, hearlier, hfp⟩
  · intro v hv
    simp only [writeFile, List.mem_append, List.mem_cons, List.not_mem_nil, or_false] at hv
    rcases hv with (hclosed | hclosed) | hqueue | ⟨_, hfile⟩
    · exact h.divisor v (Or.inl hclosed)
    · cases hclosed
    · exact h.divisor v (Or.inr (Or.inl hqueue))
    · rw [hfile, wavWrite_bytesPerFrame]
      exact h.divisor s.data.file (Or.inr (Or.inr ⟨rfl, rfl⟩))

theorem custody_openFile {s : Recorder} (h : Custody false s) {io : WavOpenIo}
    (hio : io.Succeeds) :
    (openFile io s).1 = 0 ∧ Custody true (openFile io s).2 := by
  have hopen := wavOpen_ok hio recordFileFormat_accepted s.data.file s.data.fileName s.fs
  simp only [openFile, hopen, true_and]
  refine ⟨?_, ?_, ?_, ?_, ?_, ?_⟩
  · simpa [handedOver, closed, queued, handsOver, closesFile, List.filterMap_cons] using h.handed
  · have hledger := h.ledger
    simp only [Bool.false_eq_true, if_false, List.append_nil] at hledger
    simpa [handedOver, opened, handsOver, opensHandle, List.filterMap_cons,
      WavFormat.opened] using hledger.append_right [some s.fs.files.length]
  · have hfresh : s.fs.files.length ∉ opened s := fun hmem => by
      have := h.fresh _ hmem
      omega
    have hnodup : (opened s ++ [s.fs.files.length]).Nodup :=
      List.nodup_append.mpr ⟨h.nodup, by simp, by
        intro a ha b hb hab
        rw [List.mem_singleton.mp hb] at hab
        exact hfresh (hab ▸ ha)⟩
    simpa [opened, opensHandle, List.filterMap_cons, WavFormat.opened] using hnodup
  · intro handle hmem
    have hmem' : handle ∈ opened s ∨ handle = s.fs.files.length := by
      simpa [opened, opensHandle, List.filterMap_cons, WavFormat.opened, or_comm,
        eq_comm] using hmem
    simp only [List.length_append, List.length_cons, List.length_nil]
    rcases hmem' with hold | hnew
    · exact (h.fresh handle hold).trans (by omega)
    · omega
  · exact pairwise_append_of_not_write h.order rfl
  · intro v hv
    simp only [List.mem_append, List.mem_cons, List.not_mem_nil, or_false] at hv
    rcases hv with (hclosed | hclosed) | hqueue | ⟨_, hfile⟩
    · exact h.divisor v (Or.inl hclosed)
    · cases hclosed
    · exact h.divisor v (Or.inr (Or.inl hqueue))
    · rw [hfile]
      exact show recordFileFormat.bytesPerFrame ≠ 0 by decide

/-- Between two calls the ledger agrees with the state variable. -/
def Settled (s : Recorder) : Prop :=
  Custody (decide (Recording s)) s

theorem settled_of_recording {s : Recorder} (hstate : Recording s) (h : Custody true s) :
    Settled s := by
  rw [Settled, decide_eq_true hstate]
  exact h

theorem settled_of_not_recording {s : Recorder} (hstate : ¬ Recording s) (h : Custody false s) :
    Settled s := by
  rw [Settled, decide_eq_false hstate]
  exact h

theorem Settled.custody_of_recording {s : Recorder} (h : Settled s) (hstate : Recording s) :
    Custody true s := by
  rwa [Settled, decide_eq_true hstate] at h

theorem Settled.custody_of_not_recording {s : Recorder} (h : Settled s)
    (hstate : ¬ Recording s) : Custody false s := by
  rwa [Settled, decide_eq_false hstate] at h

theorem settled_bufferError {s : Recorder} (h : Custody false s) (ret : Int) :
    Settled (bufferError ret s).2 :=
  settled_of_not_recording (by simp [Recording, bufferError])
    (h.of_eq rfl rfl rfl le_rfl)

theorem settled_bufferFileError {s : Recorder} (h : Custody true s) (io : BufferIo) (ret : Int) :
    Settled (bufferFileError io ret s).2 :=
  settled_bufferError (custody_recordCloseFile h io.errorCloseFile) ret

theorem custody_bufferOldFile {s : Recorder} (h : Custody true s) (io : BufferIo)
    (block : AudioBlock) (split : Split) :
    Custody true (bufferOldFile io block split s).2 ∧
      (bufferOldFile io block split s).2.data.state = s.data.state := by
  have hwrite := custody_writeFile (custody_closeThread h io.beforeWrite) io.write block.buf
    split.splitOffset
  have hsync := custody_closeThread hwrite io.beforeSync
  simp only [bufferOldFile]
  split
  · exact ⟨hwrite, by simp⟩
  · split
    · split
      · exact ⟨hsync, by simp⟩
      · exact ⟨hsync.of_eq rfl rfl rfl le_rfl, by simp⟩
    · exact ⟨hwrite, by simp⟩

theorem bufferOldFile_oldFile {io : BufferIo} {block : AudioBlock} {split split' : Split}
    {s : Recorder} (h : (bufferOldFile io block split s).1 = .ok split') :
    split'.oldFile = split.oldFile := by
  have hkeep : ∀ (c : Prop) [Decidable c] (offset : UInt32),
      (if c then { split with newFile := true, splitOffset := offset } else split).oldFile =
        split.oldFile := by
    intro c _ offset
    split <;> rfl
  simp only [bufferOldFile] at h
  split at h
  · cases h
  · split at h
    · split at h
      · cases h
      · rw [← Except.ok.inj h]
        exact hkeep _ _
    · rw [← Except.ok.inj h]
      exact hkeep _ _

theorem settled_writeNewFile {s : Recorder} (h : Custody true s) (io : BufferIo)
    (block : AudioBlock) (split : Split) : Settled (writeNewFile io block split s).2 := by
  have hwritten := custody_writeFile (custody_closeThread h io.beforeNewWrite) io.newWrite
    (block.buf.drop split.splitOffset.toNat) (block.len - split.splitOffset)
  simp only [writeNewFile]
  split
  · exact settled_bufferFileError hwritten io _
  · exact settled_of_recording (Or.inl rfl) (hwritten.of_eq rfl rfl rfl le_rfl)

theorem settled_bufferNewFile {s : Recorder} {io : BufferIo} {split : Split}
    (h : Custody split.oldFile s) (hio : io.wavOpen.Succeeds) (block : AudioBlock) :
    Settled (bufferNewFile io block split s).2 := by
  have hclosed : Custody false (if split.oldFile then recordCloseFile io.closeFile s else s) := by
    split
    · rename_i hold
      exact custody_recordCloseFile (hold ▸ h) io.closeFile
    · rename_i hold
      exact (Bool.eq_false_iff.mpr hold) ▸ h
  simp only [bufferNewFile]
  generalize (if split.oldFile then recordCloseFile io.closeFile s else s) = t at hclosed ⊢
  have hready : Custody false (t.setLastSyncTimeMs io.newUptimeMs) :=
    hclosed.of_eq rfl rfl rfl le_rfl
  split
  · exact settled_bufferError hready _
  · obtain ⟨hret, hopened⟩ := custody_openFile (custody_closeThread hready io.beforeOpen) hio
    rw [if_neg (by simpa using hret)]
    have hcounted : Custody true
        (openFile io.wavOpen (closeThread io.beforeOpen (t.setLastSyncTimeMs
          io.newUptimeMs))).2.nextFileIndex := hopened.of_eq rfl rfl rfl le_rfl
    exact settled_writeNewFile hcounted io block split

theorem recordSwitch_oldFile {data : RecordData} {block : AudioBlock} {split : Split}
    (h : recordSwitch data block = some split) :
    split.oldFile = true ↔ data.state = .running ∨ data.state = .waitingNewFile := by
  rcases hstate : data.state with _ | _ | _ | _ <;>
    simp only [recordSwitch, hstate] at h
  · cases h
  all_goals
    obtain rfl := Option.some.inj h
    try split
    all_goals simp

theorem settled_recordBuffer {s : Recorder} (h : Settled s) {io : BufferIo}
    (hio : io.wavOpen.Succeeds) (block : AudioBlock) :
    Settled (recordBuffer io block s).2 := by
  simp only [recordBuffer]
  split
  · exact h
  · rcases hswitch : recordSwitch s.data block with _ | split
    · exact h
    · have hold : split.oldFile = true ↔ Recording s := recordSwitch_oldFile hswitch
      have hled : Settled (if split.newFile then s.setLed .running else s) := by
        split
        · exact Custody.of_eq h rfl rfl rfl le_rfl
        · exact h
      have hstate : Recording (if split.newFile then s.setLed .running else s) ↔ Recording s := by
        split <;> rfl
      dsimp only
      generalize (if split.newFile then s.setLed .running else s) = t at hled hstate ⊢
      by_cases hrec : Recording s
      · have howned := hled.custody_of_recording (hstate.mpr hrec)
        obtain ⟨hcustody, hkeep⟩ := custody_bufferOldFile howned io block split
        have hkept : Recording (bufferOldFile io block split t).2 := by
          rw [Recording, hkeep]
          exact hstate.mpr hrec
        rw [if_pos (hold.mpr hrec)]
        split
        · exact settled_bufferFileError hcustody io _
        · rename_i split' hresult
          split
          · refine settled_bufferNewFile ?_ hio block
            rw [bufferOldFile_oldFile hresult, hold.mpr hrec]
            exact hcustody
          · exact settled_of_recording hkept hcustody
      · have hnone := hled.custody_of_not_recording (fun hr => hrec (hstate.mp hr))
        have hnew : split.oldFile = false := Bool.eq_false_iff.mpr fun ho => hrec (hold.mp ho)
        rw [if_neg (by simp [hnew])]
        dsimp only
        split
        · exact settled_bufferNewFile (hnew ▸ hnone) hio block
        · exact hled

theorem Settled.of_eq {s t : Recorder} (h : Settled s) (hstate : Recording t ↔ Recording s)
    (htrace : t.trace = s.trace) (hqueue : t.closeQueue = s.closeQueue)
    (hfile : t.data.file = s.data.file) (hfiles : s.fs.files.length ≤ t.fs.files.length) :
    Settled t := by
  simp only [Settled, hstate]
  exact Custody.of_eq h htrace hqueue hfile hfiles

theorem custody_audio {own : Bool} {s : Recorder} (h : Custody own s) {e : Event}
    (he : e = .audioStart ∨ e = .audioStop) :
    Custody own { s with trace := s.trace ++ [e] } := by
  have hopens : opensHandle e = none := by rcases he with rfl | rfl <;> rfl
  have hhands : handsOver e = none := by rcases he with rfl | rfl <;> rfl
  have hcloses : closesFile e = none := by rcases he with rfl | rfl <;> rfl
  have hwrites : writesFile e = none := by rcases he with rfl | rfl <;> rfl
  refine ⟨?_, ?_, ?_, ?_, pairwise_append_of_not_write h.order hwrites, ?_⟩
  · simpa [handedOver, closed, queued, List.filterMap_cons, hhands, hcloses] using h.handed
  · simpa [handedOver, opened, List.filterMap_cons, hhands, hopens] using h.ledger
  · simpa [opened, List.filterMap_cons, hopens] using h.nodup
  · intro handle hmem
    exact h.fresh handle (by simpa [opened, List.filterMap_cons, hopens] using hmem)
  · intro v hv
    apply h.divisor v
    rcases he with rfl | rfl <;> simpa using hv

theorem settled_recordStart {s : Recorder} (h : Settled s) (audioStart : Int) (time : UInt32) :
    Settled (recordStart audioStart time s).2 := by
  have haudio : Settled { s with trace := s.trace ++ [.audioStart] } :=
    custody_audio h (Or.inl rfl)
  simp only [recordStart]
  split
  · exact h
  · split
    · exact haudio
    · refine haudio.of_eq ?_ rfl rfl rfl le_rfl
      rcases hstate : s.data.state <;> simp [Recording, hstate]

theorem settled_recordStopUnlocked {s : Recorder} (h : Settled s) (io : CloseFileIo) :
    Settled (recordStopUnlocked io s).2 := by
  have hclosed : Custody false (closeWhenRecording io s) := by
    simp only [closeWhenRecording]
    rcases hstate : s.data.state
    · exact h.custody_of_not_recording (by simp [Recording, hstate])
    · exact h.custody_of_not_recording (by simp [Recording, hstate])
    · exact custody_recordCloseFile (h.custody_of_recording (Or.inr hstate)) io
    · exact custody_recordCloseFile (h.custody_of_recording (Or.inl hstate)) io
  simp only [recordStopUnlocked]
  split
  · exact h
  · apply settled_of_not_recording (by simp [Recording])
    exact (custody_audio hclosed (Or.inr rfl)).of_eq rfl rfl rfl le_rfl

theorem settled_recordShutdown {s : Recorder} (h : Settled s) (io : CloseFileIo) :
    Settled (recordShutdown io s).2 := by
  have hstop := settled_recordStopUnlocked h io
  simp only [recordShutdown]
  split
  · exact h
  · split
    · exact hstop
    · exact hstop.of_eq Iff.rfl rfl rfl rfl le_rfl

theorem settled_scan {s : Recorder} (h : Settled s) (io : ScanIo) :
    Settled { s with data := (recordFindNextFileIndex io s.fs.card.names s.data).2 } := by
  obtain ⟨index, hdata⟩ := recordFindNextFileIndex_data io s.fs.card.names s.data
  rw [hdata]
  exact h.of_eq Iff.rfl rfl rfl rfl le_rfl

theorem settled_recordSetFileNamePrefix {s : Recorder} (h : Settled s) (io : SetPrefixIo)
    (namePrefix : List Char) : Settled (recordSetFileNamePrefix io namePrefix s).2 := by
  simp only [recordSetFileNamePrefix]
  split
  · exact h
  · split
    · rename_i hlen
      have hset : Settled { s with
          data := { s.data with fileNamePrefix := ⟨namePrefix, hlen⟩ } } :=
        h.of_eq Iff.rfl rfl rfl rfl le_rfl
      split
      · exact hset
      · have hsaved : Settled { s with
            data := { s.data with fileNamePrefix := ⟨namePrefix, hlen⟩ }
            settings := if namePrefix = [] then none else some namePrefix } :=
          hset.of_eq Iff.rfl rfl rfl rfl le_rfl
        exact settled_scan hsaved io.scan
    · exact h

def WavOpenSucceeds (_ : Recorder) : Call → Prop
  | .buffer io _ => io.wavOpen.Succeeds
  | _ => True

theorem settled_step (s : Recorder) (call : Call) (h : Settled s) (hio : WavOpenSucceeds s call) :
    Settled (step s call) := by
  cases call with
  | start audioStart time => exact settled_recordStart h audioStart time
  | buffer io block => exact settled_recordBuffer h hio block
  | stop io => exact settled_recordStopUnlocked h io
  | shutdown io => exact settled_recordShutdown h io
  | closeThread io =>
      simp only [step, Settled, Recording, recordCloseThreadRun_data]
      exact custody_closeThreadRun h io
  | setFileNamePrefix io namePrefix => exact settled_recordSetFileNamePrefix h io namePrefix
  | cardInserted io =>
      simp only [step, recordCardInserted]
      split
      · exact h
      · exact settled_scan h io
  | swapCard card => exact Settled.of_eq h Iff.rfl rfl rfl rfl le_rfl

theorem settled_initial (card : Card) (settings : Option (List Char)) (io : InitIo) :
    Settled (initial card settings io) := by
  obtain ⟨namePrefix, index, hdata⟩ := initial_data card settings io
  refine settled_of_not_recording ?_ (custody_initial card settings io)
  simp [Recording, hdata, boot]

theorem lifecycle_of_settled {s : Recorder} (h : Settled s) : Lifecycle s where
  closed_opened fp hfp := by
    have hhanded : fp ∈ handedOver s := h.handed.mem_iff.mpr hfp
    have hopened := h.ledger.mem_iff.mp (List.mem_append_left _ hhanded)
    obtain ⟨handle, hmem, rfl⟩ := List.mem_map.mp hopened
    exact ⟨handle, hmem, rfl⟩
  closed_once := by
    have hnodup := h.ledger.nodup_iff.mpr (List.Nodup.map (Option.some_injective _) h.nodup)
    exact h.handed.nodup_iff.mp (List.nodup_append.mp hnodup).1
  opened_closed handle hmem := by
    have hledger := h.ledger.mem_iff.mpr (List.mem_map_of_mem hmem)
    rcases List.mem_append.mp hledger with hhanded | howned
    · exact Or.inl (h.handed.mem_iff.mp hhanded)
    · by_cases hrec : Recording s
      · rw [if_pos (decide_eq_true hrec)] at howned
        exact Or.inr ⟨hrec, (List.mem_singleton.mp howned).symm⟩
      · simp [hrec] at howned
  not_written_after := h.order
  state_iff := by
    constructor
    · intro hrec
      have howned := h.custody_of_recording hrec
      have hmem := howned.ledger.mem_iff.mp (List.mem_append_right _
        (List.mem_singleton_self s.data.file.fp))
      obtain ⟨handle, hopened, hfp⟩ := List.mem_map.mp hmem
      exact ⟨handle, hopened, hfp.symm, hfp ▸ howned.not_handedOver⟩
    · rintro ⟨handle, hopened, hfp, hnot⟩
      by_contra hrec
      have hledger := (h.custody_of_not_recording hrec).ledger
      apply hnot
      simpa using hledger.mem_iff.mpr (List.mem_map_of_mem hopened)
  divisor w hw := h.divisor w (Or.inl hw)

/-- In every run in which no `wav_open` fails, the lifecycle of the recording
files holds in the state reached. -/
theorem lifecycle_run (card : Card) (settings : Option (List Char)) (io : InitIo)
    {calls : List Call} (hopens : Along step WavOpenSucceeds (initial card settings io) calls) :
    Lifecycle (run step (initial card settings io) calls) :=
  lifecycle_of_settled
    (invariant_run settled_step (settled_initial card settings io) hopens)

def shortBlock : AudioBlock where
  buf := List.replicate 16 0
  buf_lt := by decide
  startTime := 0
  duration := 100
  bytesPerFrame := 4

theorem lifecycle_run_record_and_stop :
    Lifecycle (run step (initial emptyCard none {})
      [.start 0 0, .buffer {} shortBlock, .buffer {} shortBlock, .stop {}, .closeThread {}]) := by
  refine lifecycle_run emptyCard none {} ⟨trivial, ?_, ?_, trivial, trivial, trivial⟩ <;>
    exact ⟨rfl, fun _ _ => rfl⟩

/-- When `fs_open` fails, the zeroed struct still goes through the queue to
`wav_close`, which divides by its frame size. -/
theorem not_lifecycle_of_open_failure :
    ¬ ∀ (card : Card) (settings : Option (List Char)) (io : InitIo) (calls : List Call),
      Lifecycle (run step (initial card settings io) calls) := by
  intro h
  have hlife := h emptyCard none {} [.start 0 0,
    .buffer { wavOpen := { fsOpen := .err 0 4 } } shortBlock, .closeThread {}]
  exact hlife.divisor Wav.zero (by decide) rfl

end ZeusLe.RecordLifecycle
