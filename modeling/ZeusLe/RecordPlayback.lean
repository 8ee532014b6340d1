import Mathlib.Data.List.Forall2
import ZeusLe.RecordContinuity
import ZeusLe.WavContents

/-!
From the audio blocks to what a reader of the card finds: the files that the close
thread has closed are WAV files, and played one after the other they are the
recording.
-/

namespace ZeusLe.RecordPlayback

open ZeusLe.FileSystem
open ZeusLe.Library.Riff
open ZeusLe.Library.Run
open ZeusLe.Library.Takes
open ZeusLe.Library.Word
open ZeusLe.Record
open ZeusLe.RecordContinuity
open ZeusLe.RecordLifecycle
open ZeusLe.RecordStream (BufferSucceeds CurrentFile Holds NoFailure Refines cutAt
  holds_bufferOldFile holds_closeThread holds_closeThreadRun holds_led holds_openFile
  holds_recordCloseFile holds_writeFile input recordSwitch_waiting refines_run refines_step)
open ZeusLe.WavContents (WellFormed recordHeader setSizes setSizes_encode wavUpdateSize_ok
  wellFormed_encode)
open ZeusLe.WavFile

/-- A header of the recorder and the data behind it. -/
def HasHeader (f : File) : Prop :=
  ∃ riffSize dataSize, f.bytes = encode (recordHeader riffSize dataSize) ++ dataOf f

/-- The struct describes the file that it stands for. -/
def Describes (files : List File) (w : Wav) : Prop :=
  ∃ h f, files[h]? = some f ∧ (dataOf f).length ≤ maxDataSize ∧
    w = { recordFileFormat.opened h with dataSize := UInt32.ofNat (dataOf f).length }

def Closed (files : List File) (w : Wav) : Prop :=
  ∃ h f, files[h]? = some f ∧ w.fp = some h ∧ WellFormed recordFileFormat f.bytes (dataOf f)

/-- Every file has its header, what waits for the close thread describes its file,
and what the close thread has closed is a WAV file. -/
structure Playable (s : Recorder) : Prop where
  header : ∀ f ∈ s.fs.files, HasHeader f
  queued : ∀ w ∈ s.closeQueue, Describes s.fs.files w
  closed : ∀ w, .closed w ∈ s.trace → Closed s.fs.files w
  opened : ∀ h < s.fs.files.length, h ∈ opened s
  updated : ∀ w, .closedNoUpdate w ∉ s.trace

theorem dataOf_encode (path : Path) (hdr : Header) (data : List UInt8) (pos : Nat) :
    dataOf ⟨path, encode hdr ++ data, pos⟩ = data :=
  List.drop_left' (length_encode hdr)

theorem HasHeader.setSizes_eq {f : File} (hf : HasHeader f) (size : UInt32) :
    setSizes size f = ⟨f.path, encode (recordHeader (size + wavHeaderSize - 8) size) ++ dataOf f,
      44 + (dataOf f).length⟩ := by
  obtain ⟨riffSize, dataSize, hbytes⟩ := hf
  have heq : f = ⟨f.path, encode (recordHeader riffSize dataSize) ++ dataOf f, f.pos⟩ := by
    rw [← hbytes]
  calc
    setSizes size f
      = setSizes size ⟨f.path, encode (recordHeader riffSize dataSize) ++ dataOf f, f.pos⟩ :=
        congrArg (setSizes size) heq
    _ = _ := setSizes_encode _ _ _ _ _ _

theorem HasHeader.dataOf_setSizes {f : File} (hf : HasHeader f) (size : UInt32) :
    dataOf (setSizes size f) = dataOf f := by
  rw [hf.setSizes_eq, dataOf_encode]

theorem HasHeader.of_setSizes {f : File} (hf : HasHeader f) (size : UInt32) :
    HasHeader (setSizes size f) := by
  refine ⟨size + wavHeaderSize - 8, size, ?_⟩
  rw [hf.dataOf_setSizes, hf.setSizes_eq]

theorem wellFormed_setSizes {f : File} (hf : HasHeader f) {w : Wav} {h : Nat}
    (hw : w = { recordFileFormat.opened h with dataSize := UInt32.ofNat (dataOf f).length })
    (hlen : (dataOf f).length ≤ maxDataSize) :
    WellFormed recordFileFormat
      (setSizes (roundDown w.dataSize w.bytesPerFrame.toUInt32) f).bytes (dataOf f) := by
  have hsize : (UInt32.ofNat (dataOf f).length).toNat = (dataOf f).length :=
    UInt32.toNat_ofNat_of_lt' (Nat.lt_of_le_of_lt hlen (by decide))
  have hframe : w.bytesPerFrame.toUInt32.toNat = 4 := by
    rw [hw]
    rfl
  have hdata : w.dataSize.toNat = (dataOf f).length := by
    rw [hw]
    exact hsize
  have hmax : maxDataSize = 2147483600 := rfl
  rw [hf.setSizes_eq]
  refine wellFormed_encode ?_ hlen
  simp only [roundDown, UInt32.toNat_mul, UInt32.toNat_div, hframe, hdata]
  omega

/-- No call of `wav_update_size` fails. -/
def Closes (io : WavCloseIo) : Prop :=
  ∃ fsClose, io = { fsClose := fsClose }

theorem wavClose_of_closes {io : WavCloseIo} (hio : Closes io) {w : Wav} {h : Nat}
    (hw : w.fp = some h) (fs : Fs) :
    (wavClose io w fs).2 = { fs with
      files := fs.files.modify h (setSizes (roundDown w.dataSize w.bytesPerFrame.toUInt32)) } := by
  obtain ⟨fsClose, rfl⟩ := hio
  have hupdate := wavUpdateSize_ok hw fs
  rw [wavClose_fs]
  exact congrArg Prod.snd hupdate

section

variable {files : List File} {h : Nat} {f : File} {size : UInt32}

theorem describes_modify (hf : files[h]? = some f) (hheader : HasHeader f) {w : Wav}
    (hw : Describes files w) : Describes (files.modify h (setSizes size)) w := by
  obtain ⟨h', f', hf', hlen, hw⟩ := hw
  by_cases heq : h = h'
  · subst heq
    obtain rfl : f' = f := Option.some.inj (hf'.symm.trans hf)
    refine ⟨h, setSizes size f', ?_, ?_, ?_⟩
    · rw [List.getElem?_modify_eq, hf]
      rfl
    · rw [hheader.dataOf_setSizes]
      exact hlen
    · rw [hheader.dataOf_setSizes]
      exact hw
  · exact ⟨h', f', (List.getElem?_modify_ne _ _ heq).trans hf', hlen, hw⟩

theorem closed_modify (hf : files[h]? = some f) (hheader : HasHeader f)
    (hwell : WellFormed recordFileFormat (setSizes size f).bytes (dataOf f)) {w : Wav}
    (hw : Closed files w) : Closed (files.modify h (setSizes size)) w := by
  obtain ⟨h', f', hf', hfp, hw⟩ := hw
  by_cases heq : h = h'
  · subst heq
    refine ⟨h, setSizes size f, ?_, hfp, ?_⟩
    · rw [List.getElem?_modify_eq, hf]
      rfl
    · rw [hheader.dataOf_setSizes]
      exact hwell
  · exact ⟨h', f', (List.getElem?_modify_ne _ _ heq).trans hf', hfp, hw⟩

theorem header_modify (hheaders : ∀ f ∈ files, HasHeader f) :
    ∀ f ∈ files.modify h (setSizes size), HasHeader f := by
  intro f hmem
  obtain ⟨i, hi, rfl⟩ := List.getElem_of_mem hmem
  have hi' : i < files.length := by simpa using hi
  rw [List.getElem_modify]
  split
  · exact (hheaders _ (List.getElem_mem hi')).of_setSizes size
  · exact hheaders _ (List.getElem_mem hi')

end

theorem Playable.of_eq {s t : Recorder} (hs : Playable s) (htrace : t.trace = s.trace)
    (hqueue : t.closeQueue = s.closeQueue) (hfiles : t.fs.files = s.fs.files) : Playable t where
  header := by
    rw [hfiles]
    exact hs.header
  queued := by
    rw [hqueue, hfiles]
    exact hs.queued
  closed := by
    rw [htrace, hfiles]
    exact hs.closed
  opened := by
    rw [hfiles, RecordLifecycle.opened, htrace]
    exact hs.opened
  updated := by
    rw [htrace]
    exact hs.updated

theorem playable_closeThreadRun {s : Recorder} (hs : Playable s) {io : WavCloseIo}
    (hio : Closes io) : Playable (recordCloseThreadRun s io) := by
  rcases hqueue : s.closeQueue with _ | ⟨w, queue⟩
  · simpa only [recordCloseThreadRun, hqueue] using hs
  · obtain ⟨h, f, hf, hlen, hw⟩ := hs.queued w (by rw [hqueue]; exact List.mem_cons_self)
    have hfp : w.fp = some h := congrArg Wav.fp hw
    have hheader := hs.header f (List.mem_of_getElem? hf)
    have hwell := wellFormed_setSizes hheader hw hlen
    simp only [recordCloseThreadRun, hqueue, wavClose_of_closes hio hfp]
    constructor
    · exact header_modify hs.header
    · intro v hv
      exact describes_modify hf hheader (hs.queued v (by rw [hqueue]; exact List.mem_cons_of_mem w hv))
    · intro v hv
      simp only [List.mem_append, List.mem_singleton, Event.closed.injEq] at hv
      rcases hv with hold | rfl
      · exact closed_modify hf hheader hwell (hs.closed v hold)
      · refine ⟨h, setSizes (roundDown v.dataSize v.bytesPerFrame.toUInt32) f, ?_, hfp, ?_⟩
        · rw [List.getElem?_modify_eq, hf]
          rfl
        · rw [hheader.dataOf_setSizes]
          exact hwell
    · intro handle hlt
      rw [List.length_modify] at hlt
      simpa [RecordLifecycle.opened, opensHandle, List.filterMap_cons] using hs.opened handle hlt
    · intro v hv
      simp only [List.mem_append, List.mem_singleton, reduceCtorEq, or_false] at hv
      exact hs.updated v hv

theorem playable_closeThread {s : Recorder} (hs : Playable s) {rounds : List WavCloseIo}
    (hrounds : ∀ io ∈ rounds, Closes io) : Playable (closeThread rounds s) := by
  induction rounds generalizing s with
  | nil => exact hs
  | cons io rounds ih =>
      exact ih (playable_closeThreadRun hs (hrounds io List.mem_cons_self)) fun io' hio' =>
        hrounds io' (List.mem_cons_of_mem io hio')

/-- `k_msgq_put` waits for room, and nothing fails in the close thread. -/
structure ClosesFile (io : CloseFileIo) : Prop where
  before : ∀ close ∈ io.before, Closes close
  room : Closes io.room
  put : io.failed = false

theorem playable_queueFile {s : Recorder} (hs : Playable s) {current : List UInt8}
    (hcurrent : CurrentFile s current) : Playable (queueFile s) := by
  obtain ⟨hbounded, init, f, hfiles, -, hdata, hfile⟩ := hcurrent
  have hlast : s.fs.files[init.length]? = some f := by
    rw [hfiles]
    exact List.getElem?_concat_length
  constructor
  · exact hs.header
  · intro w hw
    rcases List.mem_append.mp hw with hold | hnew
    · exact hs.queued w hold
    · rw [List.mem_singleton.mp hnew]
      exact ⟨init.length, f, hlast, hdata ▸ hbounded, by rw [hfile, hdata]⟩
  · intro w hw
    simp only [queueFile, List.mem_append, List.mem_singleton, reduceCtorEq, or_false] at hw
    exact hs.closed w hw
  · intro h hlt
    simpa [queueFile, RecordLifecycle.opened, opensHandle, List.filterMap_cons] using hs.opened h hlt
  · intro w hw
    simp only [queueFile, List.mem_append, List.mem_singleton, reduceCtorEq, or_false] at hw
    exact hs.updated w hw

theorem playable_recordCloseFile {s : Recorder} {done : List (List UInt8)} {current : List UInt8}
    (h : Holds s done (some current)) (hs : Playable s) {io : CloseFileIo} (hio : ClosesFile io) :
    Playable (recordCloseFile io s) := by
  have hbefore := playable_closeThread hs hio.before
  have hheld := holds_closeThread h io.before
  simp only [recordCloseFile, hio.put, Bool.false_eq_true, if_false]
  split
  · exact playable_queueFile hbefore (hheld.current current rfl)
  · exact playable_queueFile (playable_closeThreadRun hbefore hio.room)
      ((holds_closeThreadRun hheld io.room).current current rfl)

theorem ne_of_handedOver {s : Recorder} (hcustody : Custody true s) {h : Nat}
    (hfile : s.data.file.fp = some h) {w : Wav} (hw : w ∈ s.closeQueue ∨ .closed w ∈ s.trace) :
    w.fp ≠ some h := by
  intro hfp
  apply hcustody.not_handedOver
  rw [hfile, ← hfp]
  apply hcustody.handed.mem_iff.mpr
  rcases hw with hqueue | hclosed
  · exact List.mem_append_right _ (List.mem_map_of_mem hqueue)
  · exact List.mem_append_left _ (List.mem_filterMap.mpr ⟨_, hclosed, rfl⟩)

theorem playable_writeFile {s : Recorder} {done : List (List UInt8)} {current : List UInt8}
    (h : Holds s done (some current)) (hs : Playable s) (buf : List UInt8) (len : UInt32) :
    Playable (writeFile .ok buf len s).2 := by
  obtain ⟨-, init, f, hfiles, hpos, -, hfile⟩ := h.current current rfl
  have hfp : s.data.file.fp = some init.length := congrArg Wav.fp hfile
  have hlong : wavHeaderSize.toNat ≤ f.bytes.length := h.headers f (by simp [hfiles])
  obtain ⟨bytes, hwritten⟩ : ∃ bytes,
      (writeFile .ok buf len s).2.fs.files = init ++ [f.append bytes] := by
    refine ⟨buf.take (Outcome.ok.stored (s.data.file.writeLen len).toNat), ?_⟩
    simp only [writeFile, wavWrite_fs .ok hfp, hfiles, modify_last, File.store_eq_append hpos]
  have hkeep {i : Nat} {g : File} (hne : i ≠ init.length) (hg : s.fs.files[i]? = some g) :
      (init ++ [f.append bytes])[i]? = some g := by
    have hlt : i < s.fs.files.length := (List.getElem?_eq_some_iff.mp hg).1
    rw [hfiles, List.length_append, List.length_singleton] at hlt
    rw [hfiles, List.getElem?_append_left (by omega)] at hg
    rw [List.getElem?_append_left (by omega)]
    exact hg
  constructor
  · rw [hwritten]
    intro g hg
    rcases List.mem_append.mp hg with hold | hnew
    · exact hs.header g (by simp [hfiles, hold])
    · obtain ⟨riffSize, dataSize, hbytes⟩ := hs.header f (by simp [hfiles])
      rw [List.mem_singleton.mp hnew]
      refine ⟨riffSize, dataSize, ?_⟩
      rw [dataOf_append hlong, ← List.append_assoc, ← hbytes]
      rfl
  · rw [hwritten]
    intro w hw
    obtain ⟨i, g, hg, hlen, heq⟩ := hs.queued w hw
    have hne := ne_of_handedOver h.custody hfp (Or.inl hw)
    exact ⟨i, g, hkeep (fun hi => hne (hi ▸ congrArg Wav.fp heq)) hg, hlen, heq⟩
  · rw [hwritten]
    intro w hw
    simp only [writeFile, List.mem_append, List.mem_singleton, reduceCtorEq, or_false] at hw
    obtain ⟨i, g, hg, hclosed, hwell⟩ := hs.closed w hw
    have hne := ne_of_handedOver h.custody hfp (Or.inr hw)
    exact ⟨i, g, hkeep (fun hi => hne (hi ▸ hclosed)) hg, hclosed, hwell⟩
  · intro handle hlt
    rw [hwritten, List.length_append] at hlt
    have hopened := hs.opened handle (by rw [hfiles, List.length_append]; exact hlt)
    simpa [writeFile, RecordLifecycle.opened, opensHandle, List.filterMap_cons] using hopened
  · intro w hw
    simp only [writeFile, List.mem_append, List.mem_singleton, reduceCtorEq, or_false] at hw
    exact hs.updated w hw

theorem hasHeader_newFile (name : Path) : HasHeader (recordFileFormat.newFile name) :=
  ⟨2147483636, 2147483600, rfl⟩

theorem playable_openFile {s : Recorder} (hs : Playable s) {io : WavOpenIo} (hio : io.Succeeds) :
    Playable (openFile io s).2 := by
  have hopen := wavOpen_ok hio recordFileFormat_accepted s.data.file s.data.fileName s.fs
  have hkeep {i : Nat} {g : File} (hg : s.fs.files[i]? = some g) :
      (s.fs.files ++ [recordFileFormat.newFile s.data.fileName])[i]? = some g := by
    rw [List.getElem?_append_left (List.getElem?_eq_some_iff.mp hg).1]
    exact hg
  simp only [openFile, hopen]
  constructor
  · intro g hg
    rcases List.mem_append.mp hg with hold | hnew
    · exact hs.header g hold
    · rw [List.mem_singleton.mp hnew]
      exact hasHeader_newFile _
  · intro w hw
    obtain ⟨i, g, hg, hlen, heq⟩ := hs.queued w hw
    exact ⟨i, g, hkeep hg, hlen, heq⟩
  · intro w hw
    simp only [List.mem_append, List.mem_singleton, reduceCtorEq, or_false] at hw
    obtain ⟨i, g, hg, hclosed, hwell⟩ := hs.closed w hw
    exact ⟨i, g, hkeep hg, hclosed, hwell⟩
  · intro handle hlt
    simp only [List.length_append, List.length_singleton] at hlt
    rcases Nat.lt_succ_iff_lt_or_eq.mp hlt with hold | rfl
    · have hopened := hs.opened handle hold
      simp only [RecordLifecycle.opened, List.filterMap_append, List.mem_append] at hopened ⊢
      exact Or.inl hopened
    · simp [RecordLifecycle.opened, opensHandle, WavFormat.opened]
  · intro w hw
    simp only [List.mem_append, List.mem_singleton, reduceCtorEq, or_false] at hw
    exact hs.updated w hw

/-- Nothing fails in the close thread during a `record_buffer`. -/
structure BufferCloses (io : BufferIo) : Prop where
  beforeWrite : ∀ close ∈ io.beforeWrite, Closes close
  beforeSync : ∀ close ∈ io.beforeSync, Closes close
  closeFile : ClosesFile io.closeFile
  beforeOpen : ∀ close ∈ io.beforeOpen, Closes close
  beforeNewWrite : ∀ close ∈ io.beforeNewWrite, Closes close
  errorCloseFile : ClosesFile io.errorCloseFile

section

variable {s : Recorder} {io : BufferIo} {block : AudioBlock}
  (hio : BufferSucceeds io block) (hcloses : BufferCloses io)
include hio hcloses

theorem playable_bufferOldFile {done : List (List UInt8)} {current : List UInt8}
    (h : Holds s done (some current)) (hs : Playable s) (split : Split)
    (hsplit : split.splitOffset ≤ block.len) : Playable (bufferOldFile io block split s).2 := by
  have hlen : split.splitOffset.toNat ≤ block.buf.length := by
    simpa [UInt32.le_iff_toNat_le] using hsplit
  have hwrite := playable_writeFile (holds_closeThread h io.beforeWrite)
    (playable_closeThread hs hcloses.beforeWrite) block.buf split.splitOffset
  simp only [bufferOldFile, hio.write]
  split
  · exact hwrite
  · split
    · have hsync := playable_closeThread hwrite hcloses.beforeSync
      split
      · exact hsync
      · exact hsync.of_eq rfl rfl rfl
    · exact hwrite

omit hio in
theorem playable_bufferFileError {done : List (List UInt8)} {current : List UInt8}
    (h : Holds s done (some current)) (hs : Playable s) (ret : Int) :
    Playable (bufferFileError io ret s).2 :=
  (playable_recordCloseFile h hs hcloses.errorCloseFile).of_eq rfl rfl rfl

theorem playable_writeNewFile {done : List (List UInt8)} (h : Holds s done (some []))
    (hs : Playable s) (split : Split) (hsplit : split.splitOffset ≤ block.len) :
    Playable (writeNewFile io block split s).2 := by
  have hlen : (block.len - split.splitOffset).toNat =
      (block.buf.drop split.splitOffset.toNat).length := by
    rw [UInt32.toNat_sub_of_le _ _ hsplit, AudioBlock.toNat_len, List.length_drop]
  have hfits : (block.len - split.splitOffset).toNat ≤ maxDataSize := by
    rw [hlen, List.length_drop]
    exact (Nat.sub_le _ _).trans hio.fits
  have hready := holds_closeThread h io.beforeNewWrite
  have hwrite := playable_writeFile hready (playable_closeThread hs hcloses.beforeNewWrite)
    (block.buf.drop split.splitOffset.toNat) (block.len - split.splitOffset)
  obtain ⟨-, hwritten⟩ := holds_writeFile hready (block.buf.drop split.splitOffset.toNat) hfits
    hlen.le
  simp only [writeNewFile, hio.newWrite]
  split
  · exact playable_bufferFileError hcloses hwritten hwrite _
  · exact hwrite.of_eq rfl rfl rfl

theorem playable_bufferNewFile {done : List (List UInt8)} {own : Option (List UInt8)}
    (h : Holds s done own) (hs : Playable s) {split : Split}
    (hsplit : split.splitOffset ≤ block.len) (hold : split.oldFile = own.isSome) :
    Playable (bufferNewFile io block split s).2 := by
  have hclosed : Playable (if split.oldFile then recordCloseFile io.closeFile s else s) ∧
      ∃ done', Holds (if split.oldFile then recordCloseFile io.closeFile s else s) done' none := by
    rcases own with _ | current
    · rw [hold]
      exact ⟨hs, done, h⟩
    · rw [hold]
      exact ⟨playable_recordCloseFile h hs hcloses.closeFile, _,
        holds_recordCloseFile h io.closeFile⟩
  simp only [bufferNewFile]
  generalize (if split.oldFile then recordCloseFile io.closeFile s else s) = t at hclosed ⊢
  obtain ⟨hplay, done', hheld⟩ := hclosed
  have hplayed : Playable (t.setLastSyncTimeMs io.newUptimeMs) := hplay.of_eq rfl rfl rfl
  have hready : Holds (t.setLastSyncTimeMs io.newUptimeMs) done' none :=
    hheld.of_eq rfl rfl rfl rfl
  split
  · exact hplayed.of_eq rfl rfl rfl
  · obtain ⟨hret, hopened⟩ := holds_openFile (holds_closeThread hready io.beforeOpen) hio.wavOpen
    have hopen := playable_openFile (playable_closeThread hplayed hcloses.beforeOpen) hio.wavOpen
    rw [if_neg (by simpa using hret)]
    have hcounted : Holds (openFile io.wavOpen (closeThread io.beforeOpen
        (t.setLastSyncTimeMs io.newUptimeMs))).2.nextFileIndex done' (some []) :=
      hopened.of_eq rfl rfl rfl rfl
    exact playable_writeNewFile hio hcloses hcounted (hopen.of_eq rfl rfl rfl) split hsplit

end

theorem recordSwitch_splitOffset_le {data : RecordData} {block : AudioBlock} {split : Split}
    (hswitch : recordSwitch data block = some split) : split.splitOffset ≤ block.len := by
  have hwaiting (oldFile : Bool)
      (hstate : data.state = if oldFile then .waitingNewFile else .waitingStart) :
      split.splitOffset ≤ block.len := by
    obtain ⟨split', hswitch', -, hle, -⟩ := recordSwitch_waiting block oldFile hstate
    obtain rfl : split' = split := Option.some.inj (hswitch'.symm.trans hswitch)
    exact hle
  cases hstate : data.state with
  | stopped => simp only [recordSwitch, hstate, reduceCtorEq] at hswitch
  | waitingStart => exact hwaiting false hstate
  | waitingNewFile => exact hwaiting true hstate
  | running =>
      simp only [recordSwitch, hstate, Option.some.injEq] at hswitch
      rw [← hswitch]
      exact UInt32.le_refl _

theorem afterWrite_splitOffset_le {block : AudioBlock} {split : Split} {stored : Nat}
    (hsplit : split.splitOffset ≤ block.len) (hstored : stored ≤ split.splitOffset.toNat) :
    (RecordStream.afterWrite split stored).splitOffset ≤ block.len := by
  rw [UInt32.le_iff_toNat_le, RecordStream.afterWrite_splitOffset hstored]
  rw [UInt32.le_iff_toNat_le] at hsplit
  exact hstored.trans hsplit

theorem own_isSome {s : Recorder} {tape : Tape UInt8 UInt32} (h : Refines s tape)
    {block : AudioBlock} {split : Split} (hswitch : recordSwitch s.data block = some split) :
    split.oldFile = tape.phase.current.isSome := by
  have hphase := h.phase
  have hold := recordSwitch_oldFile hswitch
  rcases tape with ⟨done, _ | time | ⟨time, current⟩ | current⟩
  · simpa [show s.data.state = .stopped from hphase, Phase.current] using hold
  · simpa [hphase.1, Phase.current] using hold
  · simpa [hphase.1, Phase.current] using hold
  · simpa [show s.data.state = .running from hphase, Phase.current] using hold

theorem playable_recordBuffer {s : Recorder} {tape : Tape UInt8 UInt32} (h : Refines s tape)
    (hs : Playable s) {io : BufferIo} {block : AudioBlock} (hio : BufferSucceeds io block)
    (hcloses : BufferCloses io) : Playable (recordBuffer io block s).2 := by
  simp only [recordBuffer, h.init, Bool.not_true, Bool.false_eq_true, if_false]
  cases hswitch : recordSwitch s.data block with
  | none => exact hs
  | some split =>
      have hown := own_isSome h hswitch
      have hsplit := recordSwitch_splitOffset_le hswitch
      have hled : Playable (if split.newFile then s.setLed .running else s) := by
        split
        · exact hs.of_eq rfl rfl rfl
        · exact hs
      have hheld := (holds_led h.holds split.newFile).1
      dsimp only
      generalize (if split.newFile then s.setLed .running else s) = t at hled hheld ⊢
      cases hcurrent : tape.phase.current with
      | none =>
          rw [hcurrent] at hown hheld
          have hold : split.oldFile = false := hown
          simp only [hold, Bool.false_eq_true, if_false]
          split
          · exact playable_bufferNewFile hio hcloses hheld hled hsplit hown
          · exact hled
      | some current =>
          rw [hcurrent] at hown hheld
          have hold : split.oldFile = true := hown
          have hplay := playable_bufferOldFile hio hcloses hheld hled split hsplit
          obtain ⟨hresult, hwritten, -⟩ := holds_bufferOldFile hheld hio hsplit
          have hinside : (RecordStream.afterWrite split
              (RecordStream.roomFor current split.splitOffset.toNat)).splitOffset ≤ block.len :=
            afterWrite_splitOffset_le hsplit (Nat.min_le_left _ _)
          simp only [hold, if_true, hresult]
          split
          · refine playable_bufferNewFile hio hcloses hwritten hplay hinside ?_
            rw [RecordStream.afterWrite_oldFile]
            exact hown
          · exact hplay

theorem playable_recordStop {s : Recorder} {tape : Tape UInt8 UInt32} (h : Refines s tape)
    (hs : Playable s) {io : CloseFileIo} (hio : ClosesFile io) : Playable (recordStop io s).2 := by
  have hclosed : Playable (closeWhenRecording io s) := by
    obtain ⟨-, hphase, hholds⟩ := h
    simp only [closeWhenRecording]
    rcases tape with ⟨done, _ | time | ⟨time, current⟩ | current⟩
    · rw [show s.data.state = .stopped from hphase]
      exact hs
    · rw [hphase.1]
      exact hs
    · rw [hphase.1]
      exact playable_recordCloseFile hholds hs hio
    · rw [show s.data.state = .running from hphase]
      exact playable_recordCloseFile hholds hs hio
  simp only [recordStop, recordStopUnlocked, h.init, Bool.not_true, Bool.false_eq_true, if_false]
  constructor
  · exact hclosed.header
  · exact hclosed.queued
  · intro w hw
    simp only [List.mem_append, List.mem_singleton, reduceCtorEq, or_false] at hw
    exact hclosed.closed w hw
  · intro h hlt
    simpa [RecordLifecycle.opened, opensHandle, List.filterMap_cons] using hclosed.opened h hlt
  · intro w hw
    simp only [List.mem_append, List.mem_singleton, reduceCtorEq, or_false] at hw
    exact hclosed.updated w hw

theorem playable_recordStart {s : Recorder} (hs : Playable s) (audioStart : Int) (time : UInt32) :
    Playable (recordStart audioStart time s).2 := by
  have hstarted : Playable { s with trace := s.trace ++ [.audioStart] } := by
    constructor
    · exact hs.header
    · exact hs.queued
    · intro w hw
      simp only [List.mem_append, List.mem_singleton, reduceCtorEq, or_false] at hw
      exact hs.closed w hw
    · intro h hlt
      simpa [RecordLifecycle.opened, opensHandle, List.filterMap_cons] using hs.opened h hlt
    · intro w hw
      simp only [List.mem_append, List.mem_singleton, reduceCtorEq, or_false] at hw
      exact hs.updated w hw
  simp only [recordStart]
  split
  · exact hs
  · split
    · exact hstarted
    · exact hstarted.of_eq rfl rfl rfl

/-- Nothing fails in the close thread. -/
def ClosesWell : Call → Prop
  | .buffer io _ => BufferCloses io
  | .stop io | .shutdown io => ClosesFile io
  | .closeThread io => Closes io
  | _ => True

/-- Nothing fails, neither in the calls of the recorder nor in the close thread. -/
def Succeeds (s : Recorder) (call : Call) : Prop :=
  NoFailure s call ∧ ClosesWell call

theorem playable_step {s : Recorder} {tape : Tape UInt8 UInt32} (h : Refines s tape)
    (hs : Playable s) {call : Call} (hcall : Succeeds s call) : Playable (step s call) := by
  obtain ⟨hfails, hcloses⟩ := hcall
  cases call with
  | start audioStart time => exact playable_recordStart hs audioStart time
  | buffer io block => exact playable_recordBuffer h hs hfails hcloses
  | stop io => exact playable_recordStop h hs hcloses
  | shutdown io => exact hfails.elim
  | closeThread io => exact playable_closeThreadRun hs hcloses
  | setFileNamePrefix io namePrefix =>
      simp only [step, recordSetFileNamePrefix]
      split
      · exact hs
      · split
        · split
          · exact hs.of_eq rfl rfl rfl
          · exact hs.of_eq rfl rfl rfl
        · exact hs
  | cardInserted io =>
      simp only [step, recordCardInserted]
      split
      · exact hs
      · exact hs.of_eq rfl rfl rfl
  | swapCard card => exact hs.of_eq rfl rfl rfl

theorem playable_initial (card : Card) (settings : Option (List Char)) (io : InitIo) :
    Playable (initial card settings io) where
  header := nofun
  queued := nofun
  closed := nofun
  opened := nofun
  updated := nofun

theorem playable_run (card : Card) (settings : Option (List Char)) (io : InitIo)
    {calls : List Call} (hcalls : Along step Succeeds (initial card settings io) calls) :
    Playable (run step (initial card settings io) calls) := by
  have hstep (s : Recorder) (call : Call)
      (hs : (∃ tape, Refines s tape) ∧ Playable s) (hcall : Succeeds s call) :
      (∃ tape, Refines (step s call) tape) ∧ Playable (step s call) := by
    obtain ⟨⟨tape, h⟩, hplay⟩ := hs
    exact ⟨⟨_, refines_step s tape call h hcall.1⟩, playable_step h hplay hcall⟩
  exact (invariant_run hstep ⟨⟨_, RecordStream.refines_initial card settings io⟩,
    playable_initial card settings io⟩ hcalls).2

theorem step_of_stopped (capacity : Nat) (done : List (List UInt8)) {i : Input UInt8 UInt32}
    (hi : ∀ t, i ≠ .start t) : Tape.step capacity ⟨done, .stopped⟩ i = ⟨done, .stopped⟩ := by
  cases i with
  | block b => rfl
  | start t => exact absurd rfl (hi t)
  | stop => simp only [Tape.step, Tape.stop, Tape.takes, Phase.current, Option.toList_none,
      List.append_nil]
  | idle => rfl

theorem run_of_stopped (capacity : Nat) (done : List (List UInt8))
    {inputs : List (Input UInt8 UInt32)} (hinputs : ∀ i ∈ inputs, ∀ t, i ≠ .start t) :
    run (Tape.step capacity) ⟨done, .stopped⟩ inputs = ⟨done, .stopped⟩ := by
  induction inputs with
  | nil => rfl
  | cons i inputs ih =>
      rw [run_cons, step_of_stopped capacity done (hinputs i List.mem_cons_self)]
      exact ih fun j hj => hinputs j (List.mem_cons_of_mem i hj)

/-- A call that does not ask for a new recording. -/
def NotStart (call : Call) : Prop :=
  ∀ audioStart time, call ≠ .start audioStart time

theorem input_ne_start {call : Call} (h : NotStart call) (t : UInt32) : input call ≠ .start t := by
  cases call with
  | start audioStart time => exact absurd rfl (h audioStart time)
  | _ => exact nofun

theorem wellFormed_of_drained {s : Recorder} {done : List (List UInt8)} (h : Holds s done none)
    (hs : Playable s) (hqueue : s.closeQueue = []) :
    ∀ f ∈ s.fs.files, WellFormed recordFileFormat f.bytes (dataOf f) := by
  intro f hf
  obtain ⟨i, hi, rfl⟩ := List.getElem_of_mem hf
  have hledger := h.custody.ledger
  have hhanded := h.custody.handed
  rw [Option.isSome_none, if_neg Bool.false_ne_true, List.append_nil] at hledger
  rw [RecordLifecycle.queued, hqueue, List.map_nil, List.append_nil] at hhanded
  have hclosed : some i ∈ RecordLifecycle.closed s :=
    hhanded.mem_iff.mp (hledger.mem_iff.mpr (List.mem_map_of_mem (hs.opened i hi)))
  obtain ⟨event, hevent, hfile⟩ := List.mem_filterMap.mp hclosed
  cases event with
  | closed w =>
      obtain ⟨j, g, hg, hfp, hwell⟩ := hs.closed w hevent
      obtain rfl : j = i := Option.some.inj (hfp.symm.trans (Option.some.inj hfile))
      rw [List.getElem?_eq_getElem hi] at hg
      rw [Option.some.inj hg]
      exact hwell
  | closedNoUpdate w => exact absurd hevent (hs.updated w)
  | opened name present ret w => cases hfile
  | written w ret => cases hfile
  | queued w => cases hfile
  | audioStart => cases hfile
  | audioStop => cases hfile

theorem run_stop (tape : Tape UInt8 UInt32) (stopIo : CloseFileIo) {rest : List Call}
    (hrest : ∀ call ∈ rest, NotStart call) :
    run (Tape.step maxDataSize)
        (Tape.step maxDataSize tape (input (.stop stopIo))) (rest.map input) =
      ⟨tape.takes, .stopped⟩ := by
  apply run_of_stopped
  intro i hi
  obtain ⟨call, hmem, rfl⟩ := List.mem_map.mp hi
  exact input_ne_start (hrest call hmem)

/-- A WAV file of a take, from which a reader gets its whole frames: all of it but
less than four bytes at the end. -/
structure Plays (f : File) (take : List UInt8) : Prop where
  wellFormed : WellFormed recordFileFormat f.bytes take
  decoded : ∃ hdr, decode f.bytes = some (hdr, wholeFrames 4 take)
  missed : take.length < (wholeFrames 4 take).length + 4

theorem plays_of_wellFormed {f : File} {take : List UInt8}
    (h : WellFormed recordFileFormat f.bytes take) : Plays f take := by
  refine ⟨h, h.decode_eq, ?_⟩
  rw [length_wholeFrames]
  omega

/-- After a recording has been stopped and the close thread has nothing left to do,
the files are WAV files; their data, one file after the other, are the bytes of the
blocks from the split point on, up to the stop, and of each of them a reader gets
the whole frames. -/
theorem recording_plays_back (card : Card) (settings : Option (List Char)) (io : InitIo)
    {before after rest : List Call} {bufferIo : BufferIo} {block : AudioBlock} {stopIo : CloseFileIo}
    (hcalls : Along step Succeeds (initial card settings io)
      (before ++ (.buffer bufferIo block :: after) ++ (.stop stopIo :: rest)))
    (hwaiting : (run step (initial card settings io) before).data.state = .waitingStart)
    (hcreated : (run step (initial card settings io) before).fs.files.length <
      (run step (initial card settings io) (before ++ [.buffer bufferIo block])).fs.files.length)
    (hafter : ∀ call ∈ after, Continues call) (hrest : ∀ call ∈ rest, NotStart call)
    (hdrained : (run step (initial card settings io)
      (before ++ (.buffer bufferIo block :: after) ++ (.stop stopIo :: rest))).closeQueue = []) :
    let s := run step (initial card settings io) before
    let t := run step (initial card settings io)
      (before ++ (.buffer bufferIo block :: after) ++ (.stop stopIo :: rest))
    ∃ takes, List.Forall₂ Plays (t.fs.files.drop s.fs.files.length) takes ∧
      takes.flatten = block.buf.drop (firstOffset s.data block) ++ after.flatMap received := by
  intro s t
  have hfails : Along step NoFailure (initial card settings io)
      (before ++ (.buffer bufferIo block :: after) ++ (.stop stopIo :: rest)) :=
    along_of_invariant (P := fun _ => True) (fun _ _ _ _ => trivial) (fun _ _ _ h => h.1) trivial
      hcalls
  have hplay := playable_run card settings io hcalls
  have hruns := (along_append step NoFailure _ _ _).mp hfails
  obtain ⟨hbefore, hbuffer, -⟩ := (along_append step NoFailure _ _ _).mp hruns.1
  have hs : Refines s _ := refines_run card settings io hbefore
  generalize run (Tape.step maxDataSize) ⟨[], .stopped⟩ (before.map input) = tape at hs
  have htape := eq_waitingStart_of_state hs hwaiting
  rw [htape] at hs
  have hcut := cutAt_of_created hs hbuffer (by
    rw [run_append] at hcreated
    exact hcreated)
  have ht : Refines t (run (Tape.step maxDataSize)
      ⟨tape.done, .waitingStart s.data.startTime⟩
        ((.buffer bufferIo block :: after ++ .stop stopIo :: rest).map input)) := by
    have hrun : t = run step s (.buffer bufferIo block :: after ++ .stop stopIo :: rest) := by
      rw [← run_append, ← List.append_assoc]
    rw [hrun]
    rw [List.append_assoc] at hfails
    exact simulation_run refines_step hs ((along_append step NoFailure _ _ _).mp hfails).2
  rw [List.map_append, run_append, List.map_cons, run_cons, List.map_cons, run_cons] at ht
  rw [run_stop _ _ hrest] at ht
  simp only [input, Tape.step, Tape.block, hcut] at ht
  have hlen : s.fs.files.length = tape.done.length := by
    rw [← List.length_map (f := dataOf), hs.holds.files]
    simp [Phase.current]
  have hwell := wellFormed_of_drained ht.holds hplay hdrained
  refine ⟨(t.fs.files.drop s.fs.files.length).map dataOf, ?_, ?_⟩
  · rw [List.forall₂_map_right_iff, List.forall₂_same]
    exact fun f hf => plays_of_wellFormed (hwell f (List.mem_of_mem_drop hf))
  · rw [List.map_drop, ht.takes.trans (List.append_nil _), hlen,
      flatten_drop_takes_run maxDataSize rfl, flatMap_input_symbols]
    intro i hi
    obtain ⟨call, hmem, rfl⟩ := List.mem_map.mp hi
    exact input_continues (hafter call hmem)

theorem two_blocks_play_back :
    let s := run step (initial emptyCard none {}) [.start 0 50]
    let t := run step (initial emptyCard none {})
      ([.start 0 50] ++ (.buffer {} shortBlock :: [.buffer {} shortBlock]) ++
        (.stop {} :: [.closeThread {}]))
    ∃ takes, List.Forall₂ Plays (t.fs.files.drop s.fs.files.length) takes ∧
      takes.flatten = shortBlock.buf.drop (firstOffset s.data shortBlock) ++
        [Call.buffer {} shortBlock].flatMap received := by
  have hnone : ∀ close ∈ ([] : List WavCloseIo), Closes close :=
    fun _ h => absurd h List.not_mem_nil
  have hfile : ClosesFile {} := ⟨hnone, ⟨.ok, rfl⟩, rfl⟩
  have hblock (s : Recorder) : Succeeds s (.buffer {} shortBlock) :=
    ⟨⟨rfl, rfl, ⟨rfl, fun _ _ => rfl⟩, rfl, by decide⟩,
      ⟨hnone, hnone, hfile, hnone, hnone, hfile⟩⟩
  refine recording_plays_back emptyCard none {} ⟨⟨trivial, trivial⟩, hblock _, hblock _, ⟨trivial, hfile⟩,
    ⟨trivial, .ok, rfl⟩, trivial⟩ rfl (by decide) ?_ ?_ rfl
  · intro call hcall
    rw [List.mem_singleton.mp hcall]
    trivial
  · intro call hcall
    rw [List.mem_singleton.mp hcall]
    exact nofun

end ZeusLe.RecordPlayback
