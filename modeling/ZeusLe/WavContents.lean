import ZeusLe.Library.Riff
import ZeusLe.Library.Run
import ZeusLe.Record

/-! What a recording contains when it has been closed. -/

namespace ZeusLe.WavContents

open ZeusLe.FileSystem
open ZeusLe.Library.LittleEndian
open ZeusLe.Library.Riff
open ZeusLe.Library.Run
open ZeusLe.Library.Word
open ZeusLe.Record
open ZeusLe.WavFile

/-- A recording with the bytes that its writes have accepted so far. -/
structure Recording where
  w : Wav
  fs : Fs
  accepted : List UInt8

inductive WavCall where
  | write (buf : List UInt8) (hbuf : buf.length < 2 ^ 32)
  | updateSize

/-- The call `wav_write(w, buf, len)` for a buffer of `len` bytes. -/
def writeBuf (s : Recording) (buf : List UInt8) : Int × Wav × Fs :=
  wavWrite .ok s.w buf (UInt32.ofNat buf.length) s.fs

def wavStep (s : Recording) : WavCall → Recording
  | .write buf _ =>
      let (ret, w, fs) := writeBuf s buf
      ⟨w, fs, s.accepted ++ buf.take ret.toNat⟩
  | .updateSize => { s with fs := (wavUpdateSize {} s.w s.fs).2 }

/-- `fs_write` reports how many bytes it wrote, not an error. -/
def Succeeds (s : Recording) : WavCall → Prop
  | .write buf _ => 0 ≤ (writeBuf s buf).1
  | .updateSize => True

/-- `wav_open` in a file system with other files. -/
def openRecording (slot : Nat) (w : Wav) (name : Path) (fs : Fs) : Recording :=
  let (_, w, fs) := wavOpen { slot := slot } w name recordFileFormat fs
  ⟨w, fs, []⟩

def recordHeader (riffSize dataSize : UInt32) : Header where
  riffSize := riffSize
  channels := 2
  sampleRate := 48000
  byteRate := 192000
  blockAlign := 4
  bitsPerSample := 16
  dataSize := dataSize

/-- What is between the two size fields. -/
def formatFields : List UInt8 :=
  waveTag ++ formatTag ++ putLe16 2 ++ putLe32 48000 ++ putLe32 192000 ++ putLe16 4 ++ putLe16 16 ++
    dataTag

theorem encode_recordHeader (riffSize dataSize : UInt32) :
    encode (recordHeader riffSize dataSize) =
      riffTag ++ putLe32 riffSize ++ formatFields ++ putLe32 dataSize := by
  simp only [encode, recordHeader, formatFields, List.append_assoc]

theorem splice_field (front field value back : List UInt8) (h : field.length = value.length) :
    splice (front ++ field ++ back) front.length value = front ++ value ++ back := by
  have htake : (front ++ field ++ back).take front.length = front := by
    rw [List.append_assoc, List.take_left]
  have hdrop : (front ++ field ++ back).drop (front.length + field.length) = back :=
    List.drop_left' (by rw [List.length_append])
  rw [splice, ← h, htake, hdrop]

/-- `wav_update_size` on the file. -/
def setSizes (dataSize : UInt32) (f : File) : File :=
  let bytes := splice f.bytes wavChunkSizeOffset (putLe32 (dataSize + wavHeaderSize - 8))
  let bytes := splice bytes wavSubchunk2SizeOffset (putLe32 dataSize)
  ⟨f.path, bytes, bytes.length⟩

theorem setSizes_encode (name : Path) (riffSize dataSize size : UInt32) (data : List UInt8)
    (pos : Nat) :
    setSizes size ⟨name, encode (recordHeader riffSize dataSize) ++ data, pos⟩ =
      ⟨name, encode (recordHeader (size + wavHeaderSize - 8) size) ++ data, 44 + data.length⟩ := by
  have hbytes : splice
      (splice (encode (recordHeader riffSize dataSize) ++ data) wavChunkSizeOffset
        (putLe32 (size + wavHeaderSize - 8)))
      wavSubchunk2SizeOffset (putLe32 size) =
      encode (recordHeader (size + wavHeaderSize - 8) size) ++ data := by
    have hchunk := splice_field riffTag (putLe32 riffSize) (putLe32 (size + wavHeaderSize - 8))
      (formatFields ++ putLe32 dataSize ++ data) rfl
    have hsubchunk := splice_field (riffTag ++ putLe32 (size + wavHeaderSize - 8) ++ formatFields)
      (putLe32 dataSize) (putLe32 size) data rfl
    simp only [encode_recordHeader, List.append_assoc] at hchunk hsubchunk ⊢
    rw [show wavChunkSizeOffset = riffTag.length from rfl, hchunk]
    exact hsubchunk
  simp only [setSizes, hbytes, List.length_append, length_encode]

theorem putSizeField_ok (h offset : Nat) (size : UInt32) (fs : Fs) :
    putSizeField .ok .ok (some h) offset size fs =
      (0, { fs with files := fs.files.modify h fun f =>
        ({ f with pos := offset } : File).store (putLe32 size) }) := by
  have hlen : (putLe32 size).length < 2 ^ 31 := by
    change 4 < 2 ^ 31
    decide
  simp only [putSizeField, fsSeek, lt_irrefl, if_false, wavWriteAll_ok hlen, List.modify_modify_eq]
  rfl

theorem wavUpdateSize_ok {w : Wav} {h : Nat} (hw : w.fp = some h) (fs : Fs) :
    wavUpdateSize {} w fs =
      (0, { fs with
        files := fs.files.modify h (setSizes (roundDown w.dataSize w.bytesPerFrame.toUInt32)) }) := by
  simp only [wavUpdateSize, hw, putSizeField_ok, lt_irrefl, if_false, fsSeek,
    List.modify_modify_eq]
  rfl

/-- The file at `h` consists of a header and the accepted bytes. -/
structure Recorded (h : Nat) (name : Path) (s : Recording) : Prop where
  w : s.w = { recordFileFormat.opened h with dataSize := UInt32.ofNat s.accepted.length }
  size : s.accepted.length ≤ maxDataSize
  file : ∃ riffSize dataSize, s.fs.files[h]? =
    some ⟨name, encode (recordHeader riffSize dataSize) ++ s.accepted, 44 + s.accepted.length⟩

theorem recorded_open (slot : Nat) (w : Wav) (name : Path) (fs : Fs) :
    Recorded fs.files.length name (openRecording slot w name fs) := by
  have hio : ({ slot := slot } : WavOpenIo).Succeeds := ⟨rfl, fun _ _ => rfl⟩
  have hopen := wavOpen_ok hio recordFileFormat_accepted w name fs
  have hsession : openRecording slot w name fs =
      ⟨(wavOpen { slot := slot } w name recordFileFormat fs).2.1,
        (wavOpen { slot := slot } w name recordFileFormat fs).2.2, []⟩ := rfl
  rw [hsession, hopen]
  constructor
  · rfl
  · exact Nat.zero_le _
  · have hnew : recordFileFormat.newFile name =
        ⟨name, encode (recordHeader 2147483636 2147483600) ++ [], 44⟩ := rfl
    change ∃ riffSize dataSize, (fs.files ++ [recordFileFormat.newFile name])[fs.files.length]? =
      some ⟨name, encode (recordHeader riffSize dataSize) ++ [], 44⟩
    rw [List.getElem?_concat_length, hnew]
    exact ⟨_, _, rfl⟩

theorem Recorded.toNat_dataSize {h : Nat} {name : Path} {s : Recording} (hs : Recorded h name s) :
    s.w.dataSize.toNat = s.accepted.length := by
  rw [hs.w]
  exact UInt32.toNat_ofNat_of_lt' (Nat.lt_of_le_of_lt hs.size (by decide))

theorem writeLen_lt_of_succeeds {s : Recording} {h : Nat} (hw : s.w.fp = some h) {buf : List UInt8}
    (hret : 0 ≤ (writeBuf s buf).1) :
    (s.w.writeLen (UInt32.ofNat buf.length)).toNat < 2 ^ 31 := by
  by_contra hlarge
  have hneg : (s.w.writeLen (UInt32.ofNat buf.length)).toInt32 < 0 := by
    rw [toInt32_neg_iff]
    omega
  rw [Int32.lt_iff_toInt_lt, Int32.toInt_zero] at hneg
  simp only [writeBuf, wavWrite, hw, fsWrite, if_pos hneg] at hret
  omega

theorem toNat_writeLen_of_succeeds {s : Recording} {h : Nat} {name : Path}
    (hs : Recorded h name s) {buf : List UInt8} (hbuf : buf.length < 2 ^ 32)
    (hret : 0 ≤ (writeBuf s buf).1) :
    (s.w.writeLen (UInt32.ofNat buf.length)).toNat =
      min buf.length (maxDataSize - s.accepted.length) := by
  have hsize := hs.size
  have hlt := writeLen_lt_of_succeeds (congrArg Wav.fp hs.w) hret
  have hlen : (UInt32.ofNat buf.length).toNat = buf.length := UInt32.toNat_ofNat_of_lt' hbuf
  have hmax : s.w.maxDataSize.toNat = maxDataSize := by
    rw [hs.w]
    rfl
  have hdata := hs.toNat_dataSize
  simp only [maxDataSize] at hsize hmax ⊢
  rcases Nat.lt_or_ge (s.w.dataSize.toNat + (UInt32.ofNat buf.length).toNat) (2 ^ 32) with hsum | hsum
  · rw [Wav.toNat_writeLen (UInt32.le_iff_toNat_le.mpr (by omega)) hsum, hlen, hmax, hdata]
  · have hwrap : ¬ s.w.dataSize + UInt32.ofNat buf.length > s.w.maxDataSize := by
      rw [gt_iff_lt, UInt32.lt_iff_toNat_lt, UInt32.toNat_add]
      omega
    rw [Wav.writeLen, if_neg hwrap] at hlt
    omega

theorem recorded_write {s : Recording} {h : Nat} {name : Path} (hs : Recorded h name s)
    {buf : List UInt8} (hbuf : buf.length < 2 ^ 32) (hret : 0 ≤ (writeBuf s buf).1) :
    Recorded h name (wavStep s (.write buf hbuf)) := by
  have hfp : s.w.fp = some h := congrArg Wav.fp hs.w
  have hlen := toNat_writeLen_of_succeeds hs hbuf hret
  have hwrite := wavWrite_ok hfp (writeLen_lt_of_succeeds hfp hret) buf s.fs
  obtain ⟨riffSize, dataSize, hfile⟩ := hs.file
  have hsize := hs.size
  have hstep : wavStep s (.write buf hbuf) =
      ⟨(writeBuf s buf).2.1, (writeBuf s buf).2.2,
        s.accepted ++ buf.take (writeBuf s buf).1.toNat⟩ := rfl
  rw [hstep, writeBuf, hwrite]
  generalize hn : s.w.writeLen (UInt32.ofNat buf.length) = n at hlen
  have htake : (s.accepted ++ buf.take n.toNat).length = s.accepted.length + n.toNat := by
    rw [List.length_append, List.length_take]
    omega
  constructor
  · simp only [Int.toNat_natCast, htake, hs.w, UInt32.ofNat_add, UInt32.ofNat_toNat]
  · simp only [Int.toNat_natCast, htake]
    omega
  · refine ⟨riffSize, dataSize, ?_⟩
    simp only [Int.toNat_natCast, List.getElem?_modify_eq, hfile, Option.map_eq_map,
      Option.map_some, htake]
    rw [File.store_eq_append (by rw [List.length_append, length_encode])]
    simp only [File.append, List.length_append, length_encode, List.append_assoc, List.length_take]
    congr 2
    omega

theorem recorded_updateSize {s : Recording} {h : Nat} {name : Path} (hs : Recorded h name s) :
    Recorded h name (wavStep s .updateSize) := by
  have hupdate := wavUpdateSize_ok (congrArg Wav.fp hs.w) s.fs
  obtain ⟨riffSize, dataSize, hfile⟩ := hs.file
  have hstep : wavStep s .updateSize = { s with fs := (wavUpdateSize {} s.w s.fs).2 } := rfl
  rw [hstep, hupdate]
  constructor
  · exact hs.w
  · exact hs.size
  · let size := roundDown s.w.dataSize s.w.bytesPerFrame.toUInt32
    refine ⟨size + wavHeaderSize - 8, size, ?_⟩
    change (s.fs.files.modify h _)[h]? = _
    rw [List.getElem?_modify_eq, hfile, Option.map_eq_map, Option.map_some, setSizes_encode]

theorem recorded_step {h : Nat} {name : Path} (s : Recording) (call : WavCall)
    (hs : Recorded h name s) (hcall : Succeeds s call) : Recorded h name (wavStep s call) := by
  cases call with
  | write buf hbuf => exact recorded_write hs hbuf hcall
  | updateSize => exact recorded_updateSize hs

theorem recorded_run (slot : Nat) (w : Wav) (name : Path) (fs : Fs) {calls : List WavCall}
    (hcalls : Along wavStep Succeeds (openRecording slot w name fs) calls) :
    Recorded fs.files.length name (run wavStep (openRecording slot w name fs) calls) :=
  invariant_run recorded_step (recorded_open slot w name fs) hcalls

theorem wavClose_ok {s : Recording} {h : Nat} (hw : s.w.fp = some h) :
    wavClose {} s.w s.fs = wavUpdateSize {} s.w s.fs := by
  rw [wavClose, wavUpdateSize_ok hw, hw]
  rfl

theorem toNat_wholeFrames {s : Recording} {h : Nat} {name : Path} (hs : Recorded h name s) :
    (roundDown s.w.dataSize s.w.bytesPerFrame.toUInt32).toNat = s.accepted.length / 4 * 4 := by
  have hsize := hs.size
  have hframe : s.w.bytesPerFrame.toUInt32.toNat = 4 := by
    rw [hs.w]
    rfl
  have hdata := hs.toNat_dataSize
  simp only [maxDataSize] at hsize
  simp only [roundDown, UInt32.toNat_mul, UInt32.toNat_div, hframe, hdata]
  omega

theorem Recorded.closed {s : Recording} {h : Nat} {name : Path} (hs : Recorded h name s) :
    (wavClose {} s.w s.fs).1 = 0 ∧
      (wavClose {} s.w s.fs).2.files[h]? = some
        ⟨name, encode (recordHeader
            (roundDown s.w.dataSize s.w.bytesPerFrame.toUInt32 + wavHeaderSize - 8)
            (roundDown s.w.dataSize s.w.bytesPerFrame.toUInt32)) ++ s.accepted,
          44 + s.accepted.length⟩ := by
  have hfp : s.w.fp = some h := congrArg Wav.fp hs.w
  obtain ⟨riffSize, dataSize, hfile⟩ := hs.file
  rw [wavClose_ok hfp, wavUpdateSize_ok hfp]
  constructor
  · rfl
  · change (List.modify _ _ _)[h]? = _
    rw [List.getElem?_modify_eq, hfile, Option.map_eq_map, Option.map_some, setSizes_encode]

theorem describes_recordHeader {size : UInt32} {data : List UInt8}
    (hsize : size.toNat = data.length / 4 * 4) (hdata : data.length ≤ maxDataSize) :
    Describes (recordHeader (size + wavHeaderSize - 8) size) data := by
  constructor
  · change UInt16.toNat 4 = UInt16.toNat 2 * (UInt16.toNat 16 / 8)
    decide
  · change UInt32.toNat 192000 = UInt32.toNat 48000 * UInt16.toNat 4
    decide
  · exact hsize
  · simp only [maxDataSize] at hdata
    change (size + 44 - 8).toNat = 36 + size.toNat
    have hadd : (size + 44).toNat = size.toNat + 44 := by
      rw [UInt32.toNat_add]
      exact Nat.mod_eq_of_lt (by
        change size.toNat + 44 < 2 ^ 32
        omega)
    rw [UInt32.toNat_sub_of_le _ _ (UInt32.le_iff_toNat_le.mpr (by
      change 8 ≤ _
      omega)), hadd]
    change size.toNat + 44 - 8 = _
    omega

/-- A WAV file of a format with the samples `data`. -/
def WellFormed (fmt : WavFormat) (bytes data : List UInt8) : Prop :=
  ∃ hdr, bytes = encode hdr ++ data ∧ decodeHeader bytes = some (hdr, data) ∧
    hdr.channels = fmt.channels ∧ hdr.sampleRate = fmt.sampleRate ∧
    hdr.bitsPerSample = fmt.bitsPerSample ∧ Describes hdr data ∧
    bytes.length ≤ fmt.maxFileSize.toNat

theorem wellFormed_encode {size : UInt32} {data : List UInt8}
    (hsize : size.toNat = data.length / 4 * 4) (hdata : data.length ≤ maxDataSize) :
    WellFormed recordFileFormat
      (encode (recordHeader (size + wavHeaderSize - 8) size) ++ data) data := by
  refine ⟨_, rfl, decodeHeader_encode _ _, rfl, rfl, rfl, describes_recordHeader hsize hdata, ?_⟩
  rw [List.length_append, length_encode]
  change 44 + data.length ≤ 2147483647
  simp only [maxDataSize] at hdata
  omega

theorem WellFormed.decode_eq {bytes data : List UInt8}
    (h : WellFormed recordFileFormat bytes data) :
    ∃ hdr, decode bytes = some (hdr, wholeFrames 4 data) := by
  obtain ⟨hdr, rfl, -, hchannels, -, hbits, hdescribes, -⟩ := h
  have hframe : hdr.blockAlign.toNat = 4 := by
    rw [hdescribes.blockAlign, hchannels, hbits]
    rfl
  exact ⟨hdr, hframe ▸ hdescribes.decode_encode⟩

/-- What `wav_close` returns and leaves after the calls. -/
def closeRecording (slot : Nat) (w : Wav) (name : Path) (fs : Fs) (calls : List WavCall) :
    Int × Fs :=
  let s := run wavStep (openRecording slot w name fs) calls
  wavClose {} s.w s.fs

/-- After any calls a recording that is closed is a WAV file of the accepted
bytes. -/
theorem closeRecording_wellFormed (slot : Nat) (w : Wav) (name : Path) (fs : Fs)
    (calls : List WavCall)
    (hcalls : Along wavStep Succeeds (openRecording slot w name fs) calls) :
    (closeRecording slot w name fs calls).1 = 0 ∧
      ∃ f, (closeRecording slot w name fs calls).2.files[fs.files.length]? = some f ∧
        f.path = name ∧
        WellFormed recordFileFormat f.bytes
          (run wavStep (openRecording slot w name fs) calls).accepted := by
  have hs := recorded_run slot w name fs hcalls
  obtain ⟨hret, hfile⟩ := hs.closed
  refine ⟨hret, _, hfile, rfl, ?_⟩
  exact wellFormed_encode (toNat_wholeFrames hs) hs.size

/-- A frame and a half in two writes, the size brought up to date in between. -/
def frameAndHalf : List WavCall :=
  [.write [1, 2, 3, 4, 5] (by decide), .updateSize, .write [6] (by decide)]

theorem closeRecording_frameAndHalf :
    ∃ f, (closeRecording 0 Wav.zero [] ⟨emptyCard, []⟩ frameAndHalf).2.files[0]? = some f ∧
      f.path = [] ∧ WellFormed recordFileFormat f.bytes [1, 2, 3, 4, 5, 6] := by
  have hcalls : Along wavStep Succeeds (openRecording 0 Wav.zero [] ⟨emptyCard, []⟩) frameAndHalf := by
    refine ⟨?_, trivial, ?_, trivial⟩
    · change 0 ≤ (writeBuf _ _).1
      decide
    · change 0 ≤ (writeBuf _ _).1
      decide
  exact (closeRecording_wellFormed 0 Wav.zero [] ⟨emptyCard, []⟩ frameAndHalf hcalls).2

end ZeusLe.WavContents
