import ZeusLe.FileSystem
import ZeusLe.Library.LittleEndian

/-! The WAV writer, `wav.c`. -/

namespace ZeusLe.WavFile

open ZeusLe.FileSystem
open ZeusLe.Library.LittleEndian
open ZeusLe.Library.Word

def wavHeaderSize : UInt32 := 44
def wavChunkSizeOffset : Nat := 4
def wavSubchunk2SizeOffset : Nat := 40

structure WavFormat where
  channels : UInt16
  sampleRate : UInt32
  bitsPerSample : UInt16
  maxFileSize : UInt32
  deriving DecidableEq, Repr

structure Wav where
  fp : FsFile
  bytesPerFrame : UInt16
  maxDataSize : UInt32
  dataSize : UInt32
  deriving DecidableEq, Repr

def Wav.zero : Wav := ⟨none, 0, 0, 0⟩

def wavWriteAll (o : Outcome) (fp : FsFile) (buf : List UInt8) (fs : Fs) : Int × Fs :=
  let len := UInt32.ofNat buf.length
  let (ret, errno, fs) := fsWrite o fp buf len fs
  if ret < 0 then (ret, fs)
  else if ret ≠ len.toNat then
    -- `errno` is sometimes zero; the code then assumes that no space is left
    (-(if errno = 0 then enospc else errno), fs)
  else (0, fs)

def WavFormat.bytesPerSample (fmt : WavFormat) : UInt16 :=
  UInt16.ofNat ((fmt.bitsPerSample.toNat + 7) / 8)

/-- The frame size, cut to 16 bits by the assignment. -/
def WavFormat.bytesPerFrame (fmt : WavFormat) : UInt16 :=
  fmt.channels * fmt.bytesPerSample

/-- The fields that `wav_write_header` writes, in order. -/
def headerFields (w : Wav) (fmt : WavFormat) : List (List UInt8) :=
  [ [0x52, 0x49, 0x46, 0x46] -- "RIFF"
  , putLe32 (w.maxDataSize + wavHeaderSize - 8)
  , [0x57, 0x41, 0x56, 0x45] -- "WAVE"
  , [0x66, 0x6d, 0x74, 0x20] -- "fmt "
  , putLe32 16
  , putLe16 1 -- PCM
  , putLe16 fmt.channels
  , putLe32 fmt.sampleRate
  , putLe32 (fmt.sampleRate * w.bytesPerFrame.toUInt32)
  , putLe16 w.bytesPerFrame
  , putLe16 fmt.bitsPerSample
  , [0x64, 0x61, 0x74, 0x61] -- "data"
  , putLe32 w.maxDataSize ]

/-- Write the fields one after the other and stop at the first failure. -/
def writeFields (io : Nat → Outcome) (fp : FsFile) : Nat → List (List UInt8) → Fs → Int × Fs
  | _, [], fs => (0, fs)
  | k, field :: fields, fs =>
      let (ret, fs) := wavWriteAll (io k) fp field fs
      if ret < 0 then (ret, fs) else writeFields io fp (k + 1) fields fs

def wavWriteHeader (io : Nat → Outcome) (w : Wav) (fmt : WavFormat) (fs : Fs) :
    Int × Wav × Fs :=
  let w := { w with
    bytesPerFrame := fmt.bytesPerFrame
    maxDataSize := roundDown (fmt.maxFileSize - wavHeaderSize) fmt.bytesPerFrame.toUInt32
    dataSize := 0 }
  let (ret, fs) := writeFields io w.fp 0 (headerFields w fmt) fs
  (ret, w, fs)

/-- Environment of one `wav_open`: the outcomes of its calls, in particular of
the `k`-th header write, and the directory slot of a new name. -/
structure WavOpenIo where
  fsOpen : Outcome := .ok
  slot : Nat := 0
  header : Nat → Outcome := fun _ => .ok
  fsClose : Outcome := .ok

def wavOpen (io : WavOpenIo) (w : Wav) (name : Path) (fmt : WavFormat) (fs : Fs) :
    Int × Wav × Fs :=
  if fmt.channels = 0 then (-einval, w, fs)
  else if fmt.sampleRate = 0 then (-einval, w, fs)
  else if fmt.bitsPerSample = 0 then (-einval, w, fs)
  else if fmt.maxFileSize < wavHeaderSize then (-einval, w, fs)
  else
    let (ret, fp, fs) := FileSystem.fsOpen io.fsOpen io.slot name fs
    let w := { Wav.zero with fp := fp }
    if ret < 0 then (ret, w, fs)
    else
      let (ret, w, fs) := wavWriteHeader io.header w fmt fs
      if ret < 0 then
        let (_, fp) := FileSystem.fsClose io.fsClose w.fp
        (ret, { w with fp := fp }, fs)
      else (0, w, fs)

/-- The length that `wav_write` writes: what is left up to the limit, if the
data would exceed it. -/
def Wav.writeLen (w : Wav) (len : UInt32) : UInt32 :=
  if w.dataSize + len > w.maxDataSize then w.maxDataSize - w.dataSize else len

def wavWrite (o : Outcome) (w : Wav) (buf : List UInt8) (len : UInt32) (fs : Fs) :
    Int × Wav × Fs :=
  let len := w.writeLen len
  let (ret, errno, fs) := fsWrite o w.fp buf len fs
  if ret < 0 then (ret, w, fs)
  else if ret ≠ len.toNat then
    (-(if errno = 0 then enospc else errno),
      { w with dataSize := w.dataSize + UInt32.ofInt ret }, fs)
  else (ret, { w with dataSize := w.dataSize + len }, fs)

/-- Environment of one `wav_update_size` and the `fs_close` after it. -/
structure WavCloseIo where
  seekChunk : Outcome := .ok
  writeChunk : Outcome := .ok
  seekSubchunk2 : Outcome := .ok
  writeSubchunk2 : Outcome := .ok
  seekEnd : Outcome := .ok
  fsClose : Outcome := .ok

/-- `fs_seek` to a size field and `wav_write_u32` of its value. -/
def putSizeField (seek write : Outcome) (fp : FsFile) (offset : Nat) (size : UInt32) (fs : Fs) :
    Int × Fs :=
  let (ret, fs) := fsSeek seek fp (.set offset) fs
  if ret < 0 then (ret, fs) else wavWriteAll write fp (putLe32 size) fs

def wavUpdateSize (io : WavCloseIo) (w : Wav) (fs : Fs) : Int × Fs :=
  let dataSize := roundDown w.dataSize w.bytesPerFrame.toUInt32
  let (ret, fs) := putSizeField io.seekChunk io.writeChunk w.fp wavChunkSizeOffset
    (dataSize + wavHeaderSize - 8) fs
  if ret < 0 then (ret, fs)
  else
    let (ret, fs) := putSizeField io.seekSubchunk2 io.writeSubchunk2 w.fp
      wavSubchunk2SizeOffset dataSize fs
    if ret < 0 then (ret, fs)
    else
      let (ret, fs) := fsSeek io.seekEnd w.fp .toEnd fs
      if ret < 0 then (ret, fs) else (0, fs)

def wavClose (io : WavCloseIo) (w : Wav) (fs : Fs) : Int × Fs :=
  let (ret, fs) := wavUpdateSize io w fs
  let (retClose, _) := FileSystem.fsClose io.fsClose w.fp
  (if ret = 0 then retClose else ret, fs)

def wavCloseNoUpdate (o : Outcome) (w : Wav) : Int × Wav :=
  let (ret, fp) := FileSystem.fsClose o w.fp
  (ret, { w with fp := fp })

theorem wavWriteAll_ok {buf : List UInt8} (hbuf : buf.length < 2 ^ 31) (h : Nat) (fs : Fs) :
    wavWriteAll .ok (some h) buf fs =
      (0, { fs with files := fs.files.modify h fun f => f.store buf }) := by
  have hlen : (UInt32.ofNat buf.length).toNat = buf.length := by
    simp only [UInt32.toNat_ofNat']
    exact Nat.mod_eq_of_lt (by omega)
  simp only [wavWriteAll, fsWrite_ok (hlen.symm ▸ hbuf), hlen, List.take_length]
  rw [if_neg (by omega), if_neg (by simp)]

theorem writeFields_ok {io : Nat → Outcome} {k : Nat} {fields : List (List UInt8)}
    (hio : ∀ j, k ≤ j → j < k + fields.length → io j = .ok)
    (hfields : ∀ field ∈ fields, field.length < 2 ^ 31)
    (card : Card) (init : List File) {f : File} (hpos : f.pos = f.bytes.length) :
    writeFields io (some init.length) k fields ⟨card, init ++ [f]⟩ =
      (0, ⟨card, init ++ [f.append fields.flatten]⟩) := by
  induction fields generalizing k f with
  | nil => simp [writeFields, File.append, ← hpos]
  | cons field fields ih =>
      have hk : io k = .ok := hio k le_rfl (by simp)
      have hfield : field.length < 2 ^ 31 := hfields field (by simp)
      simp only [writeFields, hk, wavWriteAll_ok hfield, modify_last]
      rw [if_neg (by omega), File.store_eq_append hpos,
        ih (fun j hj hlt => hio j (by omega) (by simp only [List.length_cons]; omega))
          (fun field' hmem => hfields field' (by simp [hmem]))
          (by simp [File.append])]
      simp only [File.append, List.flatten_cons, List.append_assoc, List.length_append]
      congr 5
      omega

def WavOpenIo.Succeeds (io : WavOpenIo) : Prop :=
  io.fsOpen = .ok ∧ ∀ k < 13, io.header k = .ok

def WavFormat.Accepted (fmt : WavFormat) : Prop :=
  fmt.channels ≠ 0 ∧ fmt.sampleRate ≠ 0 ∧ fmt.bitsPerSample ≠ 0 ∧
    wavHeaderSize ≤ fmt.maxFileSize

/-- The struct that a successful `wav_open` leaves for the handle `h`. -/
def WavFormat.opened (fmt : WavFormat) (h : Nat) : Wav where
  fp := some h
  bytesPerFrame := fmt.bytesPerFrame
  maxDataSize := roundDown (fmt.maxFileSize - wavHeaderSize) fmt.bytesPerFrame.toUInt32
  dataSize := 0

def WavFormat.newFile (fmt : WavFormat) (name : Path) : File where
  path := name
  bytes := (headerFields (fmt.opened 0) fmt).flatten
  pos := wavHeaderSize.toNat

theorem WavFormat.length_newFile (fmt : WavFormat) (name : Path) :
    (fmt.newFile name).bytes.length = wavHeaderSize.toNat := by
  rfl

theorem wavWriteHeader_ok {io : Nat → Outcome} (hio : ∀ k < 13, io k = .ok)
    (fmt : WavFormat) (card : Card) (init : List File) {f : File}
    (hpos : f.pos = f.bytes.length) :
    wavWriteHeader io { Wav.zero with fp := some init.length } fmt ⟨card, init ++ [f]⟩ =
      (0, fmt.opened init.length,
        ⟨card, init ++ [f.append (headerFields (fmt.opened 0) fmt).flatten]⟩) := by
  have hlen : ∀ field ∈ headerFields (fmt.opened 0) fmt, field.length < 2 ^ 31 := by
    simp [headerFields, putLe32, putLe16]
  have hfields := writeFields_ok (k := 0)
    (fun j _ hj => hio j (by simpa [headerFields] using hj)) hlen card init hpos
  simp only [wavWriteHeader]
  exact congrArg (fun r : Int × Fs => (r.1, fmt.opened init.length, r.2)) hfields

theorem wavOpen_ok {io : WavOpenIo} (hio : io.Succeeds) {fmt : WavFormat}
    (hfmt : fmt.Accepted) (w : Wav) (name : Path) (fs : Fs) :
    wavOpen io w name fmt fs = (0, fmt.opened fs.files.length,
      { card := (FileSystem.fsOpen .ok io.slot name fs).2.2.card
        files := fs.files ++ [fmt.newFile name] }) := by
  obtain ⟨hopen, hheader⟩ := hio
  obtain ⟨hchannels, hrate, hbits, hsize⟩ := hfmt
  have hopened : FileSystem.fsOpen .ok io.slot name fs = (0, some fs.files.length,
      ⟨(FileSystem.fsOpen .ok io.slot name fs).2.2.card, fs.files ++ [⟨name, [], 0⟩]⟩) := rfl
  have hwritten := wavWriteHeader_ok hheader fmt
    (FileSystem.fsOpen .ok io.slot name fs).2.2.card fs.files (f := ⟨name, [], 0⟩) rfl
  simp only [wavOpen, if_neg hchannels, if_neg hrate, if_neg hbits,
    if_neg (UInt32.not_lt.mpr hsize), hopen]
  rw [hopened]
  simp only [lt_irrefl, if_false, hwritten]
  rfl

theorem wavWrite_ok {w : Wav} {h : Nat} (hw : w.fp = some h) {len : UInt32}
    (hlen : (w.writeLen len).toNat < 2 ^ 31) (buf : List UInt8) (fs : Fs) :
    wavWrite .ok w buf len fs = (((w.writeLen len).toNat : Int),
      { w with dataSize := w.dataSize + w.writeLen len },
      { fs with files := fs.files.modify h fun f =>
          f.store (buf.take (w.writeLen len).toNat) }) := by
  simp only [wavWrite, hw, fsWrite_ok hlen]
  rw [if_neg (by omega), if_neg (by simp)]

theorem Wav.toNat_writeLen {w : Wav} {len : UInt32} (hsize : w.dataSize ≤ w.maxDataSize)
    (hsum : w.dataSize.toNat + len.toNat < 2 ^ 32) :
    (w.writeLen len).toNat = min len.toNat (w.maxDataSize.toNat - w.dataSize.toNat) := by
  have hadd : (w.dataSize + len).toNat = w.dataSize.toNat + len.toNat := by
    rw [UInt32.toNat_add]
    exact Nat.mod_eq_of_lt hsum
  simp only [Wav.writeLen, gt_iff_lt, UInt32.lt_iff_toNat_lt, hadd]
  split
  · rw [UInt32.toNat_sub_of_le _ _ hsize]
    omega
  · omega

/-- The bytes of a file behind the header. -/
def dataOf (f : File) : List UInt8 :=
  f.bytes.drop wavHeaderSize.toNat

theorem dataOf_append {f : File} (hheader : wavHeaderSize.toNat ≤ f.bytes.length)
    (bytes : List UInt8) : dataOf (f.append bytes) = dataOf f ++ bytes := by
  simp only [dataOf, File.append]
  exact List.drop_append_of_le_length hheader

theorem dataOf_store_iff {f : File} (hheader : wavHeaderSize.toNat ≤ f.bytes.length)
    (hpos : f.pos ≤ f.bytes.length) (bytes : List UInt8) :
    dataOf (f.store bytes) = dataOf f ++ bytes ↔ bytes = [] ∨ f.pos = f.bytes.length := by
  constructor
  · intro hdata
    have hlen := congrArg List.length hdata
    simp only [dataOf, File.store, splice, List.length_append, List.length_drop, List.length_take]
      at hlen
    rcases Nat.eq_zero_or_pos bytes.length with hzero | hsome
    · exact Or.inl (List.eq_nil_of_length_eq_zero hzero)
    · exact Or.inr (by omega)
  · rintro (rfl | hend)
    · simp [dataOf, File.store, splice]
    · rw [File.store_eq_append hend, dataOf_append hheader]

theorem wavWriteAll_fs (o : Outcome) (h : Nat) (buf : List UInt8) (hbuf : buf.length < 2 ^ 31)
    (fs : Fs) :
    (wavWriteAll o (some h) buf fs).2 =
      { fs with files := fs.files.modify h fun f => f.store (buf.take (o.stored buf.length)) } := by
  have hlen : (UInt32.ofNat buf.length).toNat = buf.length := by
    simp only [UInt32.toNat_ofNat']
    exact Nat.mod_eq_of_lt (by omega)
  have hfs := fsWrite_fs o h buf (UInt32.ofNat buf.length) fs
  rw [hlen] at hfs
  rw [← hfs]
  simp only [wavWriteAll]
  split
  · rfl
  · split <;> rfl

theorem wavWriteAll_neg_iff (o : Outcome) (h : Nat) (buf : List UInt8)
    (hbuf : buf.length < 2 ^ 31) (fs : Fs) :
    (wavWriteAll o (some h) buf fs).1 < 0 ↔ o.completes buf.length = false := by
  have hlen : (UInt32.ofNat buf.length).toNat = buf.length := by
    simp only [UInt32.toNat_ofNat']
    exact Nat.mod_eq_of_lt (by omega)
  cases o with
  | ok =>
      rw [wavWriteAll_ok hbuf]
      simp [Outcome.completes]
  | err n code =>
      have hneg : (Outcome.err n code).code < 0 := Outcome.code_neg (by simp)
      simp [wavWriteAll, fsWrite, Outcome.completes, hneg]
  | short n errno =>
      simp only [wavWriteAll, fsWrite, hlen, Outcome.completes, decide_eq_false_iff_not]
      rw [if_neg (by omega)]
      split
      · have hpos : 0 < (if errno = 0 then enospc else (errno : Int)) := by
          split
          · decide
          · omega
        simp only
        omega
      · simp only
        omega

theorem wavWrite_fs (o : Outcome) {w : Wav} {h : Nat} (hw : w.fp = some h)
    (buf : List UInt8) (len : UInt32) (fs : Fs) :
    (wavWrite o w buf len fs).2.2 =
      { fs with files := fs.files.modify h fun f =>
          f.store (buf.take (o.stored (w.writeLen len).toNat)) } := by
  simp only [wavWrite, hw]
  rw [← fsWrite_fs]
  split
  · rfl
  · split <;> rfl

@[simp] theorem wavWrite_fp (o : Outcome) (w : Wav) (buf : List UInt8) (len : UInt32) (fs : Fs) :
    (wavWrite o w buf len fs).2.1.fp = w.fp := by
  simp only [wavWrite]
  split
  · rfl
  · split <;> rfl

@[simp] theorem wavWrite_bytesPerFrame (o : Outcome) (w : Wav) (buf : List UInt8)
    (len : UInt32) (fs : Fs) :
    (wavWrite o w buf len fs).2.1.bytesPerFrame = w.bytesPerFrame := by
  simp only [wavWrite]
  split
  · rfl
  · split <;> rfl

theorem writeFields_of_ret (io : Nat → Outcome) (k : Nat) {fields : List (List UInt8)}
    (hfields : ∀ field ∈ fields, field.length < 2 ^ 31)
    (card : Card) (init : List File) {f : File} (hpos : f.pos = f.bytes.length)
    (hret : ¬ (writeFields io (some init.length) k fields ⟨card, init ++ [f]⟩).1 < 0) :
    writeFields io (some init.length) k fields ⟨card, init ++ [f]⟩ =
      (0, ⟨card, init ++ [f.append fields.flatten]⟩) := by
  induction fields generalizing k f with
  | nil => simp [writeFields, File.append, ← hpos]
  | cons field fields ih =>
      have hfield : field.length < 2 ^ 31 := hfields field (by simp)
      have hneg := wavWriteAll_neg_iff (io k) init.length field hfield ⟨card, init ++ [f]⟩
      have hfs := wavWriteAll_fs (io k) init.length field hfield ⟨card, init ++ [f]⟩
      rcases hwrite : wavWriteAll (io k) (some init.length) field ⟨card, init ++ [f]⟩
        with ⟨ret, after⟩
      rw [hwrite] at hneg hfs
      simp only [writeFields, hwrite] at hret ⊢
      rcases Classical.em (ret < 0) with hfailed | hdone
      · rw [if_pos hfailed] at hret
        exact absurd hfailed hret
      · have hcompletes : (io k).completes field.length = true := by
          simpa using mt hneg.mpr hdone
        simp only at hfs
        rw [Outcome.stored_of_completes hcompletes, List.take_length, modify_last,
          File.store_eq_append hpos] at hfs
        rw [if_neg hdone, hfs] at hret ⊢
        rw [ih (k + 1) (fun field' hmem => hfields field' (by simp [hmem]))
          (by simp [File.append]) hret]
        simp only [File.append, List.flatten_cons, List.append_assoc, List.length_append]
        congr 5
        omega

/-- A change of a file that stays within the header. -/
structure HeaderEdit (g : File → File) : Prop where
  path : ∀ f, (g f).path = f.path
  length : ∀ f, wavHeaderSize.toNat ≤ f.bytes.length → (g f).bytes.length = f.bytes.length
  data : ∀ f, wavHeaderSize.toNat ≤ f.bytes.length → dataOf (g f) = dataOf f

theorem HeaderEdit.id : HeaderEdit fun f => f :=
  ⟨fun _ => rfl, fun _ _ => rfl, fun _ _ => rfl⟩

theorem HeaderEdit.comp {g₁ g₂ : File → File} (h₂ : HeaderEdit g₂) (h₁ : HeaderEdit g₁) :
    HeaderEdit (g₂ ∘ g₁) where
  path f := (h₂.path _).trans (h₁.path f)
  length f hf := by
    have hlen := h₁.length f hf
    exact (h₂.length _ (hlen ▸ hf)).trans hlen
  data f hf := by
    have hlen := h₁.length f hf
    exact (h₂.data _ (hlen ▸ hf)).trans (h₁.data f hf)

theorem HeaderEdit.seek (pos : File → Nat) : HeaderEdit fun f => { f with pos := pos f } :=
  ⟨fun _ => rfl, fun _ _ => rfl, fun _ _ => rfl⟩

theorem HeaderEdit.patch {offset : Nat} {field : List UInt8}
    (hfield : offset + field.length ≤ wavHeaderSize.toNat) :
    HeaderEdit fun f => ({ f with pos := offset } : File).store field where
  path _ := rfl
  length _ hf := splice_length (hfield.trans hf)
  data _ hf := drop_splice hfield hf

theorem putSizeField_neg_iff (seek write : Outcome) (h offset : Nat) (size : UInt32) (fs : Fs) :
    (putSizeField seek write (some h) offset size fs).1 < 0 ↔
      ¬ (seek = .ok ∧ write.completes 4 = true) := by
  rcases Classical.em (seek = .ok) with rfl | hseek
  · have hwritten := fun fs => wavWriteAll_neg_iff write h (putLe32 size) (by simp) fs
    simp only [putSizeField, fsSeek, lt_irrefl, if_false, hwritten, length_putLe32, true_and,
      Bool.not_eq_true]
  · simp only [putSizeField, fsSeek_of_ne_ok hseek, Outcome.code_neg hseek, if_true, hseek,
      false_and, not_false_eq_true]

/-- Where in a file a size field and the position behind it end up. -/
def sizeFieldEdit (seek write : Outcome) (offset : Nat) (size : UInt32) (f : File) : File :=
  if seek = .ok then
    ({ f with pos := offset } : File).store ((putLe32 size).take (write.stored 4))
  else f

theorem putSizeField_fs (seek write : Outcome) (h offset : Nat) (size : UInt32) (fs : Fs) :
    (putSizeField seek write (some h) offset size fs).2 =
      { fs with files := fs.files.modify h (sizeFieldEdit seek write offset size) } := by
  rcases Classical.em (seek = .ok) with rfl | hseek
  · have hwritten := fun fs => wavWriteAll_fs write h (putLe32 size) (by simp) fs
    simp only [putSizeField, fsSeek, lt_irrefl, if_false, hwritten, length_putLe32,
      List.modify_modify_eq]
    rfl
  · simp only [putSizeField, fsSeek_of_ne_ok hseek, Outcome.code_neg hseek, if_true]
    have hid : sizeFieldEdit seek write offset size = id := by
      funext f
      simp only [sizeFieldEdit, if_neg hseek, id_eq]
    rw [hid, List.modify_id]

theorem headerEdit_sizeField (seek write : Outcome) {offset : Nat}
    (hoffset : offset + 4 ≤ wavHeaderSize.toNat) (size : UInt32) :
    HeaderEdit (sizeFieldEdit seek write offset size) := by
  rcases Classical.em (seek = .ok) with hseek | hseek
  · have hlen : ((putLe32 size).take (write.stored 4)).length ≤ 4 :=
      List.length_take_le' _ (putLe32 size)
    have hedit : HeaderEdit fun f =>
        ({ f with pos := offset } : File).store ((putLe32 size).take (write.stored 4)) := by
      apply HeaderEdit.patch
      omega
    have heq : sizeFieldEdit seek write offset size = fun f =>
        ({ f with pos := offset } : File).store ((putLe32 size).take (write.stored 4)) := by
      funext f
      simp only [sizeFieldEdit, if_pos hseek]
    rw [heq]
    exact hedit
  · have hid : sizeFieldEdit seek write offset size = fun f => f := by
      funext f
      simp only [sizeFieldEdit, if_neg hseek]
    rw [hid]
    exact HeaderEdit.id

theorem sizeFieldEdit_pos (seek write : Outcome) (offset : Nat) (size : UInt32) (f : File) :
    (sizeFieldEdit seek write offset size f).pos =
      if seek = .ok then offset + write.stored 4 else f.pos := by
  have hlen : ((putLe32 size).take (write.stored 4)).length = write.stored 4 := by
    rw [List.length_take, length_putLe32]
    exact Nat.min_eq_left (write.stored_le 4)
  simp only [sizeFieldEdit]
  split
  · simp only [File.store, hlen]
  · rfl

/-- Where `wav_update_size` leaves the file position: `none` is the end of the
file, and a position is one in the header. `unmoved` is the one it began with. -/
def WavCloseIo.position (io : WavCloseIo) (unmoved : Option Nat) : Option Nat :=
  if io.seekChunk ≠ .ok then unmoved
  else if io.writeChunk.completes 4 = false then some (wavChunkSizeOffset + io.writeChunk.stored 4)
  else if io.seekSubchunk2 ≠ .ok then some (wavChunkSizeOffset + 4)
  else if io.writeSubchunk2.completes 4 = false then
    some (wavSubchunk2SizeOffset + io.writeSubchunk2.stored 4)
  else if io.seekEnd ≠ .ok then some wavHeaderSize.toNat
  else none

theorem putSizeField_spec (seek write : Outcome) (h offset : Nat) (size : UInt32) (fs : Fs) :
    ∃ ret, putSizeField seek write (some h) offset size fs =
        (ret, { fs with files := fs.files.modify h (sizeFieldEdit seek write offset size) }) ∧
      (ret < 0 ↔ ¬ (seek = .ok ∧ write.completes 4 = true)) :=
  ⟨_, Prod.ext rfl (putSizeField_fs seek write h offset size fs),
    putSizeField_neg_iff seek write h offset size fs⟩

theorem sizeFieldEdit_pos_of_done {seek write : Outcome}
    (hdone : seek = .ok ∧ write.completes 4 = true) (offset : Nat) (size : UInt32) (f : File) :
    (sizeFieldEdit seek write offset size f).pos = offset + 4 := by
  rw [sizeFieldEdit_pos, if_pos hdone.1, Outcome.stored_of_completes hdone.2]

theorem WavCloseIo.position_of_chunk_failed {io : WavCloseIo} (unmoved : Option Nat)
    (hfailed : ¬ (io.seekChunk = .ok ∧ io.writeChunk.completes 4 = true)) :
    io.position unmoved = if io.seekChunk = .ok
      then some (wavChunkSizeOffset + io.writeChunk.stored 4) else unmoved := by
  rcases Classical.em (io.seekChunk = .ok) with hseek | hseek
  · have hwrite : io.writeChunk.completes 4 = false := by
      simpa [hseek] using hfailed
    simp [WavCloseIo.position, hseek, hwrite]
  · simp [WavCloseIo.position, hseek]

theorem WavCloseIo.position_of_subchunk2_failed {io : WavCloseIo} (unmoved : Option Nat)
    (hdone : io.seekChunk = .ok ∧ io.writeChunk.completes 4 = true)
    (hfailed : ¬ (io.seekSubchunk2 = .ok ∧ io.writeSubchunk2.completes 4 = true)) :
    io.position unmoved = if io.seekSubchunk2 = .ok
      then some (wavSubchunk2SizeOffset + io.writeSubchunk2.stored 4)
      else some (wavChunkSizeOffset + 4) := by
  rcases Classical.em (io.seekSubchunk2 = .ok) with hseek | hseek
  · have hwrite : io.writeSubchunk2.completes 4 = false := by
      simpa [hseek] using hfailed
    simp [WavCloseIo.position, hdone, hseek, hwrite]
  · simp [WavCloseIo.position, hdone, hseek]

/-- Whatever fails in it, `wav_update_size` edits nothing but the header, and
the position is left where the failing call found it. -/
theorem wavUpdateSize_edit (io : WavCloseIo) {w : Wav} {h : Nat} (hw : w.fp = some h) (fs : Fs) :
    ∃ g, HeaderEdit g ∧
      (wavUpdateSize io w fs).2 = { fs with files := fs.files.modify h g } ∧
      ∀ (f : File) (unmoved : Option Nat), wavHeaderSize.toNat ≤ f.bytes.length →
        f.pos = unmoved.getD f.bytes.length →
        (g f).pos = (io.position unmoved).getD f.bytes.length := by
  let size := roundDown w.dataSize w.bytesPerFrame.toUInt32
  let g₁ := sizeFieldEdit io.seekChunk io.writeChunk wavChunkSizeOffset (size + wavHeaderSize - 8)
  let g₂ := sizeFieldEdit io.seekSubchunk2 io.writeSubchunk2 wavSubchunk2SizeOffset size
  have hg₁ : HeaderEdit g₁ := headerEdit_sizeField io.seekChunk io.writeChunk (by decide) _
  have hg₂ : HeaderEdit g₂ := headerEdit_sizeField io.seekSubchunk2 io.writeSubchunk2 (by decide) _
  have hboth : HeaderEdit (g₂ ∘ g₁) := hg₂.comp hg₁
  obtain ⟨ret₁, hput₁, hneg₁⟩ := putSizeField_spec io.seekChunk io.writeChunk h
    wavChunkSizeOffset (size + wavHeaderSize - 8) fs
  obtain ⟨ret₂, hput₂, hneg₂⟩ := putSizeField_spec io.seekSubchunk2 io.writeSubchunk2 h
    wavSubchunk2SizeOffset size { fs with files := fs.files.modify h g₁ }
  simp only [wavUpdateSize, hw]
  rw [hput₁]
  rcases Classical.em (ret₁ < 0) with hret₁ | hret₁
  · -- the chunk size is not written
    refine ⟨g₁, hg₁, ?_, fun f unmoved _ hpos => ?_⟩
    · simp only [if_pos hret₁]
      rfl
    · rw [WavCloseIo.position_of_chunk_failed unmoved (hneg₁.mp hret₁)]
      simp only [g₁, sizeFieldEdit_pos]
      split
      · rfl
      · exact hpos
  · have hdone₁ := not_not.mp (mt hneg₁.mpr hret₁)
    simp only [if_neg hret₁]
    rw [hput₂]
    rcases Classical.em (ret₂ < 0) with hret₂ | hret₂
    · -- the data size is not written
      refine ⟨g₂ ∘ g₁, hboth, ?_, fun f unmoved _ _ => ?_⟩
      · simp only [if_pos hret₂, List.modify_modify_eq, g₂]
      · rw [WavCloseIo.position_of_subchunk2_failed unmoved hdone₁ (hneg₂.mp hret₂)]
        simp only [Function.comp_apply, g₂, sizeFieldEdit_pos]
        split
        · rfl
        · exact sizeFieldEdit_pos_of_done hdone₁ _ _ f
    · have hdone₂ := not_not.mp (mt hneg₂.mpr hret₂)
      simp only [if_neg hret₂]
      rcases Classical.em (io.seekEnd = .ok) with hend | hend
      · refine ⟨_, (HeaderEdit.seek fun f => f.bytes.length).comp hboth, ?_, fun f _ hlen _ => ?_⟩
        · simp only [hend, fsSeek, List.modify_modify_eq]
          rfl
        · simp only [WavCloseIo.position, hdone₁, hdone₂, hend]
          simpa using hboth.length f hlen
      · refine ⟨g₂ ∘ g₁, hboth, ?_, fun f unmoved _ _ => ?_⟩
        · simp only [fsSeek_of_ne_ok hend, Outcome.code_neg hend, if_true, List.modify_modify_eq, g₂]
        · have hposition : io.position unmoved = some wavHeaderSize.toNat := by
            simp [WavCloseIo.position, hdone₁, hdone₂, hend]
          rw [hposition]
          exact sizeFieldEdit_pos_of_done hdone₂ _ _ (g₁ f)

theorem wavUpdateSize_headerEdit (io : WavCloseIo) {w : Wav} {h : Nat} (hw : w.fp = some h)
    (fs : Fs) :
    ∃ g, HeaderEdit g ∧ (wavUpdateSize io w fs).2 =
      { fs with files := fs.files.modify h g } := by
  obtain ⟨g, hg, hfs, -⟩ := wavUpdateSize_edit io hw fs
  exact ⟨g, hg, hfs⟩

theorem wavClose_fs (io : WavCloseIo) (w : Wav) (fs : Fs) :
    (wavClose io w fs).2 = (wavUpdateSize io w fs).2 :=
  rfl

theorem wavClose_none (io : WavCloseIo) {w : Wav} (hw : w.fp = none) (fs : Fs) :
    (wavClose io w fs).2 = fs := by
  simp only [wavClose_fs, wavUpdateSize, putSizeField, fsSeek, hw]
  rfl

theorem length_files_wavClose (io : WavCloseIo) (w : Wav) (fs : Fs) :
    (wavClose io w fs).2.files.length = fs.files.length := by
  rcases hw : w.fp with _ | h
  · rw [wavClose_none io hw]
  · obtain ⟨g, _, hg⟩ := wavUpdateSize_headerEdit io hw fs
    rw [wavClose_fs, hg]
    exact List.length_modify g fs.files h

theorem length_files_wavWrite (o : Outcome) (w : Wav) (buf : List UInt8) (len : UInt32)
    (fs : Fs) :
    (wavWrite o w buf len fs).2.2.files.length = fs.files.length := by
  rcases hw : w.fp with _ | h
  · simp only [wavWrite, hw, fsWrite]
    split
    · rfl
    · split <;> rfl
  · rw [wavWrite_fs o hw]
    exact List.length_modify _ fs.files h

theorem wavWriteAll_card (o : Outcome) (fp : FsFile) (buf : List UInt8) (fs : Fs) :
    (wavWriteAll o fp buf fs).2.card = fs.card := by
  have hcard := fsWrite_card o fp buf (UInt32.ofNat buf.length) fs
  simp only [wavWriteAll]
  split
  · exact hcard
  · split <;> exact hcard

theorem writeFields_card (io : Nat → Outcome) (fp : FsFile) (k : Nat)
    (fields : List (List UInt8)) (fs : Fs) : (writeFields io fp k fields fs).2.card = fs.card := by
  induction fields generalizing k fs with
  | nil => rfl
  | cons field fields ih =>
      have hcard := wavWriteAll_card (io k) fp field fs
      simp only [writeFields]
      split
      · exact hcard
      · exact (ih (k + 1) _).trans hcard

theorem wavWrite_card (o : Outcome) (w : Wav) (buf : List UInt8) (len : UInt32) (fs : Fs) :
    (wavWrite o w buf len fs).2.2.card = fs.card := by
  have hcard := fsWrite_card o w.fp buf (w.writeLen len) fs
  simp only [wavWrite]
  split
  · exact hcard
  · split <;> exact hcard

theorem wavClose_card (io : WavCloseIo) (w : Wav) (fs : Fs) :
    (wavClose io w fs).2.card = fs.card := by
  rcases hw : w.fp with _ | h
  · rw [wavClose_none io hw]
  · obtain ⟨g, _, hg⟩ := wavUpdateSize_headerEdit io hw fs
    rw [wavClose_fs, hg]

theorem wavOpen_card (io : WavOpenIo) (w : Wav) (name : Path) {fmt : WavFormat}
    (hfmt : fmt.Accepted) (fs : Fs) :
    (wavOpen io w name fmt fs).2.2.card =
      (FileSystem.fsOpen io.fsOpen io.slot name fs).2.2.card := by
  obtain ⟨hchannels, hrate, hbits, hsize⟩ := hfmt
  simp only [wavOpen, if_neg hchannels, if_neg hrate, if_neg hbits,
    if_neg (UInt32.not_lt.mpr hsize)]
  split
  · rfl
  · have hheader : ∀ v : Wav, (wavWriteHeader io.header v fmt
        (FileSystem.fsOpen io.fsOpen io.slot name fs).2.2).2.2.card =
        (FileSystem.fsOpen io.fsOpen io.slot name fs).2.2.card := by
      intro v
      simp only [wavWriteHeader]
      exact writeFields_card io.header _ 0 _ _
    split <;> exact hheader _

theorem wavOpen_ret_of_ne_ok {io : WavOpenIo} (hio : io.fsOpen ≠ .ok) (w : Wav) (name : Path)
    {fmt : WavFormat} (hfmt : fmt.Accepted) (fs : Fs) :
    (wavOpen io w name fmt fs).1 < 0 := by
  obtain ⟨hchannels, hrate, hbits, hsize⟩ := hfmt
  simp only [wavOpen, if_neg hchannels, if_neg hrate, if_neg hbits,
    if_neg (UInt32.not_lt.mpr hsize), fsOpen_card_of_ne_ok hio, Outcome.code_neg hio, if_true]

end ZeusLe.WavFile
