import ZeusLe.WavFile
import ZeusLe.Library.Run

/-!
The sizes in a `struct wav`: the frame size that `wav_open` computes, and the
limit that `wav_write` keeps to.
-/

namespace ZeusLe.WavSizes

open ZeusLe.FileSystem
open ZeusLe.WavFile
open ZeusLe.Library.Word
open ZeusLe.Library.Run

structure Write where
  outcome : Outcome := .ok
  buf : List UInt8
  len : UInt32
  deriving DecidableEq, Repr

/-- One call of `wav_write`. -/
def write (s : Wav × Fs) (call : Write) : Wav × Fs :=
  (wavWrite call.outcome s.1 call.buf call.len s.2).2

/-- The frame size over the integers. -/
def frameSize (fmt : WavFormat) : Nat :=
  fmt.channels.toNat * ((fmt.bitsPerSample.toNat + 7) / 8)

/-- The sizes of a `struct wav` are those of its format, and within its limits. -/
structure Sound (fmt : WavFormat) (w : Wav) : Prop where
  frame : w.bytesPerFrame.toNat = frameSize fmt
  divides : w.bytesPerFrame ≠ 0
  within : w.dataSize ≤ w.maxDataSize
  file : wavHeaderSize.toNat + w.dataSize.toNat ≤ fmt.maxFileSize.toNat

/-- The comparison of `wav_write` is the one over the integers. -/
def ComparesExactly (w : Wav) (len : UInt32) : Prop :=
  w.dataSize + len > w.maxDataSize ↔ w.dataSize.toNat + len.toNat > w.maxDataSize.toNat

/-- The sizes are sound from `wav_open` on, after every call. -/
structure SizesSafe (fmt : WavFormat) (s : Wav × Fs) (writes : List Write) : Prop where
  opened : Sound fmt s.1
  written : Along write
    (fun s call => ComparesExactly s.1 call.len ∧ Sound fmt (write s call).1) s writes

def NoWrap (s : Wav × Fs) (call : Write) : Prop :=
  s.1.dataSize.toNat + call.len.toNat < 2 ^ 32

instance (s : Wav × Fs) (call : Write) : Decidable (NoWrap s call) :=
  inferInstanceAs (Decidable (_ < _))

theorem toNat_bytesPerSample (fmt : WavFormat) :
    fmt.bytesPerSample.toNat = (fmt.bitsPerSample.toNat + 7) / 8 := by
  have hbits := fmt.bitsPerSample.toNat_lt
  simp only [WavFormat.bytesPerSample, UInt16.toNat_ofNat']
  apply Nat.mod_eq_of_lt
  omega

theorem toNat_bytesPerFrame_iff (fmt : WavFormat) :
    fmt.bytesPerFrame.toNat = frameSize fmt ↔ frameSize fmt < 2 ^ 16 := by
  have hmul : fmt.bytesPerFrame.toNat = frameSize fmt % 2 ^ 16 := by
    rw [WavFormat.bytesPerFrame, UInt16.toNat_mul, toNat_bytesPerSample, frameSize]
  rw [hmul]
  exact Nat.mod_eq_iff_lt (by decide)

theorem frameSize_pos {fmt : WavFormat} (hfmt : fmt.Accepted) : 0 < frameSize fmt := by
  obtain ⟨hchannels, -, hbits, -⟩ := hfmt
  have hchannels : 0 < fmt.channels.toNat :=
    Nat.pos_of_ne_zero fun h => hchannels (UInt16.toNat_inj.mp h)
  have hbits : 0 < fmt.bitsPerSample.toNat :=
    Nat.pos_of_ne_zero fun h => hbits (UInt16.toNat_inj.mp h)
  exact Nat.mul_pos hchannels (Nat.div_pos (by omega) (by decide))

theorem accepted_of_ret {io : WavOpenIo} {w : Wav} {name : Path} {fmt : WavFormat} {fs : Fs}
    (hret : (wavOpen io w name fmt fs).1 ≠ -einval) : fmt.Accepted := by
  refine ⟨?_, ?_, ?_, ?_⟩
  · intro hchannels
    simp [wavOpen, hchannels] at hret
  · intro hrate
    simp [wavOpen, hrate] at hret
  · intro hbits
    simp [wavOpen, hbits] at hret
  · apply UInt32.not_lt.mp
    intro hsize
    simp [wavOpen, hsize] at hret

theorem wavOpen_sizes {io : WavOpenIo} (hopen : io.fsOpen = .ok) {fmt : WavFormat}
    (hfmt : fmt.Accepted) (w : Wav) (name : Path) (fs : Fs) :
    ∃ fp, (wavOpen io w name fmt fs).2.1 = { fmt.opened 0 with fp := fp } := by
  obtain ⟨hchannels, hrate, hbits, hsize⟩ := hfmt
  let opened : Wav := { Wav.zero with fp := some fs.files.length }
  let openedFs := (FileSystem.fsOpen .ok io.slot name fs).2.2
  have hopened : FileSystem.fsOpen .ok io.slot name fs = (0, some fs.files.length, openedFs) := rfl
  have hsizes : (wavWriteHeader io.header opened fmt openedFs).2.1 =
      { fmt.opened 0 with fp := some fs.files.length } := rfl
  simp only [wavOpen, if_neg hchannels, if_neg hrate, if_neg hbits,
    if_neg (UInt32.not_lt.mpr hsize), hopen]
  rw [hopened]
  rcases Classical.em ((wavWriteHeader io.header opened fmt openedFs).1 < 0) with hret | hret
  · refine ⟨(fsClose io.fsClose (some fs.files.length)).2, ?_⟩
    simp only [lt_irrefl, if_false]
    rw [if_pos hret, hsizes]
  · refine ⟨some fs.files.length, ?_⟩
    simp only [lt_irrefl, if_false]
    rw [if_neg hret, hsizes]

theorem wavOpen_zero {io : WavOpenIo} (hopen : io.fsOpen ≠ .ok) {fmt : WavFormat}
    (hfmt : fmt.Accepted) (w : Wav) (name : Path) (fs : Fs) :
    (wavOpen io w name fmt fs).2.1 = Wav.zero := by
  obtain ⟨hchannels, hrate, hbits, hsize⟩ := hfmt
  simp only [wavOpen, if_neg hchannels, if_neg hrate, if_neg hbits,
    if_neg (UInt32.not_lt.mpr hsize), fsOpen_card_of_ne_ok hopen, Outcome.code_neg hopen, if_true]
  rfl

theorem maxDataSize_le {fmt : WavFormat} (hfmt : fmt.Accepted) (h : Nat) :
    wavHeaderSize.toNat + (fmt.opened h).maxDataSize.toNat ≤ fmt.maxFileSize.toNat := by
  have hsize := hfmt.2.2.2
  have hle := UInt32.le_iff_toNat_le.mp hsize
  simp only [WavFormat.opened, roundDown, UInt32.toNat_mul, UInt32.toNat_div,
    UInt32.toNat_sub_of_le _ _ hsize]
  have hround := Nat.div_mul_le_self (fmt.maxFileSize.toNat - wavHeaderSize.toNat)
    fmt.bytesPerFrame.toUInt32.toNat
  have hmod := Nat.mod_le ((fmt.maxFileSize.toNat - wavHeaderSize.toNat) /
    fmt.bytesPerFrame.toUInt32.toNat * fmt.bytesPerFrame.toUInt32.toNat) (2 ^ 32)
  omega

theorem comparesExactly_iff {w : Wav} (hwithin : w.dataSize ≤ w.maxDataSize) (len : UInt32) :
    ComparesExactly w len ↔ w.dataSize.toNat + len.toNat < 2 ^ 32 := by
  have hle := UInt32.le_iff_toNat_le.mp hwithin
  have hmax := w.maxDataSize.toNat_lt
  have hlen := len.toNat_lt
  simp only [ComparesExactly, gt_iff_lt, UInt32.lt_iff_toNat_lt, UInt32.toNat_add]
  constructor
  · intro hsame
    apply Nat.lt_of_not_le
    intro hwrap
    -- the wrapped sum is below the old size, the true one above every limit
    have hsum : (w.dataSize.toNat + len.toNat) % 2 ^ 32 =
        w.dataSize.toNat + len.toNat - 2 ^ 32 := by
      rw [Nat.mod_eq_sub_mod hwrap, Nat.mod_eq_of_lt (by omega)]
    have hexceeds := hsame.mpr (by omega)
    omega
  · intro hfit
    rw [Nat.mod_eq_of_lt hfit]

theorem wavWrite_dataSize (o : Outcome) (w : Wav) (buf : List UInt8) (len : UInt32) (fs : Fs) :
    ∃ n ≤ (w.writeLen len).toNat, (wavWrite o w buf len fs).2.1 =
      { w with dataSize := w.dataSize + UInt32.ofNat n } := by
  have hkept : w = { w with dataSize := w.dataSize + UInt32.ofNat 0 } := by
    simp
  rcases hfp : w.fp with _ | h
  · refine ⟨0, Nat.zero_le _, ?_⟩
    have hneg : -ebadf < 0 := by decide
    simp only [wavWrite, hfp, fsWrite, if_pos hneg]
    exact hfp ▸ hkept
  · cases o with
    | ok =>
        simp only [wavWrite, hfp, fsWrite]
        split
        · exact ⟨0, Nat.zero_le _, hfp ▸ hkept⟩
        · rename_i hpos
          have hlen : (w.writeLen len).toInt32.toInt = (w.writeLen len).toNat := by
            apply toInt_toInt32
            apply Nat.lt_of_not_le
            intro hbig
            have hneg := (toInt32_neg_iff _).mpr hbig
            rw [Int32.lt_iff_toInt_lt] at hneg
            exact hpos hneg
          refine ⟨(w.writeLen len).toNat, Nat.le_refl _, ?_⟩
          rw [hlen, if_neg (by simp), UInt32.ofNat_toNat]
    | err stored code =>
        refine ⟨0, Nat.zero_le _, ?_⟩
        have hneg : (Outcome.err stored code).code < 0 := Outcome.code_neg (by simp)
        simp only [wavWrite, hfp, fsWrite, if_pos hneg]
        exact hfp ▸ hkept
    | short stored errno =>
        refine ⟨min stored (w.writeLen len).toNat, Nat.min_le_right _ _, ?_⟩
        simp only [wavWrite, hfp, fsWrite]
        rw [if_neg (by omega)]
        split
        · rw [ofInt_natCast]
        · rename_i hall
          have hall := Int.ofNat.inj (not_not.mp hall)
          rw [hall, UInt32.ofNat_toNat]

theorem within_write {w : Wav} (hwithin : w.dataSize ≤ w.maxDataSize) {len : UInt32}
    (hfit : w.dataSize.toNat + len.toNat < 2 ^ 32) {n : Nat} (hn : n ≤ (w.writeLen len).toNat) :
    w.dataSize + UInt32.ofNat n ≤ w.maxDataSize := by
  have hle := UInt32.le_iff_toNat_le.mp hwithin
  have hmax := w.maxDataSize.toNat_lt
  have hlen := Wav.toNat_writeLen hwithin hfit
  rw [UInt32.le_iff_toNat_le, UInt32.toNat_add, UInt32.toNat_ofNat', Nat.mod_eq_of_lt (by omega),
    Nat.mod_eq_of_lt (by omega)]
  omega

/-- Soundness with the limit that `wav_open` derives from the format. -/
structure Limited (fmt : WavFormat) (w : Wav) : Prop extends Sound fmt w where
  limit : wavHeaderSize.toNat + w.maxDataSize.toNat ≤ fmt.maxFileSize.toNat

theorem limited_write {fmt : WavFormat} {s : Wav × Fs} (h : Limited fmt s.1) {call : Write}
    (hfit : NoWrap s call) : Limited fmt (write s call).1 := by
  obtain ⟨n, hn, hw⟩ := wavWrite_dataSize call.outcome s.1 call.buf call.len s.2
  have hwithin := within_write h.within hfit hn
  have hle := UInt32.le_iff_toNat_le.mp hwithin
  have hlimit := h.limit
  simp only [write, hw]
  exact ⟨⟨h.frame, h.divides, hwithin, by simp only; omega⟩, hlimit⟩

theorem limited_opened {io : WavOpenIo} (hopen : io.fsOpen = .ok) {fmt : WavFormat}
    (hfmt : fmt.Accepted) (hframe : frameSize fmt < 2 ^ 16) (w : Wav) (name : Path) (fs : Fs) :
    Limited fmt (wavOpen io w name fmt fs).2.1 := by
  obtain ⟨fp, hw⟩ := wavOpen_sizes hopen hfmt w name fs
  have hsize := (toNat_bytesPerFrame_iff fmt).mpr hframe
  have hpos := frameSize_pos hfmt
  have hlimit := maxDataSize_le hfmt 0
  have hheader := UInt32.le_iff_toNat_le.mp hfmt.2.2.2
  rw [hw]
  refine ⟨⟨hsize, ?_, UInt32.le_iff_toNat_le.mpr (Nat.zero_le _), hheader⟩, hlimit⟩
  intro hzero
  have hzero : fmt.bytesPerFrame.toNat = 0 := congrArg UInt16.toNat hzero
  omega

theorem safe_write_iff {fmt : WavFormat} (s : Wav × Fs) (call : Write) (hs : Limited fmt s.1) :
    ComparesExactly s.1 call.len ∧ Sound fmt (write s call).1 ↔ NoWrap s call := by
  constructor
  · rintro ⟨hcompares, -⟩
    exact (comparesExactly_iff hs.within call.len).mp hcompares
  · intro hfit
    exact ⟨(comparesExactly_iff hs.within call.len).mpr hfit, (limited_write hs hfit).toSound⟩

theorem safe_writes_iff {fmt : WavFormat} {s : Wav × Fs} (hs : Limited fmt s.1)
    (writes : List Write) :
    Along write (fun s call => ComparesExactly s.1 call.len ∧ Sound fmt (write s call).1) s writes ↔
      Along write NoWrap s writes :=
  along_iff_of_invariant (P := fun s => Limited fmt s.1) safe_write_iff
    (fun _ _ hs hfit => limited_write hs hfit) hs

theorem sizesSafe_of_short {io : WavOpenIo} (hopen : io.fsOpen = .ok) {fmt : WavFormat}
    (hfmt : fmt.Accepted) (hframe : frameSize fmt < 2 ^ 16) (w : Wav) (name : Path) (fs : Fs)
    {writes : List Write}
    (hshort : ∀ call ∈ writes, fmt.maxFileSize.toNat + call.len.toNat < 2 ^ 32) :
    SizesSafe fmt (wavOpen io w name fmt fs).2 writes := by
  have hlimited := limited_opened hopen hfmt hframe w name fs
  refine ⟨hlimited.toSound, (safe_writes_iff hlimited writes).mpr ?_⟩
  have hlens : Along write (fun _ call => fmt.maxFileSize.toNat + call.len.toNat < 2 ^ 32)
      (wavOpen io w name fmt fs).2 writes :=
    along_of_forall (fun call hcall _ => hshort call hcall) _
  have hfits : ∀ (s : Wav × Fs) (call : Write), Limited fmt s.1 →
      fmt.maxFileSize.toNat + call.len.toNat < 2 ^ 32 → NoWrap s call := by
    intro s call hs hlen
    have hfile := hs.file
    simp only [NoWrap]
    omega
  exact along_of_invariant (P := fun s => Limited fmt s.1)
    (fun s call hs hlen => limited_write hs (hfits s call hs hlen)) hfits hlimited hlens

/-- The sizes of a file are safe over a sequence of writes exactly when the file
was opened, its frame size fits into 16 bits, and no sum of the limit test
wraps. -/
theorem sizesSafe_iff (io : WavOpenIo) (w : Wav) (name : Path) (fmt : WavFormat) (fs : Fs)
    (writes : List Write) (hret : (wavOpen io w name fmt fs).1 ≠ -einval) :
    SizesSafe fmt (wavOpen io w name fmt fs).2 writes ↔
      (io.fsOpen = .ok ∧ frameSize fmt < 2 ^ 16) ∧
        Along write NoWrap (wavOpen io w name fmt fs).2 writes := by
  have hfmt := accepted_of_ret hret
  constructor
  · rintro ⟨hopened, hwritten⟩
    have hopen : io.fsOpen = .ok := by
      apply Classical.byContradiction
      intro hfailed
      apply hopened.divides
      rw [wavOpen_zero hfailed hfmt]
      rfl
    have hframe : frameSize fmt < 2 ^ 16 := by
      obtain ⟨fp, hw⟩ := wavOpen_sizes hopen hfmt w name fs
      rw [← hopened.frame, hw]
      exact UInt16.toNat_lt _
    refine ⟨⟨hopen, hframe⟩, ?_⟩
    exact (safe_writes_iff (limited_opened hopen hfmt hframe w name fs) writes).mp hwritten
  · rintro ⟨⟨hopen, hframe⟩, hfits⟩
    have hlimited := limited_opened hopen hfmt hframe w name fs
    exact ⟨hlimited.toSound, (safe_writes_iff hlimited writes).mpr hfits⟩

/-- Two writes to a file of the recorder, the second one past its limit. -/
theorem sizesSafe_recordFormat :
    SizesSafe ⟨2, 48000, 16, 51⟩ (wavOpen {} Wav.zero [] ⟨2, 48000, 16, 51⟩ ⟨emptyCard, []⟩).2
      [⟨.ok, [1, 2, 3], 3⟩, ⟨.ok, [4, 5, 6], 3⟩] := by
  have hret : (wavOpen {} Wav.zero [] ⟨2, 48000, 16, 51⟩ ⟨emptyCard, []⟩).1 ≠ -einval := by decide
  exact (sizesSafe_iff {} Wav.zero [] ⟨2, 48000, 16, 51⟩ ⟨emptyCard, []⟩ _ hret).mpr
    ⟨⟨rfl, by decide⟩, by decide⟩

/-- 256 channels of 2048 bits: the frame size is cut to zero, and both
`ROUND_DOWN` divide by it. -/
theorem not_sizesSafe_of_wideFrames :
    ¬ ∀ (io : WavOpenIo) (w : Wav) (name : Path) (fmt : WavFormat) (fs : Fs)
      (writes : List Write), (wavOpen io w name fmt fs).1 ≠ -einval →
      SizesSafe fmt (wavOpen io w name fmt fs).2 writes := by
  intro h
  have hsafe := h {} Wav.zero [] ⟨256, 48000, 2048, 2147483647⟩ ⟨emptyCard, []⟩ [] (by decide)
  exact hsafe.opened.divides (by decide)

end ZeusLe.WavSizes
