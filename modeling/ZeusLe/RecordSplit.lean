import ZeusLe.RecordTiming

/-!
The offset at which a block is split between two files, for blocks of any
length, frame size and duration.
-/

namespace ZeusLe.RecordSplit

open ZeusLe.Library.Word
open ZeusLe.Record
open ZeusLe.RecordStream
open ZeusLe.RecordTiming
open ZeusLe.Audio

/-- The assertion of `record_buffer`, for frames that are not empty. -/
structure WholeFrames (block : AudioBlock) : Prop where
  bytesPerFrame : block.bytesPerFrame ≠ 0
  len : block.len % block.bytesPerFrame.toUInt32 = 0

def blockFrames (block : AudioBlock) : UInt32 :=
  block.len / block.bytesPerFrame.toUInt32

def splitFrame (block : AudioBlock) (waitTime : UInt32) : UInt32 :=
  divRoundClosest (waitTime * blockFrames block) block.duration

/-- The numerator of the division fits into a word. -/
def Fits (block : AudioBlock) (waitTime : UInt32) : Prop :=
  waitTime.toNat * (blockFrames block).toNat + block.duration.toNat / 2 < 2 ^ 32

/-- The block starts a new file after `waitTime` ticks, at the closest frame and
no earlier than for the times before. -/
structure SplitsNearest (block : AudioBlock) (waitTime : UInt32) (split : Split) : Prop where
  nearest : ∃ frame,
    Nearest (waitTime.toNat * (blockFrames block).toNat) block.duration.toNat frame ∧
      split.splitOffset.toNat = frame * block.bytesPerFrame.toNat
  within : split.splitOffset ≤ block.len
  monotone : ∀ data' split', recordSwitch data' block = some split' → split'.newFile = true →
    ahead data'.startTime block.startTime ≤ waitTime → split'.splitOffset ≤ split.splitOffset
  atEnd : waitTime = block.duration → split.splitOffset = block.len

theorem recordSwitch_newFile {data : RecordData} {block : AudioBlock} {split : Split}
    (hswitch : recordSwitch data block = some split) (hnew : split.newFile = true) :
    ahead data.startTime block.startTime ≤ block.duration ∧
      split.splitOffset = block.splitOffset (ahead data.startTime block.startTime) := by
  simp only [recordSwitch] at hswitch
  split at hswitch
  · cases hswitch
  · split at hswitch <;> cases hswitch
    · exact ⟨‹_›, rfl⟩
    · cases hnew
  · split at hswitch <;> cases hswitch
    · exact ⟨‹_›, rfl⟩
    · cases hnew
  · cases hswitch
    cases hnew

theorem toNat_blockFrames_mul {block : AudioBlock} (hframes : WholeFrames block) :
    (blockFrames block).toNat * block.bytesPerFrame.toNat = block.len.toNat := by
  have hmod := congrArg UInt32.toNat hframes.len
  rw [UInt32.toNat_mod, UInt8.toNat_toUInt32] at hmod
  rw [blockFrames, UInt32.toNat_div, UInt8.toNat_toUInt32]
  exact Nat.div_mul_cancel (Nat.dvd_of_mod_eq_zero hmod)

theorem splitFrame_le {block : AudioBlock} {waitTime : UInt32} (hwait : waitTime ≤ block.duration) :
    splitFrame block waitTime ≤ blockFrames block :=
  divRoundClosest_mul_le hwait

theorem toNat_splitOffset {block : AudioBlock} {waitTime : UInt32} (hframes : WholeFrames block)
    (hwait : waitTime ≤ block.duration) :
    (block.splitOffset waitTime).toNat =
      (splitFrame block waitTime).toNat * block.bytesPerFrame.toNat := by
  have hle := UInt32.le_iff_toNat_le.mp (splitFrame_le hwait)
  have hlen := toNat_blockFrames_mul hframes
  have hbound := block.len.toNat_lt
  change (splitFrame block waitTime * block.bytesPerFrame.toUInt32).toNat = _
  rw [UInt32.toNat_mul, UInt8.toNat_toUInt32]
  apply Nat.mod_eq_of_lt
  calc
    _ ≤ (blockFrames block).toNat * block.bytesPerFrame.toNat := Nat.mul_le_mul_right _ hle
    _ < 2 ^ 32 := by omega

theorem splitFrame_mono {block : AudioBlock} {waitTime waitTime' : UInt32}
    (h : waitTime' ≤ waitTime) (hfits : Fits block waitTime) :
    splitFrame block waitTime' ≤ splitFrame block waitTime :=
  divRoundClosest_mono h hfits

theorem splitFrame_end {block : AudioBlock} (hduration : block.duration ≠ 0)
    (hfits : Fits block block.duration) :
    splitFrame block block.duration = blockFrames block := by
  have hpos : 0 < block.duration.toNat :=
    Nat.pos_of_ne_zero fun h => hduration (UInt32.toNat_inj.mp h)
  have hmul : (block.duration * blockFrames block).toNat =
      block.duration.toNat * (blockFrames block).toNat := by
    rw [UInt32.toNat_mul]
    apply Nat.mod_eq_of_lt
    simp only [Fits] at hfits
    omega
  rw [← UInt32.toNat_inj, splitFrame, toNat_divRoundClosest (by rw [hmul]; exact hfits), hmul,
    Nat.mul_add_div hpos, Nat.div_eq_of_lt (Nat.div_lt_self hpos (by decide)), Nat.add_zero]

theorem splitsNearest_of_fits {data : RecordData} {block : AudioBlock} {split : Split}
    (hframes : WholeFrames block) (hduration : block.duration ≠ 0)
    (hswitch : recordSwitch data block = some split) (hnew : split.newFile = true)
    (hfits : Fits block (ahead data.startTime block.startTime)) :
    SplitsNearest block (ahead data.startTime block.startTime) split := by
  obtain ⟨hwait, hoffset⟩ := recordSwitch_newFile hswitch hnew
  have hbytes := toNat_splitOffset hframes hwait
  refine ⟨?_, ?_, ?_, ?_⟩
  · refine ⟨(splitFrame block (ahead data.startTime block.startTime)).toNat, ?_, ?_⟩
    · exact (nearest_mul_iff hduration).mpr hfits
    · rw [hoffset, hbytes]
  · rw [hoffset]
    exact splitOffset_le block hwait
  · intro data' split' hswitch' hnew' hearlier
    obtain ⟨hwait', hoffset'⟩ := recordSwitch_newFile hswitch' hnew'
    rw [hoffset, hoffset', UInt32.le_iff_toNat_le, hbytes, toNat_splitOffset hframes hwait']
    exact Nat.mul_le_mul_right _ (UInt32.le_iff_toNat_le.mp (splitFrame_mono hearlier hfits))
  · intro hend
    rw [hend] at hfits hoffset hbytes
    rw [hoffset, ← UInt32.toNat_inj, hbytes, splitFrame_end hduration hfits,
      toNat_blockFrames_mul hframes]

/-- A block of whole frames is split at the right place for a start time exactly
when `wait_time * block_frames` and the rounding addend fit into 32 bits. -/
theorem splitsNearest_iff {data : RecordData} {block : AudioBlock} {split : Split}
    (hframes : WholeFrames block) (hduration : block.duration ≠ 0)
    (hswitch : recordSwitch data block = some split) (hnew : split.newFile = true) :
    SplitsNearest block (ahead data.startTime block.startTime) split ↔
      Fits block (ahead data.startTime block.startTime) := by
  constructor
  · rintro ⟨⟨frame, hnearest, hframe⟩, -, -, -⟩
    obtain ⟨hwait, hoffset⟩ := recordSwitch_newFile hswitch hnew
    have hsize : 0 < block.bytesPerFrame.toNat :=
      Nat.pos_of_ne_zero fun h => hframes.bytesPerFrame (UInt8.toNat_inj.mp h)
    rw [hoffset, toNat_splitOffset hframes hwait] at hframe
    rw [← Nat.eq_of_mul_eq_mul_right hsize hframe] at hnearest
    exact (nearest_mul_iff hduration).mp hnearest
  · exact splitsNearest_of_fits hframes hduration hswitch hnew

/-- A recorder that waits for the tick `time`. -/
def waitingFor (time : UInt32) : RecordData :=
  { (boot FileSystem.emptyCard none).data with state := .waitingStart, startTime := time }

/-- One block of 50 ms in 4-byte frames. -/
def stereoBlock : AudioBlock where
  buf := List.replicate 14400 0
  buf_lt := by
    rw [List.length_replicate]
    decide
  startTime := 0
  duration := 1200000
  bytesPerFrame := 4

theorem stereoBlock_len : stereoBlock.len = 14400 := by
  rw [AudioBlock.len, stereoBlock, List.length_replicate]
  rfl

theorem wholeFrames_stereoBlock : WholeFrames stereoBlock := by
  refine ⟨by decide, ?_⟩
  rw [stereoBlock_len]
  rfl

/-- A start in the middle of the block is in order. -/
theorem splitsNearest_stereoBlock_middle :
    SplitsNearest stereoBlock 600000 ⟨false, true, stereoBlock.splitOffset 600000⟩ := by
  have hfits : Fits stereoBlock 600000 := by
    rw [Fits, blockFrames, stereoBlock_len]
    decide
  have hswitch : recordSwitch (waitingFor 600000) stereoBlock =
      some ⟨false, true, stereoBlock.splitOffset 600000⟩ := rfl
  exact (splitsNearest_iff wholeFrames_stereoBlock (by decide) hswitch rfl).mpr hfits

/-- A start at its end splits after 21 frames. -/
theorem not_splitsNearest_stereoBlock_end :
    ¬ ∀ (data : RecordData) (block : AudioBlock) (split : Split), WholeFrames block →
      block.duration ≠ 0 → recordSwitch data block = some split → split.newFile = true →
      SplitsNearest block (ahead data.startTime block.startTime) split := by
  intro h
  have hsplit := h (waitingFor 1200000) stereoBlock
    ⟨false, true, stereoBlock.splitOffset 1200000⟩ wholeFrames_stereoBlock (by decide) rfl rfl
  have hend : stereoBlock.splitOffset 1200000 = stereoBlock.len := hsplit.atEnd rfl
  rw [AudioBlock.splitOffset, stereoBlock_len] at hend
  exact absurd hend (by decide)

theorem splitsNearest_threadBlock {data : RecordData} {buf : BlockBuf} {start : UInt32}
    {split : Split} (hswitch : recordSwitch data (threadBlock buf start) = some split)
    (hnew : split.newFile = true) :
    SplitsNearest (threadBlock buf start)
      (ahead data.startTime (threadBlock buf start).startTime) split := by
  have hsize : (threadBlock buf start).bytesPerFrame = 6 := rfl
  have hframes : blockFrames (threadBlock buf start) = 2400 := by
    rw [← UInt32.toNat_inj, blockFrames, UInt32.toNat_div, length_threadBlock, hsize]
    rfl
  have hwait := UInt32.le_iff_toNat_le.mp (recordSwitch_newFile hswitch hnew).1
  have hduration : (threadBlock buf start).duration.toNat = 1200000 := rfl
  have hpos : (threadBlock buf start).duration ≠ 0 := by
    intro hzero
    rw [hzero] at hduration
    cases hduration
  refine splitsNearest_of_fits ⟨?_, ?_⟩ hpos hswitch hnew ?_
  · rw [hsize]
    decide
  · rw [← UInt32.toNat_inj, UInt32.toNat_mod, length_threadBlock, hsize]
    rfl
  · have hcount : (2400 : UInt32).toNat = 2400 := rfl
    rw [Fits, hframes, hcount]
    omega

end ZeusLe.RecordSplit
