import ZeusLe.Audio
import ZeusLe.RecordContinuity

/-!
At which frame of the stream a requested recording begins. The stream is made of
the blocks of the audio thread, one directly after the other.
-/

namespace ZeusLe.RecordTiming

open ZeusLe.FileSystem
open ZeusLe.WavFile
open ZeusLe.Library.Run
open ZeusLe.Library.Word
open ZeusLe.Library.Takes
open ZeusLe.Protocol (zeusTimeNominalFreq)
open ZeusLe.Record
open ZeusLe.RecordLifecycle
open ZeusLe.RecordStream
open ZeusLe.RecordContinuity
open ZeusLe.Audio

def contiguous : UInt32 → List BlockBuf → List AudioBlock
  | _, [] => []
  | start, buf :: bufs =>
      threadBlock buf start :: contiguous (start + quWhole blockDuration) bufs

def streamBytes (bufs : List BlockBuf) : List UInt8 :=
  bufs.flatMap Subtype.val

def bufferedBlock : Call → Option AudioBlock
  | .buffer _ block => some block
  | _ => none

def NoCommand : Call → Prop
  | .start _ _ | .stop _ | .shutdown _ => False
  | _ => True

def NoRollOver (s : Recorder) : Call → Prop
  | .buffer _ block => ∀ split, recordSwitch s.data block = some split → split.oldFile = true →
      (currentData s).length + split.splitOffset.toNat ≤ maxDataSize
  | _ => True

/-- `frame` is the frame nearest to `time` of a stream that begins at `start`,
or the first one when `time` is in the past. -/
def OnTime (time start : UInt32) (frame : Nat) : Prop :=
  let rate := recordFileFormat.sampleRate.toNat
  let ticks := zeusTimeNominalFreq.toNat
  if (time - start).toNat < 2 ^ 31 then
    2 * rate * (time - start).toNat ≤ 2 * ticks * frame + ticks ∧
      2 * ticks * frame ≤ 2 * rate * (time - start).toNat + ticks
  else frame = 0

/-- From `s` to `t` one new file is created, and it begins with the frame that
was asked for. -/
structure StartsOnTime (time start : UInt32) (stream : List UInt8) (s t : Recorder) : Prop where
  one : t.fs.files.length = s.fs.files.length + 1
  frame : ∃ frame, OnTime time start frame ∧
    recordFileFormat.bytesPerFrame.toNat * frame ≤ stream.length ∧
    (t.fs.files.map dataOf).getLast? =
      some (stream.drop (recordFileFormat.bytesPerFrame.toNat * frame))

theorem length_threadBlock (buf : BlockBuf) (start : UInt32) :
    (threadBlock buf start).len.toNat = 14400 := by
  rw [AudioBlock.toNat_len]
  exact buf.property

/-- Six bytes for every 500 ticks, rounded. -/
def startOffset (wait : Nat) : Nat :=
  6 * ((wait + 250) / 500)

theorem splitOffset_threadBlock (buf : BlockBuf) (start : UInt32) {waitTime : UInt32}
    (hwait : waitTime.toNat ≤ 1200000) :
    ((threadBlock buf start).splitOffset waitTime).toNat = startOffset waitTime.toNat := by
  have hsize : (threadBlock buf start).bytesPerFrame.toUInt32.toNat = 6 := rfl
  have hduration : (threadBlock buf start).duration.toNat = 1200000 := rfl
  have hframes : ((threadBlock buf start).len /
      (threadBlock buf start).bytesPerFrame.toUInt32).toNat = 2400 := by
    rw [UInt32.toNat_div, length_threadBlock, hsize]
  have hmul : (waitTime * ((threadBlock buf start).len /
      (threadBlock buf start).bytesPerFrame.toUInt32)).toNat = waitTime.toNat * 2400 := by
    rw [UInt32.toNat_mul, hframes]
    exact Nat.mod_eq_of_lt (by omega)
  rw [AudioBlock.splitOffset, UInt32.toNat_mul, toNat_divRoundClosest (by omega), hmul, hduration,
    hsize, startOffset]
  omega

theorem cutAt_threadBlock (buf : BlockBuf) (start time : UInt32) :
    cutAt (threadBlock buf start) time =
      if (ahead time start).toNat ≤ 1200000 then some (startOffset (ahead time start).toNat)
      else none := by
  have hwait : ahead time start ≤ (threadBlock buf start).duration ↔
      (ahead time start).toNat ≤ 1200000 := by
    rw [UInt32.le_iff_toNat_le]
    rfl
  by_cases h : (ahead time start).toNat ≤ 1200000
  · rw [if_pos h, ← splitOffset_threadBlock buf start h]
    exact if_pos (hwait.mpr h)
  · rw [if_neg h]
    exact if_neg fun hle => h (hwait.mp hle)

theorem startOffset_add {wait : Nat} (hwait : 1200000 ≤ wait) :
    startOffset wait = 14400 + startOffset (wait - 1200000) := by
  simp only [startOffset]
  omega

theorem length_streamBytes (bufs : List BlockBuf) :
    (streamBytes bufs).length = 14400 * bufs.length := by
  induction bufs with
  | nil => rfl
  | cons buf bufs ih =>
      have hbuf : buf.val.length = 14400 := buf.property
      have htail : (bufs.flatMap Subtype.val).length = 14400 * bufs.length := ih
      rw [streamBytes, List.flatMap_cons, List.length_append, List.length_cons, htail, hbuf]
      omega

theorem flatMap_contiguous (start : UInt32) (bufs : List BlockBuf) :
    ((contiguous start bufs).map streamBlock).flatMap Block.symbols = streamBytes bufs := by
  induction bufs generalizing start with
  | nil => rfl
  | cons buf bufs ih =>
      simp only [contiguous, List.map_cons, List.flatMap_cons, ih]
      rfl

/-- A take requested for `time` begins in the stream at the offset that the
distance to `time` gives, whatever block that is in. -/
theorem contiguous_run {capacity : Nat} {time start : UInt32} {bufs : List BlockBuf}
    {done : List (List UInt8)} {current : Option (List UInt8)} (hne : bufs ≠ [])
    (hreached : (ahead time start).toNat ≤ 1200000 * bufs.length)
    (hfits : Along (Tape.block capacity) (Tape.Fits capacity) ⟨done, .waiting time current⟩
      ((contiguous start bufs).map streamBlock)) :
    run (Tape.block capacity) ⟨done, .waiting time current⟩
        ((contiguous start bufs).map streamBlock) =
      ⟨done ++ (current.map
          (· ++ (streamBytes bufs).take (startOffset (ahead time start).toNat))).toList,
        .running ((streamBytes bufs).drop (startOffset (ahead time start).toNat))⟩ := by
  induction bufs generalizing start current with
  | nil => exact absurd rfl hne
  | cons buf bufs ih =>
      obtain ⟨hfit, hrest⟩ := hfits
      have hbuf : buf.val.length = 14400 := buf.property
      simp only [contiguous, List.map_cons, run_cons]
      by_cases hwait : (ahead time start).toNat ≤ 1200000
      · have hcut : (streamBlock (threadBlock buf start)).cut time =
            some (startOffset (ahead time start).toNat) :=
          (cutAt_threadBlock buf start time).trans (if_pos hwait)
        have hinside : startOffset (ahead time start).toNat ≤ buf.val.length := by
          rw [hbuf, startOffset]
          omega
        rw [block_waiting_cut hcut hfit] at hrest ⊢
        rw [running_blocks_run hrest, flatMap_contiguous]
        simp only [streamBytes, List.flatMap_cons, List.take_append_of_le_length hinside,
          List.drop_append_of_le_length hinside]
        rfl
      · have hcut : (streamBlock (threadBlock buf start)).cut time = none :=
          (cutAt_threadBlock buf start time).trans (if_neg hwait)
        have hnext : (ahead time (start + quWhole blockDuration)).toNat =
            (ahead time start).toNat - 1200000 := by
          rw [toNat_ahead_add]
          · rfl
          · rw [UInt32.le_iff_toNat_le]
            exact Nat.le_of_not_le hwait
        have hmore : bufs ≠ [] := by
          rintro rfl
          simp only [List.length_singleton] at hreached
          omega
        have hlater : (ahead time (start + quWhole blockDuration)).toNat ≤
            1200000 * bufs.length := by
          simp only [List.length_cons] at hreached
          omega
        rw [block_waiting_miss hcut hfit] at hrest ⊢
        rw [ih hmore hlater hrest, hnext, startOffset_add (Nat.le_of_not_le hwait)]
        have htake : ∀ n, (streamBytes (buf :: bufs)).take (14400 + n) =
            buf.val ++ (streamBytes bufs).take n := by
          intro n
          rw [← hbuf, streamBytes, List.flatMap_cons, List.take_length_add_append]
          rfl
        have hdrop : ∀ n, (streamBytes (buf :: bufs)).drop (14400 + n) =
            (streamBytes bufs).drop n := by
          intro n
          rw [← hbuf, streamBytes, List.flatMap_cons, List.drop_length_add_append]
          rfl
        rw [htake, hdrop, Option.map_map]
        simp only [Function.comp_def, List.append_assoc]
        rfl

theorem startOffset_frame_iff (wait : Nat) :
    (∃ frame, startOffset wait = 4 * frame ∧
        3 * wait ≤ 1000 * frame + 500 ∧ 1000 * frame ≤ 3 * wait + 500) ↔
      wait % 1000 ≤ 166 ∨ 834 ≤ wait % 1000 := by
  simp only [startOffset]
  constructor
  · rintro ⟨frame, hoffset, hlow, hhigh⟩
    omega
  · intro hwait
    exact ⟨3 * ((wait + 250) / 500) / 2, by omega, by omega, by omega⟩

theorem onTime_iff (time start : UInt32) (frame : Nat) :
    OnTime time start frame ↔ 3 * (ahead time start).toNat ≤ 1000 * frame + 500 ∧
      1000 * frame ≤ 3 * (ahead time start).toNat + 500 := by
  have hrate : recordFileFormat.sampleRate.toNat = 48000 := rfl
  have hticks : zeusTimeNominalFreq.toNat = 16000000 := rfl
  simp only [OnTime, hrate, hticks, toNat_ahead]
  split <;> omega

theorem input_quiet {call : Call} (h : NoCommand call) : (input call).Quiet := by
  cases call with
  | start audioStart time => exact h.elim
  | stop io => exact h.elim
  | shutdown io => exact h.elim
  | _ => trivial

theorem block_input (call : Call) :
    (input call).block? = (bufferedBlock call).map streamBlock := by
  cases call with
  | start audioStart time =>
      simp only [input]
      split <;> rfl
  | _ => rfl

theorem filterMap_input_block (calls : List Call) :
    (calls.map input).filterMap Input.block? =
      (calls.filterMap bufferedBlock).map streamBlock := by
  rw [List.filterMap_map, List.map_filterMap]
  exact List.filterMap_congr fun call _ => block_input call

theorem fits_of_noRollOver {s : Recorder} {tape : Tape UInt8 UInt32} {call : Call}
    (h : Refines s tape) (hroom : NoRollOver s call) :
    tape.InputFits maxDataSize (input call) := by
  intro b hb
  obtain ⟨hinit, hphase, hholds⟩ := h
  cases call with
  | buffer io block =>
      obtain rfl := Option.some.inj hb
      have hfiles := hholds.files
      rcases tape with ⟨done, _ | time | ⟨time, current⟩ | current⟩
      · trivial
      · trivial
      · have hdata : currentData s = current := by
          simp [currentData, hfiles, Phase.current]
        obtain ⟨hstate, rfl⟩ := hphase
        obtain ⟨split, hswitch, hold, _, hcut⟩ :=
          recordSwitch_waiting block true hstate
        have hle := hroom split hswitch hold
        rw [hdata] at hle
        rcases hcut with ⟨_, hcut⟩ | ⟨_, hwhole, hcut⟩
        · simpa only [Tape.Fits, hcut, Option.getD_some] using hle
        · rw [hwhole, AudioBlock.toNat_len] at hle
          simpa only [Tape.Fits, hcut, Option.getD_none] using hle
      · have hdata : currentData s = current := by
          simp [currentData, hfiles, Phase.current]
        have hstate : s.data.state = .running := hphase
        have hle := hroom ⟨true, false, block.len⟩ (by simp only [recordSwitch, hstate]) rfl
        rw [hdata, AudioBlock.toNat_len] at hle
        exact hle
  | start audioStart time =>
      simp only [input] at hb
      split at hb <;> cases hb
  | _ => cases hb

theorem files_of_start {s : Recorder} {tape : Tape UInt8 UInt32} (h : Refines s tape)
    {audioStart : Int} (haccepted : audioStart = 0 ∨ audioStart = -ealready)
    {time start : UInt32} {calls : List Call} {bufs : List BlockBuf}
    (hcalls : Along step NoFailure s (.start audioStart time :: calls))
    (hroom : Along step NoRollOver s (.start audioStart time :: calls))
    (hquiet : ∀ call ∈ calls, NoCommand call)
    (hstream : calls.filterMap bufferedBlock = contiguous start bufs) (hne : bufs ≠ [])
    (hreached : (ahead time start).toNat ≤ 1200000 * bufs.length) :
    (run step s (.start audioStart time :: calls)).fs.files.map dataOf =
      tape.done ++ (tape.phase.current.map
        (· ++ (streamBytes bufs).take (startOffset (ahead time start).toNat))).toList ++
      [(streamBytes bufs).drop (startOffset (ahead time start).toNat)] := by
  have hboth := along_and hcalls hroom
  have hstarted : Refines (step s (.start audioStart time)) ⟨tape.done,
      .waiting time tape.phase.current⟩ := by
    have hstep := refines_step s tape (.start audioStart time) h trivial
    simp only [input, if_pos haccepted, Tape.step, start_eq_waiting] at hstep
    exact hstep
  have hinputs : ∀ i ∈ calls.map input, i.Quiet := by
    intro i hi
    obtain ⟨call, hmem, rfl⟩ := List.mem_map.mp hi
    exact input_quiet (hquiet call hmem)
  have hfits := along_of_simulation (C := fun s call => NoFailure s call ∧ NoRollOver s call)
    (fun s t call hst hcall => refines_step s t call hst hcall.1)
    (fun s t call hst hcall => fits_of_noRollOver hst hcall.2) hstarted hboth.2
  have hblocks := along_quiet hinputs hfits
  have hrefines := simulation_run refines_step hstarted hcalls.2
  rw [run_quiet maxDataSize hinputs] at hrefines
  rw [filterMap_input_block, hstream] at hblocks hrefines
  rw [contiguous_run hne hreached hblocks] at hrefines
  exact hrefines.takes

theorem startsOnTime_iff {s : Recorder} {tape : Tape UInt8 UInt32} (h : Refines s tape)
    {audioStart : Int} (haccepted : audioStart = 0 ∨ audioStart = -ealready)
    {time start : UInt32} {calls : List Call} {bufs : List BlockBuf}
    (hcalls : Along step NoFailure s (.start audioStart time :: calls))
    (hroom : Along step NoRollOver s (.start audioStart time :: calls))
    (hquiet : ∀ call ∈ calls, NoCommand call)
    (hstream : calls.filterMap bufferedBlock = contiguous start bufs) (hne : bufs ≠ [])
    (hreached : (ahead time start).toNat ≤ 1200000 * bufs.length) :
    StartsOnTime time start (streamBytes bufs) s
        (run step s (.start audioStart time :: calls)) ↔
      (ahead time start).toNat % 1000 ≤ 166 ∨ 834 ≤ (ahead time start).toNat % 1000 := by
  have hfiles := files_of_start h haccepted hcalls hroom hquiet hstream hne hreached
  have hsize : recordFileFormat.bytesPerFrame.toNat = 4 := rfl
  have hlen := length_streamBytes bufs
  have hinside : startOffset (ahead time start).toNat ≤ (streamBytes bufs).length := by
    rw [hlen, startOffset]
    omega
  rw [← startOffset_frame_iff]
  constructor
  · rintro ⟨_, frame, htime, hframe, hlast⟩
    rw [hfiles, List.getLast?_concat] at hlast
    have hdrop := congrArg List.length (Option.some.inj hlast)
    simp only [List.length_drop, hsize] at hdrop hframe
    exact ⟨frame, by omega, (onTime_iff time start frame).mp htime⟩
  · rintro ⟨frame, hoffset, htime⟩
    refine ⟨?_, frame, (onTime_iff time start frame).mpr htime, ?_, ?_⟩
    · have hsLen := congrArg List.length h.holds.files
      have htLen := congrArg List.length hfiles
      rw [List.length_map] at hsLen htLen
      rw [htLen, hsLen]
      cases tape.phase.current <;> simp
    · rw [hsize, ← hoffset]
      exact hinside
    · rw [hfiles, List.getLast?_concat, hsize, ← hoffset]

/-- A start that was asked for is at the nearest frame if and only if its time
is past, or the distance to it is within 166 ticks of a multiple of 1000: the
audio thread passes six bytes per frame, the file has four. -/
theorem startsOnTime_run_iff (card : Card) (settings : Option (List Char)) (io : InitIo)
    (before : List Call) {calls : List Call} {audioStart : Int} {time start : UInt32}
    {bufs : List BlockBuf}
    (hcalls : Along step NoFailure (initial card settings io)
      (before ++ .start audioStart time :: calls))
    (hroom : Along step NoRollOver (run step (initial card settings io) before)
      (.start audioStart time :: calls))
    (haccepted : audioStart = 0 ∨ audioStart = -ealready)
    (hquiet : ∀ call ∈ calls, NoCommand call)
    (hstream : calls.filterMap bufferedBlock = contiguous start bufs) (hne : bufs ≠ [])
    (hreached : (ahead time start).toNat ≤ 1200000 * bufs.length) :
    StartsOnTime time start (streamBytes bufs) (run step (initial card settings io) before)
        (run step (initial card settings io) (before ++ .start audioStart time :: calls)) ↔
      2 ^ 31 ≤ (time - start).toNat ∨ (time - start).toNat % 1000 ≤ 166 ∨
        834 ≤ (time - start).toNat % 1000 := by
  obtain ⟨hbefore, hrest⟩ := (along_append step NoFailure _ _ _).mp hcalls
  rw [run_append, startsOnTime_iff (refines_run card settings io hbefore) haccepted hrest hroom
    hquiet hstream hne hreached, toNat_ahead]
  split <;> omega

theorem silent_start (time start : UInt32) :
    Along step NoFailure (initial emptyCard none {})
        [.start 0 time, .buffer {} (threadBlock silence start)] ∧
      Along step NoRollOver (initial emptyCard none {})
        [.start 0 time, .buffer {} (threadBlock silence start)] := by
  have hfits : (threadBlock silence start).buf.length ≤ maxDataSize := by
    rw [← AudioBlock.toNat_len, length_threadBlock]
    decide
  refine ⟨⟨trivial, ⟨rfl, rfl, ⟨rfl, fun _ _ => rfl⟩, rfl, hfits⟩, trivial⟩, trivial, ?_, trivial⟩
  intro split hswitch hold
  rcases (recordSwitch_oldFile hswitch).mp hold with hstate | hstate <;> cases hstate

/-- A start 500100 ticks into the first block, behind the wraparound of the time. -/
theorem startsOnTime_run_wrapping :
    StartsOnTime 432804 4294900000 (streamBytes [silence]) (initial emptyCard none {})
      (run step (initial emptyCard none {})
        [.start 0 432804, .buffer {} (threadBlock silence 4294900000)]) :=
  (startsOnTime_run_iff emptyCard none {} [] (silent_start 432804 4294900000).1
    (silent_start 432804 4294900000).2 (Or.inl rfl) (by simp [NoCommand]) rfl (by simp)
    (by decide)).mpr (by decide)

/-- A start in the middle between two even frames of the audio thread. -/
theorem not_startsOnTime_of_odd_frame :
    ¬ ∀ (card : Card) (settings : Option (List Char)) (io : InitIo)
      (before calls : List Call) (audioStart : Int) (time start : UInt32) (bufs : List BlockBuf),
      Along step NoFailure (initial card settings io)
        (before ++ .start audioStart time :: calls) →
      Along step NoRollOver (run step (initial card settings io) before)
        (.start audioStart time :: calls) →
      (audioStart = 0 ∨ audioStart = -ealready) → (∀ call ∈ calls, NoCommand call) →
      calls.filterMap bufferedBlock = contiguous start bufs → bufs ≠ [] →
      (ahead time start).toNat ≤ 1200000 * bufs.length →
      StartsOnTime time start (streamBytes bufs) (run step (initial card settings io) before)
        (run step (initial card settings io) (before ++ .start audioStart time :: calls)) := by
  intro h
  obtain ⟨hcalls, hroom⟩ := silent_start 500 0
  have hquiet : ∀ call ∈ [Call.buffer {} (threadBlock silence 0)], NoCommand call := by
    simp [NoCommand]
  have hreached : (ahead 500 0).toNat ≤ 1200000 * [silence].length := by decide
  have hstarts := h emptyCard none {} [] [.buffer {} (threadBlock silence 0)] 0 500 0 [silence]
    hcalls hroom (Or.inl rfl) hquiet rfl (by simp) hreached
  have hiff := (startsOnTime_iff (refines_initial emptyCard none {}) (Or.inl rfl) hcalls hroom
    hquiet rfl (by simp) hreached).mp hstarts
  exact absurd hiff (by decide)

end ZeusLe.RecordTiming
