import Mathlib.Algebra.Order.Field.Basic
import Mathlib.Algebra.Order.Field.Rat
import Mathlib.Tactic.FieldSimp
import Mathlib.Tactic.Linarith
import ZeusLe.RecordTiming

/-!
The recordings of several nodes next to each other: nodes that are asked for the
same start time hold, byte for byte, what was sampled at the same time.
-/

namespace ZeusLe.RecordAlignment

open ZeusLe.FileSystem
open ZeusLe.Library.Run
open ZeusLe.Library.Takes
open ZeusLe.Library.Word
open ZeusLe.Protocol (zeusTimeNominalFreq)
open ZeusLe.Record
open ZeusLe.RecordLifecycle
open ZeusLe.RecordStream
open ZeusLe.RecordContinuity
open ZeusLe.RecordTiming
open ZeusLe.Audio
open ZeusLe.WavFile

/-- A byte of the stream lasts this many ticks of the central's clock. -/
def ticksPerByte : ℚ :=
  zeusTimeNominalFreq.toNat /
    (recordFileFormat.sampleRate.toNat * recordFileFormat.bytesPerFrame.toNat)

/-- A node that is asked for a recording from `time` on. Times are those of the
central's clock, without wraparound. -/
structure Node (time : ℕ) where
  card : Card
  settings : Option (List Char)
  io : InitIo
  before : List Call
  audioStart : Int
  calls : List Call
  bufs : List BlockBuf
  /-- The start time of the first block after the command. -/
  stamp : ℕ
  /-- When the bytes of the blocks were sampled. -/
  sampled : ℕ → ℚ
  noFailure : Along step NoFailure (initial card settings io)
    (before ++ .start audioStart (UInt32.ofNat time) :: calls)
  noRollOver : Along step NoRollOver (run step (initial card settings io) before)
    (.start audioStart (UInt32.ofNat time) :: calls)
  accepted : audioStart = 0 ∨ audioStart = -ealready
  noCommand : ∀ call ∈ calls, NoCommand call
  nonempty : bufs ≠ []
  stream : calls.filterMap bufferedBlock = contiguous (UInt32.ofNat stamp) bufs
  le_time : stamp ≤ time
  time_lt : time < stamp + 2 ^ 31
  reached : time ≤ stamp + 1200000 * bufs.length

namespace Node

variable {time : ℕ}

def bytes (n : Node time) : List UInt8 :=
  streamBytes n.bufs

def recorder (n : Node time) : Recorder :=
  run step (initial n.card n.settings n.io)
    (n.before ++ .start n.audioStart (UInt32.ofNat time) :: n.calls)

/-- What the last file of the node holds. -/
def recording (n : Node time) : Option (List UInt8) :=
  (n.recorder.fs.files.map dataOf).getLast?

/-- No byte is sampled further than `err` from the time that its block's start time
tells. -/
def Accurate (n : Node time) (err : ℚ) : Prop :=
  ∀ k < n.bytes.length, |n.sampled k - (n.stamp + k * ticksPerByte)| ≤ err

/-- The byte that the recording begins with. -/
def first (n : Node time) : ℕ :=
  startOffset (time - n.stamp)

theorem toNat_ahead_stamp (n : Node time) :
    (ahead (UInt32.ofNat time) (UInt32.ofNat n.stamp)).toNat = time - n.stamp := by
  have hle := n.le_time
  have hlt := n.time_lt
  have hsub : (UInt32.ofNat time - UInt32.ofNat n.stamp).toNat = time - n.stamp := by
    rw [UInt32.toNat_sub, UInt32.toNat_ofNat', UInt32.toNat_ofNat']
    omega
  rw [toNat_ahead, hsub]
  split
  · rfl
  · omega

theorem recording_eq (n : Node time) : n.recording = some (n.bytes.drop n.first) := by
  obtain ⟨hbefore, hcalls⟩ := (along_append step NoFailure _ _ _).mp n.noFailure
  have hreached := n.reached
  have hahead := n.toNat_ahead_stamp
  have hfiles := files_of_start (refines_run n.card n.settings n.io hbefore) n.accepted hcalls
    n.noRollOver n.noCommand n.stream n.nonempty (by omega)
  rw [recording, recorder, run_append, hfiles, List.getLast?_concat, hahead]
  rfl

theorem ticksPerByte_eq : ticksPerByte = 250 / 3 := by
  have hticks : zeusTimeNominalFreq.toNat = 16000000 := rfl
  have hrate : recordFileFormat.sampleRate.toNat = 48000 := rfl
  have hsize : recordFileFormat.bytesPerFrame.toNat = 4 := rfl
  rw [ticksPerByte, hticks, hrate, hsize]
  norm_num

theorem first_near (n : Node time) : |n.stamp + n.first * ticksPerByte - time| ≤ 250 := by
  obtain ⟨wait, hwait⟩ := Nat.exists_eq_add_of_le n.le_time
  have hfirst : n.first = 6 * ((wait + 250) / 500) := by
    have hsub : time - n.stamp = wait := by omega
    rw [first, startOffset, hsub]
  have hlow : 500 * ((wait + 250) / 500) ≤ wait + 250 := Nat.mul_div_le _ _
  have hhigh : wait ≤ 500 * ((wait + 250) / 500) + 250 := by omega
  have hlow' : (500 * ((wait + 250) / 500 : ℕ) : ℚ) ≤ wait + 250 := by exact_mod_cast hlow
  have hhigh' : (wait : ℚ) ≤ 500 * ((wait + 250) / 500 : ℕ) + 250 := by exact_mod_cast hhigh
  have htime : (time : ℚ) = n.stamp + wait := by exact_mod_cast hwait
  rw [hfirst, htime, ticksPerByte_eq, abs_le, Nat.cast_mul, Nat.cast_ofNat]
  constructor
  · linarith
  · linarith

theorem sampled_near {n : Node time} {err : ℚ} (hn : n.Accurate err) {i : ℕ}
    (hi : n.first + i < n.bytes.length) :
    |n.sampled (n.first + i) - (time + i * ticksPerByte)| ≤ 250 + err := by
  have hsampled := hn (n.first + i) hi
  have hfirst := n.first_near
  rw [abs_le] at hsampled hfirst ⊢
  push_cast at hsampled
  rw [add_mul] at hsampled
  constructor
  · linarith
  · linarith

end Node

/-- Byte by byte, the recordings of two nodes were sampled at most 500 ticks and the
errors of their time stamps apart. -/
theorem recordings_aligned {time : ℕ} (m n : Node time) {errM errN : ℚ} (hm : m.Accurate errM)
    (hn : n.Accurate errN) :
    ∃ k l, m.recording = some (m.bytes.drop k) ∧ n.recording = some (n.bytes.drop l) ∧
      ∀ i, k + i < m.bytes.length → l + i < n.bytes.length →
        |m.sampled (k + i) - n.sampled (l + i)| ≤ 500 + errM + errN := by
  refine ⟨m.first, n.first, m.recording_eq, n.recording_eq, ?_⟩
  intro i hi hi'
  have hnear := Node.sampled_near hm hi
  have hnear' := Node.sampled_near hn hi'
  rw [abs_le] at hnear hnear' ⊢
  constructor
  · linarith
  · linarith

theorem silent_time_lt (stamp : ℕ) : 1000 < stamp + 2 ^ 31 := by
  omega

theorem silent_reached (stamp : ℕ) : 1000 ≤ stamp + 1200000 * [silence].length := by
  rw [List.length_singleton]
  omega

theorem silent_noCommand (block : AudioBlock) : ∀ call ∈ [Call.buffer {} block], NoCommand call := by
  simp [NoCommand]

/-- A node with one block, sampled `late` ticks after what its start time tells. -/
def silentNode (stamp late : ℕ) (hstamp : stamp ≤ 1000) : Node 1000 where
  card := emptyCard
  settings := none
  io := {}
  before := []
  audioStart := 0
  calls := [.buffer {} (threadBlock silence (UInt32.ofNat stamp))]
  bufs := [silence]
  stamp := stamp
  sampled k := stamp + k * ticksPerByte + late
  noFailure := (silent_start (UInt32.ofNat 1000) (UInt32.ofNat stamp)).1
  noRollOver := (silent_start (UInt32.ofNat 1000) (UInt32.ofNat stamp)).2
  accepted := Or.inl rfl
  noCommand := silent_noCommand _
  nonempty := List.cons_ne_nil _ _
  stream := rfl
  le_time := hstamp
  time_lt := silent_time_lt stamp
  reached := silent_reached stamp

theorem silentNode_accurate (stamp late : ℕ) (hstamp : stamp ≤ 1000) :
    (silentNode stamp late hstamp).Accurate late := by
  intro k _
  have hdiff : (silentNode stamp late hstamp).sampled k - (stamp + k * ticksPerByte) = late :=
    add_sub_cancel_left _ _
  exact le_of_eq ((congrArg abs hdiff).trans (abs_of_nonneg (Nat.cast_nonneg late)))

theorem silent_recordings_aligned :
    ∃ k l, (silentNode 0 0 (by decide)).recording =
        some ((silentNode 0 0 (by decide)).bytes.drop k) ∧
      (silentNode 700 5 (by decide)).recording =
        some ((silentNode 700 5 (by decide)).bytes.drop l) ∧
      ∀ i, k + i < (silentNode 0 0 (by decide)).bytes.length →
        l + i < (silentNode 700 5 (by decide)).bytes.length →
          |(silentNode 0 0 (by decide)).sampled (k + i) -
            (silentNode 700 5 (by decide)).sampled (l + i)| ≤ 500 + (0 : ℕ) + (5 : ℕ) :=
  recordings_aligned _ _ (silentNode_accurate 0 0 _) (silentNode_accurate 700 5 _)

end ZeusLe.RecordAlignment
