import ZeusLe.RecordStream

/-!
No sample is lost, duplicated or reordered while a recording goes on: the files
together hold the blocks from the first split point on.
-/

namespace ZeusLe.RecordContinuity

open ZeusLe.FileSystem
open ZeusLe.WavFile
open ZeusLe.Library.Run
open ZeusLe.Library.Word
open ZeusLe.Library.Takes
open ZeusLe.Record
open ZeusLe.RecordLifecycle
open ZeusLe.RecordStream

def received : Call → List UInt8
  | .buffer _ block => block.buf
  | _ => []

/-- Calls that do not end a recording. -/
def Continues : Call → Prop
  | .stop _ | .shutdown _ => False
  | _ => True

/-- Where the file of a waiting recorder starts in the block. -/
def firstOffset (data : RecordData) (block : AudioBlock) : Nat :=
  (block.splitOffset (ahead data.startTime block.startTime)).toNat

theorem input_continues {call : Call} (h : Continues call) : (input call).Continues := by
  cases call with
  | start audioStart time =>
      simp only [input]
      split <;> trivial
  | stop io => exact h.elim
  | shutdown io => exact h.elim
  | _ => trivial

theorem input_symbols (call : Call) : (input call).symbols = received call := by
  cases call with
  | start audioStart time =>
      simp only [input]
      split <;> rfl
  | _ => rfl

theorem flatMap_input_symbols (calls : List Call) :
    (calls.map input).flatMap Input.symbols = calls.flatMap received := by
  rw [List.flatMap_map]
  simp only [input_symbols]

theorem eq_waitingStart_of_state {s : Recorder} {tape : Tape UInt8 UInt32} (h : Refines s tape)
    (hstate : s.data.state = .waitingStart) :
    tape = ⟨tape.done, .waitingStart s.data.startTime⟩ := by
  have hphase := h.phase
  rcases tape with ⟨done, _ | time | ⟨time, current⟩ | current⟩ <;>
    simp only [InPhase, hstate, reduceCtorEq, false_and, true_and] at hphase
  rw [hphase]

theorem cutAt_of_created {s : Recorder} {done : List (List UInt8)} {block : AudioBlock}
    {bufferIo : BufferIo}
    (h : Refines s ⟨done, .waitingStart s.data.startTime⟩)
    (hio : BufferSucceeds bufferIo block)
    (hcreated : s.fs.files.length < (step s (.buffer bufferIo block)).fs.files.length) :
    cutAt block s.data.startTime = some (firstOffset s.data block) := by
  simp only [cutAt]
  split
  · rfl
  · rename_i hwait
    have hnone : cutAt block s.data.startTime = none := by
      simp only [cutAt, if_neg hwait]
    have hstep := (refines_recordBuffer h hio).2.holds.files
    simp only [Tape.block, hnone] at hstep
    have hsame : (recordBuffer bufferIo block s).2.fs.files.length = s.fs.files.length := by
      rw [← List.length_map (f := dataOf), hstep, ← h.holds.files, List.length_map]
    simp only [step, hsame] at hcreated
    exact absurd hcreated (Nat.lt_irrefl _)

theorem length_bytes {f : File} (hheader : wavHeaderSize.toNat ≤ f.bytes.length) :
    f.bytes.length = wavHeaderSize.toNat + (dataOf f).length := by
  rw [dataOf, List.length_drop]
  omega

theorem received_fits {s : Recorder} {calls : List Call} (hcalls : Along step NoFailure s calls) :
    ∀ call ∈ calls, (received call).length ≤ maxDataSize := by
  induction calls generalizing s with
  | nil => simp
  | cons call calls ih =>
      obtain ⟨hcall, hrest⟩ := hcalls
      intro call' hmem
      rcases List.mem_cons.mp hmem with rfl | hmem
      · cases call' with
        | buffer io block => exact BufferSucceeds.fits hcall
        | _ => exact Nat.zero_le _
      · exact ih hrest call' hmem

theorem within_limits (card : Card) (settings : Option (List Char)) (io : InitIo)
    {calls : List Call} (hcalls : Along step NoFailure (initial card settings io) calls) :
    ∀ f ∈ (run step (initial card settings io) calls).fs.files,
      (dataOf f).length ≤ maxDataSize ∧
        f.bytes.length ≤ recordFileFormat.maxFileSize.toNat := by
  intro f hf
  have hrefines := refines_run card settings io hcalls
  have hbounded : (run (Tape.step maxDataSize) ⟨[], .stopped⟩ (calls.map input)).Bounded
      maxDataSize := by
    apply bounded_run
    · simp [Tape.Bounded, Tape.takes, Phase.current]
    · intro i hi
      obtain ⟨call, hmem, rfl⟩ := List.mem_map.mp hi
      rw [input_symbols]
      exact received_fits hcalls call hmem
  have hdata : (dataOf f).length ≤ maxDataSize := by
    apply hbounded
    rw [← hrefines.takes]
    exact List.mem_map_of_mem hf
  refine ⟨hdata, ?_⟩
  rw [length_bytes (hrefines.holds.headers f hf)]
  calc
    wavHeaderSize.toNat + (dataOf f).length
      ≤ wavHeaderSize.toNat + maxDataSize := Nat.add_le_add_left hdata _
    _ ≤ recordFileFormat.maxFileSize.toNat := by decide

/-- From the block on that creates a file out of `waitingStart`, all bytes go to
the files, in order, until the recording is stopped; no file exceeds its limit. -/
theorem continuity_run (card : Card) (settings : Option (List Char)) (io : InitIo)
    {before after : List Call} {bufferIo : BufferIo} {block : AudioBlock}
    (hcalls : Along step NoFailure (initial card settings io)
      (before ++ .buffer bufferIo block :: after))
    (hwaiting : (run step (initial card settings io) before).data.state = .waitingStart)
    (hcreated : (run step (initial card settings io) before).fs.files.length <
      (run step (initial card settings io) (before ++ [.buffer bufferIo block])).fs.files.length)
    (hafter : ∀ call ∈ after, Continues call) :
    let s := run step (initial card settings io) before
    let t := run step (initial card settings io) (before ++ .buffer bufferIo block :: after)
    ((t.fs.files.drop s.fs.files.length).map dataOf).flatten =
        block.buf.drop (firstOffset s.data block) ++ after.flatMap received ∧
      ∀ f ∈ t.fs.files, (dataOf f).length ≤ maxDataSize ∧
        f.bytes.length ≤ recordFileFormat.maxFileSize.toNat := by
  intro s t
  refine ⟨?_, within_limits card settings io hcalls⟩
  obtain ⟨hbefore, hbuffer, _⟩ := (along_append step NoFailure _ _ _).mp hcalls
  have hs : Refines s _ := refines_run card settings io hbefore
  generalize run (Tape.step maxDataSize) ⟨[], .stopped⟩ (before.map input) = tape at hs
  have ht : Refines t (run (Tape.step maxDataSize) tape
      ((.buffer bufferIo block :: after).map input)) := by
    have hrun : t = run step s (.buffer bufferIo block :: after) := run_append _ _ _ _
    rw [hrun]
    exact simulation_run refines_step hs ((along_append step NoFailure _ _ _).mp hcalls).2
  have htape := eq_waitingStart_of_state hs hwaiting
  rw [htape] at hs ht
  have hcut := cutAt_of_created hs hbuffer (by
    rw [run_append] at hcreated
    exact hcreated)
  have hlen : s.fs.files.length = tape.done.length := by
    rw [← List.length_map (f := dataOf), hs.holds.files]
    simp [Phase.current]
  rw [List.map_drop, ht.takes, hlen, List.map_cons, run_cons]
  simp only [input, Tape.step, Tape.block, hcut]
  rw [flatten_drop_takes_run maxDataSize rfl, flatMap_input_symbols]
  intro i hi
  obtain ⟨call, hmem, rfl⟩ := List.mem_map.mp hi
  exact input_continues (hafter call hmem)

theorem continuity_run_short_blocks :
    let s := run step (initial emptyCard none {}) [.start 0 50]
    let t := run step (initial emptyCard none {})
      ([.start 0 50] ++ .buffer {} shortBlock :: [.buffer {} shortBlock])
    ((t.fs.files.drop s.fs.files.length).map dataOf).flatten =
        shortBlock.buf.drop (firstOffset s.data shortBlock) ++
          [Call.buffer {} shortBlock].flatMap received ∧
      ∀ f ∈ t.fs.files, (dataOf f).length ≤ maxDataSize ∧
        f.bytes.length ≤ recordFileFormat.maxFileSize.toNat := by
  have hblock : BufferSucceeds {} shortBlock :=
    ⟨rfl, rfl, ⟨rfl, fun _ _ => rfl⟩, rfl, by decide⟩
  refine continuity_run emptyCard none {} ⟨trivial, hblock, hblock, trivial⟩ rfl (by decide) ?_
  intro call hcall
  rw [List.mem_singleton.mp hcall]
  trivial

end ZeusLe.RecordContinuity
