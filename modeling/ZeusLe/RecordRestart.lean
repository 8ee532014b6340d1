import ZeusLe.Audio
import ZeusLe.RecordContinuity

/-!
A restart of a recording in progress: when the file that `record_start` asked
for really begins at its time.
-/

namespace ZeusLe.RecordRestart

open ZeusLe.FileSystem
open ZeusLe.WavFile
open ZeusLe.Library.Run
open ZeusLe.Library.Word
open ZeusLe.Library.Takes
open ZeusLe.Record
open ZeusLe.RecordLifecycle
open ZeusLe.RecordStream
open ZeusLe.RecordContinuity
open ZeusLe.Audio

theorem trace_prefix_closeThreadRun (s : Recorder) (io : WavCloseIo) :
    s.trace <+: (recordCloseThreadRun s io).trace := by
  simp only [recordCloseThreadRun]
  split
  · exact List.prefix_refl _
  · exact List.prefix_append _ _

theorem trace_prefix_closeThread (rounds : List WavCloseIo) (s : Recorder) :
    s.trace <+: (closeThread rounds s).trace := by
  apply closeThread_keeps (P := fun t => s.trace <+: t.trace)
  · intro t io ht
    exact ht.trans (trace_prefix_closeThreadRun t io)
  · exact List.prefix_refl _

theorem trace_prefix_recordCloseFile (io : CloseFileIo) (s : Recorder) :
    s.trace <+: (recordCloseFile io s).trace := by
  refine (trace_prefix_closeThread io.before s).trans ?_
  simp only [recordCloseFile]
  split
  · exact List.prefix_append _ _
  · split
    · exact List.prefix_append _ _
    · exact (trace_prefix_closeThreadRun _ io.room).trans (List.prefix_append _ _)

theorem trace_prefix_writeFile (o : Outcome) (buf : List UInt8) (len : UInt32) (s : Recorder) :
    s.trace <+: (writeFile o buf len s).2.trace :=
  List.prefix_append _ _

theorem trace_prefix_openFile (io : WavOpenIo) (s : Recorder) :
    s.trace <+: (openFile io s).2.trace :=
  List.prefix_append _ _

theorem trace_prefix_bufferFileError (io : BufferIo) (ret : Int) (s : Recorder) :
    s.trace <+: (bufferFileError io ret s).2.trace :=
  trace_prefix_recordCloseFile io.errorCloseFile s

theorem trace_prefix_bufferOldFile (io : BufferIo) (block : AudioBlock) (split : Split)
    (s : Recorder) : s.trace <+: (bufferOldFile io block split s).2.trace := by
  refine ((trace_prefix_closeThread io.beforeWrite s).trans
    (trace_prefix_writeFile io.write block.buf split.splitOffset _)).trans ?_
  simp only [bufferOldFile]
  split
  · exact List.prefix_refl _
  · split
    · split <;> exact trace_prefix_closeThread io.beforeSync _
    · exact List.prefix_refl _

theorem trace_prefix_writeNewFile (io : BufferIo) (block : AudioBlock) (split : Split)
    (s : Recorder) : s.trace <+: (writeNewFile io block split s).2.trace := by
  refine ((trace_prefix_closeThread io.beforeNewWrite s).trans
    (trace_prefix_writeFile io.newWrite (block.buf.drop split.splitOffset.toNat)
      (block.len - split.splitOffset) _)).trans ?_
  simp only [writeNewFile]
  split
  · exact trace_prefix_bufferFileError io _ _
  · exact List.prefix_refl _

theorem trace_prefix_bufferNewFile (io : BufferIo) (block : AudioBlock) (split : Split)
    (s : Recorder) : s.trace <+: (bufferNewFile io block split s).2.trace := by
  have hclosed :
      s.trace <+: (if split.oldFile then recordCloseFile io.closeFile s else s).trace := by
    split
    · exact trace_prefix_recordCloseFile io.closeFile s
    · exact List.prefix_refl _
  refine hclosed.trans ?_
  simp only [bufferNewFile]
  generalize (if split.oldFile then recordCloseFile io.closeFile s else s) = t
  split
  · exact List.prefix_refl _
  · have hopened := (trace_prefix_closeThread io.beforeOpen
      (t.setLastSyncTimeMs io.newUptimeMs)).trans (trace_prefix_openFile io.wavOpen _)
    split
    · exact hopened.trans (trace_prefix_bufferFileError io _ _)
    · exact hopened.trans (trace_prefix_writeNewFile io block split
        (openFile io.wavOpen (closeThread io.beforeOpen
          (t.setLastSyncTimeMs io.newUptimeMs))).2.nextFileIndex)

theorem trace_prefix_recordBuffer (io : BufferIo) (block : AudioBlock) (s : Recorder) :
    s.trace <+: (recordBuffer io block s).2.trace := by
  simp only [recordBuffer]
  split
  · exact List.prefix_refl _
  · split
    · exact List.prefix_refl _
    · rename_i split' _
      have hled : (if split'.newFile then s.setLed .running else s).trace = s.trace := by
        split <;> rfl
      generalize (if split'.newFile then s.setLed .running else s) = t at hled ⊢
      have hold : s.trace <+: (if split'.oldFile then bufferOldFile io block split' t
          else (.ok split', t)).2.trace := by
        rw [← hled]
        split
        · exact trace_prefix_bufferOldFile io block split' t
        · exact List.prefix_refl _
      split
      · exact hold.trans (trace_prefix_bufferFileError io _ _)
      · split
        · exact hold.trans (trace_prefix_bufferNewFile io block _ _)
        · exact hold

/-- Calls before a block contains `time`, none of them a command. -/
def Waits (time : UInt32) : Call → Prop
  | .buffer _ block => cutAt block time = none
  | .start _ _ | .stop _ | .shutdown _ => False
  | _ => True

/-- From `s` to `t` the current file is closed after the first `n` bytes of the
block, and a new one begins with the rest. -/
structure RestartsAt (n : Nat) (block : AudioBlock) (s t : Recorder) : Prop where
  data : ∃ older current, s.fs.files.map dataOf = older ++ [current] ∧
    t.fs.files.map dataOf = older ++ [current ++ block.buf.take n, block.buf.drop n]
  closed : s.data.file.fp ∈ handedOver t

theorem mem_handedOver_of_ne {s t : Recorder} (hs : Custody true s) (ht : Custody true t)
    (htrace : s.trace <+: t.trace) (hne : t.data.file.fp ≠ s.data.file.fp) :
    s.data.file.fp ∈ handedOver t := by
  have hopened : s.data.file.fp ∈ (opened s).map some :=
    hs.ledger.mem_iff.mp (List.mem_append_right _ (List.mem_singleton_self _))
  have hsub : opened s <+: opened t := htrace.filterMap opensHandle
  have hmem := ht.ledger.mem_iff.mpr ((hsub.map some).subset hopened)
  rcases List.mem_append.mp hmem with hhanded | hcurrent
  · exact hhanded
  · exact absurd (List.mem_singleton.mp hcurrent).symm hne

theorem fp_eq_of_holds {s : Recorder} {done : List (List UInt8)} {current : List UInt8}
    (h : Holds s done (some current)) : s.data.file.fp = some (s.fs.files.length - 1) := by
  obtain ⟨_, init, f, hfiles, _, _, hfile⟩ := h.current current rfl
  rw [hfile, hfiles, List.length_append, List.length_singleton, Nat.add_sub_cancel]
  rfl

theorem restartsAt_iff_cutsAt {s : Recorder} {tape : Tape UInt8 UInt32} (h : Refines s tape)
    (hcurrent : tape.phase.current.isSome) {io : BufferIo} {block : AudioBlock}
    (hio : BufferSucceeds io block) (n : Nat) :
    RestartsAt n block s (step s (.buffer io block)) ↔
      tape.CutsAt maxDataSize (streamBlock block) n := by
  obtain ⟨current, hsome⟩ := Option.isSome_iff_exists.mp hcurrent
  have hnext := (refines_recordBuffer h hio).2
  have hs : s.fs.files.map dataOf = tape.done ++ [current] := by
    rw [h.holds.files, hsome]
    rfl
  have ht : (step s (.buffer io block)).fs.files.map dataOf =
      (tape.block maxDataSize (streamBlock block)).takes := hnext.takes
  constructor
  · rintro ⟨⟨older, current', hold, hnew⟩, _⟩
    rw [hs] at hold
    obtain ⟨rfl, hlast⟩ := List.append_inj' hold rfl
    obtain rfl := List.singleton_inj.mp hlast
    exact ⟨current, hsome, by rw [← ht, hnew]⟩
  · rintro ⟨current', hcurrent', htakes⟩
    obtain rfl := Option.some.inj (hcurrent'.symm.trans hsome)
    rw [htakes] at ht
    refine ⟨⟨tape.done, current', hs, ht⟩, ?_⟩
    have hholds : Holds s tape.done (some current') := hsome ▸ h.holds
    obtain ⟨next, hnextCurrent⟩ := Option.isSome_iff_exists.mp
      (current_isSome_block maxDataSize hcurrent (streamBlock block))
    have hnextHolds : Holds (step s (.buffer io block)) _ (some next) :=
      hnextCurrent ▸ hnext.holds
    refine mem_handedOver_of_ne hholds.custody hnextHolds.custody
      (trace_prefix_recordBuffer io block s) ?_
    have hlen : (step s (.buffer io block)).fs.files.length = s.fs.files.length + 1 := by
      have hsLen := congrArg List.length hs
      have htLen := congrArg List.length ht
      simp only [List.length_map, List.length_append, List.length_cons, List.length_nil]
        at hsLen htLen
      omega
    have hpos : 0 < s.fs.files.length := by
      rw [← List.length_map (f := dataOf), hs]
      simp
    rw [fp_eq_of_holds hholds, fp_eq_of_holds hnextHolds, hlen]
    intro heq
    have := Option.some.inj heq
    omega

theorem input_misses {time : UInt32} {call : Call} (h : Waits time call) :
    (input call).Misses time := by
  cases call with
  | buffer io block => exact h
  | start audioStart time => exact h.elim
  | stop io => exact h.elim
  | shutdown io => exact h.elim
  | _ => trivial

theorem restartsAt_iff {s : Recorder} {tape : Tape UInt8 UInt32} (h : Refines s tape)
    (hrec : Recording s) {audioStart : Int} (haccepted : audioStart = 0 ∨ audioStart = -ealready)
    {time : UInt32} {waiting : List Call} {io : BufferIo} {block : AudioBlock} {n total : Nat}
    (hcalls : Along step NoFailure s (.start audioStart time :: waiting ++ [.buffer io block]))
    (hwaiting : ∀ call ∈ waiting, Waits time call) (hreached : cutAt block time = some n)
    (htotal : total = (currentData s).length + (waiting.flatMap received).length) :
    RestartsAt n block (run step s (.start audioStart time :: waiting))
        (run step s (.start audioStart time :: waiting ++ [.buffer io block])) ↔
      total + n ≤ maxDataSize ∨
        (maxDataSize < total ∧ maxDataSize ∣ total + n ∧ n < block.buf.length) := by
  obtain ⟨current, hsome, hdata⟩ := current_of_recording h hrec
  obtain ⟨hbefore, hbuffer, _⟩ := (along_append step NoFailure _ _ _).mp hcalls
  have hstarted := simulation_run refines_step h hbefore
  have hphase : tape.start time = ⟨tape.done, .waitingNewTake time current⟩ := by
    rcases tape with ⟨done, _ | time' | ⟨time', cur⟩ | cur⟩
    · cases hsome
    · cases hsome
    · obtain rfl := Option.some.inj hsome
      rfl
    · obtain rfl := Option.some.inj hsome
      rfl
  simp only [List.map_cons, input, if_pos haccepted, run_cons, Tape.step, hphase] at hstarted
  have hbounded : current.length ≤ maxDataSize := ((hsome ▸ h.holds).current current rfl).bounded
  have hmisses : ∀ i ∈ waiting.map input, i.Misses time ∧ i.symbols.length ≤ maxDataSize := by
    intro i hi
    obtain ⟨call, hmem, rfl⟩ := List.mem_map.mp hi
    refine ⟨input_misses (hwaiting call hmem), ?_⟩
    rw [input_symbols]
    exact received_fits hbefore call (List.mem_cons_of_mem _ hmem)
  have hinside : n ≤ block.buf.length := by
    simp only [cutAt] at hreached
    split at hreached
    · rename_i hwait
      have hle := splitOffset_le block hwait
      rw [UInt32.le_iff_toNat_le, AudioBlock.toNat_len] at hle
      exact (Option.some.inj hreached).symm.trans_le hle
    · cases hreached
  have hsomeRun : (run (Tape.step maxDataSize) ⟨tape.done, .waitingNewTake time current⟩
      (waiting.map input)).phase.current.isSome := by
    rcases waitingNewTake_run hmisses tape.done hbounded with ⟨_, hrun⟩ | ⟨_, _, _, hrun, _⟩ <;>
      rw [hrun] <;> rfl
  rw [run_append]
  have hiff := restartsAt_iff_cutsAt hstarted hsomeRun hbuffer n
  refine hiff.trans (cutsAt_run_iff hmisses tape.done hbounded hreached hinside
    (BufferSucceeds.fits hbuffer) ?_)
  rw [flatMap_input_symbols, htotal, hdata]

/-- A restart of a recording in progress happens at its time if and only if the
bytes up to there still fit into the file that is current when it is asked for,
or a roll-over falls on the very same byte. -/
theorem restart_run_iff (card : Card) (settings : Option (List Char)) (io : InitIo)
    (before waiting : List Call) {audioStart : Int} {time : UInt32} {bufferIo : BufferIo}
    {block : AudioBlock} {n : Nat}
    (hcalls : Along step NoFailure (initial card settings io)
      (before ++ (.start audioStart time :: waiting ++ [.buffer bufferIo block])))
    (hrecording : Recording (run step (initial card settings io) before))
    (haccepted : audioStart = 0 ∨ audioStart = -ealready)
    (hwaiting : ∀ call ∈ waiting, Waits time call) (hreached : cutAt block time = some n) :
    let s := run step (initial card settings io) before
    let total := (currentData s).length + (waiting.flatMap received).length
    RestartsAt n block (run step s (.start audioStart time :: waiting))
        (run step s (.start audioStart time :: waiting ++ [.buffer bufferIo block])) ↔
      total + n ≤ maxDataSize ∨
        (maxDataSize < total ∧ maxDataSize ∣ total + n ∧ n < block.buf.length) := by
  intro s total
  obtain ⟨hbefore, hrest⟩ := (along_append step NoFailure _ _ _).mp hcalls
  exact restartsAt_iff (refines_run card settings io hbefore) hrecording haccepted hrest
    hwaiting hreached rfl

theorem restart_run_iff_short_blocks :
    let s := run step (initial emptyCard none {}) [.start 0 0, .buffer {} shortBlock]
    let total := (currentData s).length + (([] : List Call).flatMap received).length
    RestartsAt 8 shortBlock (run step s [.start 0 50])
        (run step s ([.start 0 50] ++ [.buffer {} shortBlock])) ↔
      total + 8 ≤ maxDataSize ∨
        (maxDataSize < total ∧ maxDataSize ∣ total + 8 ∧ 8 < shortBlock.buf.length) := by
  have hblock : BufferSucceeds {} shortBlock :=
    ⟨rfl, rfl, ⟨rfl, fun _ _ => rfl⟩, rfl, by decide⟩
  exact restart_run_iff emptyCard none {} [.start 0 0, .buffer {} shortBlock] []
    ⟨trivial, hblock, trivial, hblock, trivial⟩ (by decide) (Or.inl rfl) (by simp) rfl

def silentBlock (i : Nat) : AudioBlock :=
  threadBlock silence (UInt32.ofNat (i * 1200000))

def longRecording (n : Nat) : List Call :=
  .start 0 0 :: .buffer {} (silentBlock 0) ::
    (List.range n).map fun i => .buffer {} (silentBlock (i + 1))

theorem length_silentBlock (i : Nat) : (silentBlock i).buf.length = 14400 :=
  List.length_replicate

theorem cutAt_silentBlock_zero : cutAt (silentBlock 0) 0 = some 0 := by
  have hahead : ahead 0 (silentBlock 0).startTime = 0 := rfl
  have hwait : (0 : UInt32) ≤ (silentBlock 0).duration := by decide
  simp only [cutAt, hahead, if_pos hwait, AudioBlock.splitOffset, UInt32.zero_mul,
    divRoundClosest_zero, UInt32.toNat_zero]

theorem silentBlock_succeeds (i : Nat) : BufferSucceeds {} (silentBlock i) where
  write := rfl
  sync := rfl
  wavOpen := ⟨rfl, fun _ _ => rfl⟩
  newWrite := rfl
  fits := by
    rw [length_silentBlock]
    decide

theorem longRecording_noFailure (n : Nat) (s : Recorder) :
    Along step NoFailure s (longRecording n) := by
  apply along_of_forall
  intro call hcall t
  simp only [longRecording, List.mem_cons, List.mem_map, List.mem_range] at hcall
  rcases hcall with rfl | rfl | ⟨i, _, rfl⟩
  · trivial
  · exact silentBlock_succeeds 0
  · exact silentBlock_succeeds (i + 1)

theorem longRecording_run {n : Nat} (hn : (n + 1) * 14400 ≤ maxDataSize) :
    let s := run step (initial emptyCard none {}) (longRecording n)
    ∃ tape, Refines s tape ∧ Recording s ∧ (currentData s).length = (n + 1) * 14400 := by
  intro s
  have hrefines := refines_run emptyCard none {} (longRecording_noFailure n _)
  let later := ((List.range n).map fun i => Call.buffer {} (silentBlock (i + 1))).map input
  have hlater : ∀ i ∈ later, i.Quiet ∧ i.symbols.length ≤ maxDataSize := by
    intro i hi
    simp only [later, List.mem_map, List.mem_range] at hi
    obtain ⟨_, ⟨k, _, rfl⟩, rfl⟩ := hi
    exact ⟨trivial, (silentBlock_succeeds (k + 1)).fits⟩
  have hlength : (later.flatMap Input.symbols).length = n * 14400 := by
    simp only [later]
    rw [flatMap_input_symbols]
    simp [List.length_flatMap, Function.comp_def, received, length_silentBlock]
  have hfirst : run (Tape.step maxDataSize) ⟨[], .stopped⟩ ((longRecording n).map input) =
      run (Tape.step maxDataSize) ⟨[], .running (silentBlock 0).buf⟩ later := by
    simp only [longRecording, List.map_cons, run_cons, input, true_or, if_true, Tape.step,
      Tape.start, Tape.block, cutAt_silentBlock_zero, List.drop_zero]
    rfl
  have hremainder : Remainder maxDataSize 14400 (silentBlock 0).buf.length := by
    rw [length_silentBlock]
    exact ⟨by decide, by decide, 0, rfl⟩
  obtain ⟨done, current, hrun, hcurrent⟩ := running_run hlater [] hremainder
  rw [hfirst, hrun] at hrefines
  rw [hlength] at hcurrent
  refine ⟨_, hrefines, Or.inl hrefines.phase, ?_⟩
  have hdata : currentData s = current := by
    simp [currentData, s, hrefines.holds.files, Phase.current]
  rw [hdata, hcurrent.eq_total (by omega)]
  omega

/-- A file that fills up between the command and its time: after 149130 blocks
the next one rolls the file over, and the restart in the block behind it is lost. -/
theorem not_restart_of_rollOver :
    ¬ ∀ (card : Card) (settings : Option (List Char)) (io : InitIo)
      (before waiting : List Call) (audioStart : Int) (time : UInt32) (bufferIo : BufferIo)
      (block : AudioBlock) (n : Nat),
      Along step NoFailure (initial card settings io)
        (before ++ (.start audioStart time :: waiting ++ [.buffer bufferIo block])) →
      Recording (run step (initial card settings io) before) →
      (audioStart = 0 ∨ audioStart = -ealready) → (∀ call ∈ waiting, Waits time call) →
      cutAt block time = some n →
      RestartsAt n block
        (run step (run step (initial card settings io) before) (.start audioStart time :: waiting))
        (run step (run step (initial card settings io) before)
          (.start audioStart time :: waiting ++ [.buffer bufferIo block])) := by
  intro h
  have hmax : maxDataSize = 2147483600 := rfl
  let time : UInt32 := UInt32.ofNat (149131 * 1200000 + 600000)
  obtain ⟨tape, hrefines, hrecording, hlength⟩ := longRecording_run (n := 149129) (by decide)
  have hrest : ∀ s, Along step NoFailure s
      (.start 0 time :: [.buffer {} (silentBlock 149130)] ++ [.buffer {} (silentBlock 149131)]) :=
    fun _ => ⟨trivial, silentBlock_succeeds _, silentBlock_succeeds _, trivial⟩
  have hwaits : ∀ call ∈ [Call.buffer {} (silentBlock 149130)], Waits time call := by
    intro call hcall
    rw [List.mem_singleton.mp hcall]
    exact if_neg (by decide)
  have hreached : cutAt (silentBlock 149131) time = some _ := if_pos (by decide)
  have hkept := h emptyCard none {} (longRecording 149129) [.buffer {} (silentBlock 149130)] 0 time {}
    (silentBlock 149131) _
    ((along_append step NoFailure _ _ _).mpr ⟨longRecording_noFailure _ _, hrest _⟩)
    hrecording (Or.inl rfl) hwaits hreached
  have hiff := (restartsAt_iff hrefines hrecording (Or.inl rfl) (hrest _) hwaits hreached rfl).mp
    hkept
  rw [hlength] at hiff
  simp only [List.flatMap_cons, List.flatMap_nil, received, List.append_nil,
    length_silentBlock] at hiff
  rcases hiff with hle | ⟨_, ⟨k, hk⟩, hlt⟩
  · omega
  · rw [hmax] at hk
    omega

end ZeusLe.RecordRestart
