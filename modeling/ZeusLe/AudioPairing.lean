import Mathlib.Data.List.Basic
import ZeusLe.Audio

/-!
Blocks and their times travel in two queues. They stay in step as long as a
restart of the stream finds every started block read.
-/

namespace ZeusLe.AudioPairing

open ZeusLe.Library.Run
open ZeusLe.Audio

section

variable {σ : Type} {audioBlockCount : Nat} {audioSyncUpdate : BlockTime → σ → σ × UInt32}

/-- Every time taken for a block is the one queued at the start of that block. -/
def OwnTimes (s : AudioSystem σ) : Prop :=
  ∀ x ∈ s.taken, x.queuedFor = x.block ∧ s.startTimes[x.block]? = some x.time

def untimed : Thread → List Nat
  | .hasBlock block _ => [block]
  | _ => []

/-- The queue of times lists the blocks whose time was not taken yet. -/
structure InStep (audioBlockCount : Nat) (s : AudioSystem σ) : Prop where
  queue : s.blockTimeQueue.map Prod.fst = untimed s.thread ++ s.unread
  times : ∀ entry ∈ s.blockTimeQueue, s.startTimes[entry.1]? = some entry.2
  slab : s.unread.length + s.thread.held.toList.length ≤ audioBlockCount
  taken : OwnTimes s

theorem inStep_initial (sync : σ) : InStep audioBlockCount (initialSystem sync) := by
  refine ⟨rfl, ?_, Nat.zero_le _, ?_⟩ <;> simp [initialSystem, OwnTimes]

theorem length_untimed_le (thread : Thread) :
    (untimed thread).length ≤ thread.held.toList.length := by
  cases thread <;> simp [untimed, Thread.held]

theorem getElem?_startTimes {times : List BlockTime} {block : Nat} {time : BlockTime}
    (h : times[block]? = some time) (later : BlockTime) :
    (times ++ [later])[block]? = some time := by
  obtain ⟨hlt, _⟩ := List.getElem?_eq_some_iff.mp h
  rw [List.getElem?_append_left hlt, h]

theorem inStep_blockStart {s : AudioSystem σ} (h : InStep audioBlockCount s) (refTime : UInt32)
    (buf : BlockBuf) : InStep audioBlockCount (blockStart audioBlockCount refTime buf s) := by
  simp only [blockStart]
  split
  · rename_i hstart
    have hbuffer : s.unread.length + s.thread.held.toList.length < audioBlockCount := by
      simpa [AudioSystem.hasBuffer] using (Bool.and_eq_true_iff.mp hstart).2
    have hlen : s.blockTimeQueue.length < audioBlockCount := by
      have hqueue := congrArg List.length h.queue
      have huntimed := length_untimed_le s.thread
      simp only [List.length_map, List.length_append] at hqueue
      omega
    have hunread : (s.filled ++ s.filling.toList.map fun block => (block, buf)).map Prod.fst =
        s.unread := by
      simp [AudioSystem.unread, Function.comp_def]
    simp only [audioEguHandler, if_pos hlen]
    refine ⟨?_, ?_, ?_, ?_⟩
    · simp only [AudioSystem.unread, List.map_append, List.map_cons, List.map_nil,
        Option.toList_some] at hunread ⊢
      rw [h.queue, hunread]
      simp [AudioSystem.unread]
    · intro entry hentry
      rcases List.mem_append.mp hentry with hold | hnew
      · exact getElem?_startTimes (h.times entry hold) _
      · rw [List.mem_singleton.mp hnew]
        simp
    · simp only [AudioSystem.unread, Option.toList_some, List.length_append,
        List.length_singleton]
      rw [hunread]
      omega
    · intro x hx
      obtain ⟨hown, htime⟩ := h.taken x hx
      exact ⟨hown, getElem?_startTimes htime _⟩
  · exact h

theorem InStep.of_eq {s t : AudioSystem σ} (h : InStep audioBlockCount s)
    (hqueue : t.blockTimeQueue = s.blockTimeQueue) (hunread : t.unread = s.unread)
    (huntimed : untimed t.thread = untimed s.thread)
    (hheld : t.thread.held.toList.length ≤ s.thread.held.toList.length)
    (hstart : t.startTimes = s.startTimes) (htaken : t.taken = s.taken) :
    InStep audioBlockCount t where
  queue := by rw [hqueue, huntimed, hunread, h.queue]
  times := by simpa only [hqueue, hstart] using h.times
  slab := by
    rw [hunread]
    have := h.slab
    omega
  taken := by simpa only [OwnTimes, htaken, hstart] using h.taken

theorem inStep_overrun {s : AudioSystem σ} (h : InStep audioBlockCount s)
    (last : Option BlockBuf) : InStep audioBlockCount (overrun last s) := by
  simp only [overrun]
  split
  · rename_i block buf hfilling
    refine h.of_eq rfl ?_ rfl (Nat.le_refl _) rfl rfl
    simp [AudioSystem.unread, hfilling]
  · exact h.of_eq rfl rfl rfl (Nat.le_refl _) rfl rfl

theorem inStep_threadStart {s : AudioSystem σ} (h : InStep audioBlockCount s) (start : Int) :
    InStep audioBlockCount (threadStart start s) := by
  rcases hthread : s.thread <;> simp only [threadStart, hthread]
  · split
    · refine h.of_eq rfl rfl ?_ (Nat.zero_le _) rfl rfl
      simp [untimed, hthread]
    · refine h.of_eq rfl rfl ?_ (Nat.zero_le _) rfl rfl
      simp [untimed, hthread]
  all_goals exact h

theorem inStep_readBlock {s : AudioSystem σ} (h : InStep audioBlockCount s) :
    InStep audioBlockCount (readBlock s) := by
  simp only [readBlock]
  split
  · rename_i block buf filled hthread hfilled
    have hqueue := h.queue
    have hslab := h.slab
    simp only [untimed, hthread, AudioSystem.unread, hfilled, List.map_cons, List.nil_append,
      List.cons_append, List.length_cons, List.length_append, List.length_map] at hqueue hslab
    refine ⟨?_, h.times, ?_, h.taken⟩
    · rw [hqueue]
      rfl
    · simp only [AudioSystem.unread, Thread.held, Option.toList_some, List.length_append,
        List.length_map, List.length_singleton]
      omega
  · exact h

theorem inStep_readError {s : AudioSystem σ} (h : InStep audioBlockCount s) {prepare start : Int}
    (hunread : s.thread = .reading → s.streaming = false → prepare = 0 → s.unread = []) :
    InStep audioBlockCount (readError prepare start s) := by
  simp only [readError]
  split
  · rename_i hthread hstreaming
    have hreturned : untimed .returned = untimed s.thread := by
      rw [hthread]
      rfl
    split
    · exact h.of_eq rfl rfl hreturned (Nat.zero_le _) rfl rfl
    · rename_i hprepare
      have hnone := hunread hthread hstreaming (not_not.mp hprepare)
      split
      · exact h.of_eq rfl hnone.symm hreturned (Nat.zero_le _) rfl rfl
      · exact h.of_eq rfl hnone.symm rfl (Nat.le_refl _) rfl rfl
  · exact h

theorem inStep_getTime {s : AudioSystem σ} (h : InStep audioBlockCount s) :
    InStep audioBlockCount (getTime s) := by
  simp only [getTime]
  split
  · rename_i block buf hthread hempty
    have hqueue := h.queue
    simp [hempty, hthread, untimed] at hqueue
  · rename_i block buf queuedFor time queue hthread hcons
    have hqueue := h.queue
    simp only [hcons, hthread, untimed, List.map_cons, List.cons_append, List.nil_append,
      List.cons.injEq] at hqueue
    obtain ⟨rfl, hrest⟩ := hqueue
    have htime := h.times (queuedFor, time) (by simp [hcons])
    refine ⟨hrest, ?_, ?_, ?_⟩
    · intro entry hentry
      exact h.times entry (by simp [hcons, hentry])
    · have hslab := h.slab
      rw [hthread] at hslab
      exact hslab
    · intro x hx
      rcases List.mem_append.mp hx with hold | hnew
      · exact h.taken x hold
      · rw [List.mem_singleton.mp hnew]
        exact ⟨rfl, htime⟩
  · exact h

theorem inStep_passBlock {s : AudioSystem σ} (h : InStep audioBlockCount s) :
    InStep audioBlockCount (passBlock audioSyncUpdate s) := by
  simp only [passBlock]
  split
  · rename_i block buf time hthread
    refine h.of_eq rfl rfl ?_ (Nat.zero_le _) rfl rfl
    simp [untimed, hthread]
  · exact h

def NothingUnread (s : AudioSystem σ) : Action → Prop
  | .readError prepare _ =>
      s.thread = .reading → s.streaming = false → prepare = 0 → s.unread = []
  | _ => True

theorem inStep_audioStep (s : AudioSystem σ) (action : Action) (h : InStep audioBlockCount s)
    (haction : NothingUnread s action) :
    InStep audioBlockCount (audioStep audioBlockCount audioSyncUpdate s action) := by
  cases action with
  | threadStart start => exact inStep_threadStart h start
  | blockStart refTime buf => exact inStep_blockStart h refTime buf
  | overrun last => exact inStep_overrun h last
  | readBlock => exact inStep_readBlock h
  | readError prepare start => exact inStep_readError h haction
  | getTime => exact inStep_getTime h
  | passBlock => exact inStep_passBlock h

end

/-- In every run in which the stream is restarted only after all started blocks
were read, every block gets the time of its own start. -/
theorem ownTimes_run {σ : Type} (audioBlockCount : Nat)
    (audioSyncUpdate : BlockTime → σ → σ × UInt32) (sync : σ) {actions : List Action}
    (hactions : Along (audioStep audioBlockCount audioSyncUpdate) NothingUnread
      (initialSystem sync) actions) :
    OwnTimes (run (audioStep audioBlockCount audioSyncUpdate) (initialSystem sync) actions) :=
  (invariant_run inStep_audioStep (inStep_initial sync) hactions).taken

theorem ownTimes_run_restart_after_read :
    OwnTimes (run (audioStep 26 fun time _ => ((), time.refTime)) (initialSystem ())
      [.threadStart 0, .blockStart 10 silence, .overrun (some silence), .readBlock, .getTime,
        .passBlock, .readError 0 0, .blockStart 20 silence]) := by
  refine ownTimes_run 26 _ () ⟨trivial, trivial, trivial, trivial, trivial, trivial, ?_, trivial,
    trivial⟩
  intro _ _ _
  rfl

/-- The block that is being filled at an overrun leaves its time in the queue;
the first block of the next stream takes it. -/
theorem not_ownTimes_of_unread :
    ¬ ∀ (audioBlockCount : Nat) (actions : List Action),
      OwnTimes (run (audioStep audioBlockCount fun time _ => ((), time.refTime))
        (initialSystem ()) actions) := by
  intro h
  have hown := h 26 [.threadStart 0, .blockStart 10 silence, .blockStart 20 silence,
    .readBlock, .getTime, .passBlock, .overrun none, .readError 0 0,
    .blockStart 30 silence, .blockStart 40 silence, .readBlock, .getTime]
  have htaken := hown ⟨2, 1, ⟨blockDuration, 20⟩⟩ (by decide)
  exact absurd htaken.1 (by decide)

end ZeusLe.AudioPairing
