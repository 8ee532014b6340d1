import ZeusLe.Protocol
import ZeusLe.Record

/-!
The audio thread, `audio.c`. The I2S driver fills blocks; `audio_egu_handler`
runs in the interrupt at the start of each block and queues its time, and
`audio_thread_run` takes the blocks and the times out of their queues.
-/

namespace ZeusLe.Audio

open ZeusLe.Protocol
open ZeusLe.Record

def quFromInt (val : UInt32) : UInt64 :=
  val.toUInt64 <<< 32

def quWhole (val : UInt64) : UInt32 :=
  (val >>> 32).toUInt32

def audioBlockSize : UInt32 := 14400

/-- The part of the I2S configuration that the block duration depends on. -/
structure DaiCfg where
  wordSize : UInt8
  channels : UInt8
  frameClkFreq : UInt32
  deriving DecidableEq, Repr

def daiCfg : DaiCfg := ⟨16, 2, 48000⟩

def framesPerBlock : UInt32 :=
  audioBlockSize / daiCfg.channels.toUInt32 / (daiCfg.wordSize / 8).toUInt32

def blockDuration : UInt64 :=
  quFromInt (zeusTimeNominalFreq * framesPerBlock.toUInt64 / daiCfg.frameClkFreq.toUInt64).toUInt32

abbrev BlockBuf := { buf : List UInt8 // buf.length = audioBlockSize.toNat }

def silence : BlockBuf :=
  ⟨List.replicate audioBlockSize.toNat 0, List.length_replicate⟩

/-- The block that `audio_thread_run` passes to `record_buffer`. -/
def threadBlock (buf : BlockBuf) (startTime : UInt32) : AudioBlock where
  buf := buf.val
  buf_lt := by
    rw [buf.property]
    decide
  startTime := startTime
  duration := quWhole blockDuration
  bytesPerFrame := 6

structure BlockTime where
  i2sTime : UInt64
  refTime : UInt32
  deriving DecidableEq, Repr

/-- Where the thread is in its loop. Blocks are numbered in the order in which
the hardware starts them. -/
inductive Thread where
  | starting
  | reading
  | hasBlock (block : Nat) (buf : BlockBuf)
  | hasTime (block : Nat) (buf : BlockBuf) (time : BlockTime)
  | returned
  deriving DecidableEq, Repr

/-- A time that was taken from `block_time_queue` for a block, with the number
of the block at whose start it was queued. -/
structure Taken where
  block : Nat
  queuedFor : Nat
  time : BlockTime
  deriving DecidableEq, Repr

/-- The driver, the interrupt and the thread. `σ` is the state of
`audio_sync_update`. -/
structure AudioSystem (σ : Type) where
  i2sTime : UInt64
  sync : σ
  blockTimeQueue : List (Nat × BlockTime)
  /-- The I2S stream runs. -/
  streaming : Bool
  /-- Blocks that wait for `i2s_read`, oldest first. -/
  filled : List (Nat × BlockBuf)
  /-- The block that the hardware is filling. -/
  filling : Option Nat
  thread : Thread
  /-- What the interrupt recorded at the start of each block. -/
  startTimes : List BlockTime
  taken : List Taken
  /-- The blocks passed to `record_buffer`. -/
  recorded : List AudioBlock

section

variable {σ : Type} (audioBlockCount : Nat) (audioSyncUpdate : BlockTime → σ → σ × UInt32)

def initialSystem (sync : σ) : AudioSystem σ where
  i2sTime := 0
  sync := sync
  blockTimeQueue := []
  streaming := false
  filled := []
  filling := none
  thread := .starting
  startTimes := []
  taken := []
  recorded := []

def AudioSystem.unread (s : AudioSystem σ) : List Nat :=
  s.filled.map Prod.fst ++ s.filling.toList

/-- The block in the hands of the thread. -/
def Thread.held : Thread → Option Nat
  | .hasBlock block _ | .hasTime block _ _ => some block
  | .starting | .reading | .returned => none

/-- The hardware starts a block with a free buffer of the slab. -/
def AudioSystem.hasBuffer (s : AudioSystem σ) : Bool :=
  s.unread.length + s.thread.held.toList.length < audioBlockCount

/-- `audio_egu_handler`; a time that does not fit into the queue is lost. -/
def audioEguHandler (refTime : UInt32) (s : AudioSystem σ) : AudioSystem σ :=
  let blockTime : BlockTime := ⟨s.i2sTime, refTime⟩
  { s with
    i2sTime := s.i2sTime + blockDuration
    blockTimeQueue := if s.blockTimeQueue.length < audioBlockCount
      then s.blockTimeQueue ++ [(s.startTimes.length, blockTime)]
      else s.blockTimeQueue
    startTimes := s.startTimes ++ [blockTime] }

/-- The hardware goes on to the next block; the one before it is filled with
`buf`, and the interrupt runs. -/
def blockStart (refTime : UInt32) (buf : BlockBuf) (s : AudioSystem σ) : AudioSystem σ :=
  if s.streaming && s.hasBuffer audioBlockCount then
    { audioEguHandler audioBlockCount refTime s with
      filled := s.filled ++ s.filling.toList.map fun block => (block, buf)
      filling := some s.startTimes.length }
  else s

/-- The stream stops for want of a buffer. The last block may be complete. -/
def overrun (last : Option BlockBuf) (s : AudioSystem σ) : AudioSystem σ :=
  match s.filling, last with
  | some block, some buf =>
      { s with streaming := false, filled := s.filled ++ [(block, buf)], filling := none }
  | _, _ => { s with streaming := false }

def threadStart (start : Int) (s : AudioSystem σ) : AudioSystem σ :=
  match s.thread with
  | .starting =>
      if start ≠ 0 then { s with thread := .returned }
      else { s with thread := .reading, streaming := true }
  | _ => s

def readBlock (s : AudioSystem σ) : AudioSystem σ :=
  match s.thread, s.filled with
  | .reading, (block, buf) :: filled => { s with thread := .hasBlock block buf, filled := filled }
  | _, _ => s

/-- `i2s_read` fails after an overrun: `I2S_TRIGGER_PREPARE` discards what was
not read, `I2S_TRIGGER_START` begins a new stream. -/
def readError (prepare start : Int) (s : AudioSystem σ) : AudioSystem σ :=
  match s.thread, s.streaming with
  | .reading, false =>
      if prepare ≠ 0 then { s with thread := .returned }
      else
        let s := { s with filled := [], filling := none }
        if start ≠ 0 then { s with thread := .returned } else { s with streaming := true }
  | _, _ => s

def getTime (s : AudioSystem σ) : AudioSystem σ :=
  match s.thread, s.blockTimeQueue with
  | .hasBlock _ _, [] => { s with thread := .returned }
  | .hasBlock block buf, (queuedFor, time) :: queue =>
      { s with
        thread := .hasTime block buf time
        blockTimeQueue := queue
        taken := s.taken ++ [⟨block, queuedFor, time⟩] }
  | _, _ => s

def passBlock (s : AudioSystem σ) : AudioSystem σ :=
  match s.thread with
  | .hasTime _ buf time =>
      let (sync, startTime) := audioSyncUpdate time s.sync
      { s with
        sync := sync
        thread := .reading
        recorded := s.recorded ++ [threadBlock buf startTime] }
  | _ => s

/-- A step of the hardware, with the interrupt, or of the thread. -/
inductive Action where
  | threadStart (start : Int)
  | blockStart (refTime : UInt32) (buf : BlockBuf)
  | overrun (last : Option BlockBuf)
  | readBlock
  | readError (prepare start : Int)
  | getTime
  | passBlock

def audioStep (s : AudioSystem σ) : Action → AudioSystem σ
  | .threadStart start => threadStart start s
  | .blockStart refTime buf => blockStart audioBlockCount refTime buf s
  | .overrun last => overrun last s
  | .readBlock => readBlock s
  | .readError prepare start => readError prepare start s
  | .getTime => getTime s
  | .passBlock => passBlock audioSyncUpdate s

end

end ZeusLe.Audio
