import ZeusLe.Audio
import ZeusLe.FreqControl
import ZeusLe.Library.Run
import ZeusLe.SyncTimer

/-!
The time of an audio block: `sync_timer_local_to_central` of `sync_timer.c`, and
`audio_sync_update` with its caller in `audio.c`.
-/

namespace ZeusLe.AudioSync

open ZeusLe.Audio
open ZeusLe.FreqControl
open ZeusLe.Library.Run
open ZeusLe.Protocol
open ZeusLe.Record
open ZeusLe.SyncTimer

def syncTimerFreqEstConfig : FreqEstConfig where
  nominalFreq := 16000000
  kU := 0
  qTheta := 0
  qF := 256
  r := 390625
  p0 := 1000000
  outlierThreshold := 20
  outlierResyncCount := 5

/-- The call of `freq_est_update` in `sync_timer_recv_adv`. -/
def timerEstUpdate (e : FreqEst) (update : UInt32 × UInt32) : FreqEst :=
  (freqEstUpdate e (quFromInt update.1) (quFromInt update.2) 0).2

/-- The estimator of the timer after the calls so far. -/
def timerEst (t : TimerState) : FreqEst :=
  t.updates.foldl timerEstUpdate (freqEstInit syncTimerFreqEstConfig)

/-- `sync_timer_local_to_central`: the value returned, and what is left in `*time`. -/
def syncTimerLocalToCentral (t : TimerState) (time : UInt64) : Bool × UInt64 :=
  if !t.init then (false, time)
  else if (timerEst t).status ≠ .reset then (true, time - freqEstPredict (timerEst t) time)
  else (false, time)

def audioHfclkaudioFreqNominal : Float := 12288000

def audioHfclkaudioFreqRegMin : Int := 36834

def audioHfclkaudioFreqRegMax : Int := 42874

def audioFreqEstConfig : FreqEstConfig where
  nominalFreq := 16000000
  kU := (32e6 / (12 * 65536 * audioHfclkaudioFreqNominal)).toFloat32
  qTheta := 0
  qF := 256
  r := 390625
  p0 := 1000000
  outlierThreshold := 20
  outlierResyncCount := 5

def audioFreqCtlr : FreqCtlr where
  kTheta := 4.03747559e-11
  kF := 6.45996094e-05
  maxStep := 1000

def samplePeriod : UInt64 :=
  quFromInt zeusTimeNominalFreq.toUInt32 / daiCfg.frameClkFreq.toUInt64

/-- What `audio_sync_update` keeps in `struct audio_data`, with the frequency
register of the audio clock. -/
structure AudioData where
  freqEst : FreqEst
  targetTheta : UInt64
  hfclkaudioIncrement : Int16
  hfclkaudioFreq : UInt16

def audioInitial (freq : UInt16) : AudioData :=
  ⟨freqEstInit audioFreqEstConfig, 0, 0, freq⟩

/-- `DIV_ROUND_CLOSEST` on `qu32_32`. -/
def quDivRoundClosest (n d : UInt64) : UInt64 :=
  (n + d / 2) / d

/-- The phase rounded to a multiple of the sample period. -/
def phaseTarget (theta : UInt64) : UInt64 :=
  quDivRoundClosest theta samplePeriod * samplePeriod

def clampIncrement (freq : UInt16) (increment : Int16) : Int16 :=
  let maxInc := Int16.ofInt (audioHfclkaudioFreqRegMax - freq.toNat)
  let minInc := Int16.ofInt (audioHfclkaudioFreqRegMin - freq.toNat)
  if increment > maxInc then maxInc
  else if increment < minInc then minInc
  else increment

/-- What `audio_sync_update` finds out about a block. -/
structure SyncUpdate where
  /-- What `sync_timer_local_to_central` returned. -/
  central : Bool
  result : FreqEstResult
  valid : Bool
  startTime : UInt32

def audioSyncUpdate (t : TimerState) (time : BlockTime) (d : AudioData) :
    SyncUpdate × AudioData :=
  let (central, refTime) := syncTimerLocalToCentral t (quFromInt time.refTime)
  let (result, freqEst) := freqEstUpdate d.freqEst time.i2sTime refTime d.hfclkaudioIncrement
  let state := freqEstGetState freqEst
  let targetTheta := if result = .init then phaseTarget state.theta else d.targetTheta
  let startTime := quWhole (time.i2sTime - targetTheta)
  let increment := clampIncrement d.hfclkaudioFreq (freqCtlrUpdate audioFreqCtlr targetTheta state)
  (⟨central, result, true, startTime⟩,
    { freqEst := freqEst
      targetTheta := targetTheta
      hfclkaudioIncrement := increment
      hfclkaudioFreq := d.hfclkaudioFreq + increment.toUInt16 })

structure SyncSystem where
  timer : TimerState
  audio : AudioData
  /-- Whether the block that `targetTheta` was last set from had a central
  reference. -/
  targetCentral : Bool
  recorded : List AudioBlock

def syncSystemInitial (freq : UInt16) : SyncSystem :=
  ⟨timerInitial, audioInitial freq, false, []⟩

/-- The end of the loop of `audio_thread_run`, for a block with its time. -/
def audioThreadBlock (buf : BlockBuf) (time : BlockTime) (s : SyncSystem) : SyncSystem :=
  let (update, audio) := audioSyncUpdate s.timer time s.audio
  { s with
    audio := audio
    targetCentral := if update.result = .init then update.central else s.targetCentral
    recorded := if update.valid then s.recorded ++ [threadBlock buf update.startTime]
      else s.recorded }

inductive SyncInput where
  | recvAdv (time : UInt32) (sync : ZeusAdvSync)
  | block (buf : BlockBuf) (time : BlockTime)

def syncStep (s : SyncSystem) : SyncInput → SyncSystem
  | .recvAdv time sync => { s with timer := syncTimerRecvAdv time sync s.timer }
  | .block buf time => audioThreadBlock buf time s

end ZeusLe.AudioSync
