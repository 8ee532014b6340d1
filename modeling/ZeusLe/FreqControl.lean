import Mathlib.Data.Nat.Basic

/-!
The estimator of a clock's phase and frequency, `freq_est.c`, and the
controller that steers a clock by it, `freq_ctlr.c`.
-/

namespace ZeusLe.FreqControl

def quOne : UInt64 := (1 : UInt64) <<< 32

def qToFloat (val : Int64) : Float32 :=
  val.toFloat32 / quOne.toFloat32

def quToFloat (val : UInt64) : Float32 :=
  val.toFloat32 / quOne.toFloat32

def phaseAddFloat (theta : UInt64) (inc : Float32) : UInt64 :=
  if inc ≥ 0 then theta + inc.toUInt64 else theta - (-inc).toUInt64

def phaseDiffSigned (a b : UInt64) : Int64 :=
  (a - b).toInt64

inductive FreqEstStatus where
  | reset
  | converging
  | converged
  deriving DecidableEq, Repr

inductive FreqEstResult where
  | ok
  | init
  | outlier
  | outlierReset
  deriving DecidableEq, Repr

structure FreqEstConfig where
  nominalFreq : UInt32
  kU : Float32
  qTheta : Float32
  qF : Float32
  r : Float32
  p0 : Float32
  outlierThreshold : Float32
  outlierResyncCount : UInt32

structure FreqEstState where
  status : FreqEstStatus
  theta : UInt64
  f : Float32

structure FreqEst where
  config : FreqEstConfig
  kU : Float32
  qTheta : Float32
  qF : Float32
  r : Float32
  status : FreqEstStatus
  lastTime : UInt64
  theta : UInt64
  f : Float32
  p00 : Float32
  p01 : Float32
  p10 : Float32
  p11 : Float32
  outlierCount : UInt32

def freqEstInit (cfg : FreqEstConfig) : FreqEst :=
  let nominalFreq2 := cfg.nominalFreq.toFloat32 * cfg.nominalFreq.toFloat32
  { config := cfg
    kU := cfg.kU * quOne.toFloat32
    qTheta := cfg.qTheta
    qF := cfg.qF / nominalFreq2
    r := cfg.r * nominalFreq2
    status := .reset
    lastTime := 0
    theta := 0
    f := 0
    p00 := 0
    p01 := 0
    p10 := 0
    p11 := 0
    outlierCount := 0 }

def freqEstPredict (e : FreqEst) (time : UInt64) : UInt64 :=
  phaseAddFloat e.theta (qToFloat (phaseDiffSigned time e.lastTime) * e.f)

/-- The first measurement `z` after a reset. -/
def freqEstStart (e : FreqEst) (localTime z : UInt64) : FreqEst :=
  { e with
    status := .converging
    lastTime := localTime
    theta := z
    p00 := e.config.p0
    p01 := 0
    p10 := 0
    p11 := e.config.p0
    outlierCount := 0 }

/-- The prediction of the state at `localTime`. -/
def freqEstAdvance (e : FreqEst) (localTime : UInt64) (input : Int16) : FreqEst :=
  let dt := quToFloat (localTime - e.lastTime)
  let scaledInput := input.toFloat32 * e.kU
  let dtP11 := dt * e.p11
  { e with
    lastTime := localTime
    theta := phaseAddFloat e.theta (dt * (e.f + scaledInput))
    f := e.f + scaledInput
    p00 := e.p00 + dt * (dt * e.qTheta + e.p01 + e.p10 + dtP11)
    p01 := e.p01 + dtP11
    p10 := e.p10 + dtP11
    p11 := e.p11 + dt * dt * e.qF }

/-- Whether the error of a prediction is too large for its variance. -/
def freqEstIsOutlier (e : FreqEst) (thetaError : Int64) : Bool :=
  thetaError.abs.toFloat32 / (e.p00 + e.r).sqrt ≥ e.config.outlierThreshold

def freqEstOutlier (e : FreqEst) : FreqEstResult × FreqEst :=
  let e := { e with outlierCount := e.outlierCount + 1 }
  if e.config.outlierResyncCount > 0 ∧ e.outlierCount ≥ e.config.outlierResyncCount then
    (.outlierReset, { e with status := .reset })
  else (.outlier, e)

/-- The correction of a prediction by its error. -/
def freqEstCorrect (e : FreqEst) (thetaError : Int64) : FreqEst :=
  let p00R := e.p00 + e.r
  let k0 := e.p00 / p00R
  let k1 := e.p10 / p00R
  { e with
    theta := phaseAddFloat e.theta (k0 * thetaError.toFloat32)
    f := e.f + k1 * thetaError.toFloat32
    p11 := e.p11 - e.p01 * e.p10 / p00R
    p01 := e.r * e.p01 / p00R
    p00 := e.r * k0
    p10 := e.r * k1 }

def freqEstUpdate (e : FreqEst) (localTime refTime : UInt64) (input : Int16) :
    FreqEstResult × FreqEst :=
  let z := localTime - refTime
  if e.status = .reset then (.init, freqEstStart e localTime z)
  else
    let e := freqEstAdvance e localTime input
    let thetaError := phaseDiffSigned z e.theta
    if e.config.outlierThreshold > 0 then
      if freqEstIsOutlier e thetaError then freqEstOutlier e
      else (.ok, freqEstCorrect { e with outlierCount := 0 } thetaError)
    else (.ok, freqEstCorrect e thetaError)

def freqEstGetState (e : FreqEst) : FreqEstState :=
  ⟨e.status, e.theta, e.f⟩

theorem freqEstUpdate_of_reset {e : FreqEst} (h : e.status = .reset) (localTime refTime : UInt64)
    (input : Int16) :
    freqEstUpdate e localTime refTime input =
      (.init, freqEstStart e localTime (localTime - refTime)) := by
  simp only [freqEstUpdate, h, if_true]

theorem freqEstOutlier_ne_init (e : FreqEst) : (freqEstOutlier e).1 ≠ .init := by
  simp only [freqEstOutlier]
  split <;> exact FreqEstResult.noConfusion

theorem freqEstUpdate_init_iff (e : FreqEst) (localTime refTime : UInt64) (input : Int16) :
    (freqEstUpdate e localTime refTime input).1 = .init ↔ e.status = .reset := by
  constructor
  · intro hinit
    rcases hstatus : e.status with _ | _ | _
    · rfl
    all_goals
      simp only [freqEstUpdate, hstatus, reduceCtorEq, if_false] at hinit
      split at hinit
      · split at hinit
        · exact absurd hinit (freqEstOutlier_ne_init _)
        · exact FreqEstResult.noConfusion hinit
      · exact FreqEstResult.noConfusion hinit
  · intro hreset
    rw [freqEstUpdate_of_reset hreset]

structure FreqCtlr where
  kTheta : Float32
  kF : Float32
  maxStep : UInt16

def roundFToI16 (f : Float32) : Int16 :=
  (f + if f > 0 then 0.5 else -0.5).toInt16

def freqCtlrUpdate (c : FreqCtlr) (targetTheta : UInt64) (state : FreqEstState) : Int16 :=
  let thetaErr := (phaseDiffSigned targetTheta state.theta).toFloat32
  let fErr := -state.f
  let u := c.kTheta * thetaErr + c.kF * fErr
  if u > c.maxStep.toFloat32 then c.maxStep.toInt16
  else if u < -c.maxStep.toFloat32 then -c.maxStep.toInt16
  else roundFToI16 u

end ZeusLe.FreqControl
