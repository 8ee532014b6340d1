import ZeusLe.FreqControl
import ZeusLe.Library.Run

/-!
When the estimator starts anew. Whether a measurement is an outlier is left
open here: the results of a sequence of measurements follow from the outliers
among them.
-/

namespace ZeusLe.FreqResync

open ZeusLe.FreqControl
open ZeusLe.Library.Run

/-- `freq_est_update` with the results of its two float tests: whether outliers
are looked for, and whether this measurement is one. -/
def freqEstUpdateWith (detects outlier : Bool) (e : FreqEst) (localTime refTime : UInt64)
    (input : Int16) : FreqEstResult × FreqEst :=
  let z := localTime - refTime
  if e.status = .reset then (.init, freqEstStart e localTime z)
  else
    let e := freqEstAdvance e localTime input
    let thetaError := phaseDiffSigned z e.theta
    if detects then
      if outlier then freqEstOutlier e
      else (.ok, freqEstCorrect { e with outlierCount := 0 } thetaError)
    else (.ok, freqEstCorrect e thetaError)

/-- The test that `freq_est_update` makes of a measurement. -/
def predictsOutlier (e : FreqEst) (localTime refTime : UInt64) (input : Int16) : Bool :=
  let e := freqEstAdvance e localTime input
  freqEstIsOutlier e (phaseDiffSigned (localTime - refTime) e.theta)

theorem freqEstUpdate_eq_with (e : FreqEst) (localTime refTime : UInt64) (input : Int16) :
    freqEstUpdate e localTime refTime input =
      freqEstUpdateWith (decide (e.config.outlierThreshold > 0))
        (predictsOutlier e localTime refTime input) e localTime refTime input := by
  simp only [freqEstUpdate, freqEstUpdateWith, predictsOutlier, decide_eq_true_eq]
  rfl

structure Measurement where
  localTime : UInt64
  refTime : UInt64
  input : Int16
  outlier : Bool
  deriving DecidableEq, Repr

/-- The estimator with its measurements and their results, the last one first. -/
structure Estimator where
  est : FreqEst
  log : List (Measurement × FreqEstResult)

def update (s : Estimator) (m : Measurement) : FreqEstResult × FreqEst :=
  freqEstUpdateWith true m.outlier s.est m.localTime m.refTime m.input

def measure (s : Estimator) (m : Measurement) : Estimator where
  est := (update s m).2
  log := (m, (update s m).1) :: s.log

def initial (cfg : FreqEstConfig) : Estimator where
  est := freqEstInit cfg
  log := []

/-- An outlier that was not used to initialize the estimator. -/
def isOutlier (entry : Measurement × FreqEstResult) : Bool :=
  entry.1.outlier && entry.2 != .init

/-- The number of outliers since the last measurement that was none. -/
def currentRun (log : List (Measurement × FreqEstResult)) : Nat :=
  (log.takeWhile isOutlier).length

/-- The measurement is the first one, or the one before it triggered a reset. -/
def StartsAnew (log : List (Measurement × FreqEstResult)) : Prop :=
  log = [] ∨ ∃ last rest, log = last :: rest ∧ last.2 = .outlierReset

/-- The result of a measurement and the state after it, from the log alone. -/
structure ByHistory (resync : UInt32) (s : Estimator) (m : Measurement) : Prop where
  init : (update s m).1 = .init ↔ StartsAnew s.log
  reset : (update s m).1 = .outlierReset ↔
    resync.toNat ≤ (measure s m).log.length ∧
      ∀ entry ∈ (measure s m).log.take resync.toNat,
        entry.1.outlier = true ∧ entry.2 ≠ .init
  outlier : (update s m).1 = .outlier ↔
    m.outlier = true ∧ (update s m).1 ≠ .init ∧ (update s m).1 ≠ .outlierReset
  ok : (update s m).1 = .ok ↔ m.outlier = false ∧ (update s m).1 ≠ .init
  count : (measure s m).est.status ≠ .reset →
    (measure s m).est.outlierCount < resync ∧
      (measure s m).est.outlierCount.toNat = currentRun (measure s m).log
  predicted : (update s m).1 = .outlier ∨ (update s m).1 = .outlierReset →
    (measure s m).est.theta = (freqEstAdvance s.est m.localTime m.input).theta
  started : (update s m).1 = .init → (measure s m).est.theta = m.localTime - m.refTime

theorem le_length_takeWhile_iff {α : Type*} (p : α → Bool) (l : List α) (n : Nat) :
    n ≤ (l.takeWhile p).length ↔ n ≤ l.length ∧ ∀ a ∈ l.take n, p a = true := by
  induction l generalizing n with
  | nil => simp
  | cons a l ih =>
      cases n with
      | zero => simp
      | succ n =>
          rcases hp : p a with _ | _
          · simp [hp]
          · simp [hp, ih]

theorem isOutlier_iff (entry : Measurement × FreqEstResult) :
    isOutlier entry = true ↔ entry.1.outlier = true ∧ entry.2 ≠ .init := by
  simp [isOutlier]

theorem le_currentRun_iff (log : List (Measurement × FreqEstResult)) (n : Nat) :
    n ≤ currentRun log ↔ n ≤ log.length ∧
      ∀ entry ∈ log.take n, entry.1.outlier = true ∧ entry.2 ≠ .init := by
  simp only [currentRun, le_length_takeWhile_iff, isOutlier_iff]

theorem currentRun_cons (entry : Measurement × FreqEstResult)
    (log : List (Measurement × FreqEstResult)) :
    currentRun (entry :: log) = if isOutlier entry then currentRun log + 1 else 0 := by
  simp only [currentRun, List.takeWhile_cons]
  split <;> rfl

/-- The status and the counter of the estimator tell what its log says. -/
structure Follows (resync : UInt32) (s : Estimator) : Prop where
  config : s.est.config.outlierResyncCount = resync
  status : s.est.status = .reset ↔ StartsAnew s.log
  below : s.est.status ≠ .reset → s.est.outlierCount < resync
  count : s.est.status ≠ .reset → s.est.outlierCount.toNat = currentRun s.log

/-- What one measurement does, by the status it finds and whether it is an
outlier. -/
inductive Outcome (resync : UInt32) (s : Estimator) (m : Measurement) : Prop where
  | init (hstatus : s.est.status = .reset)
      (h : update s m = (.init, freqEstStart s.est m.localTime (m.localTime - m.refTime)))
  | outlier (hstatus : s.est.status ≠ .reset) (houtlier : m.outlier = true)
      (hcount : s.est.outlierCount + 1 < resync)
      (h : update s m = (.outlier, { freqEstAdvance s.est m.localTime m.input with
        outlierCount := s.est.outlierCount + 1 }))
  | outlierReset (hstatus : s.est.status ≠ .reset) (houtlier : m.outlier = true)
      (hcount : resync ≤ s.est.outlierCount + 1)
      (h : update s m = (.outlierReset, { freqEstAdvance s.est m.localTime m.input with
        outlierCount := s.est.outlierCount + 1, status := .reset }))
  | ok (hstatus : s.est.status ≠ .reset) (houtlier : m.outlier = false) (e : FreqEst)
      (hconfig : e.config = s.est.config) (hkept : e.status = s.est.status)
      (hcount : e.outlierCount = 0) (h : update s m = (.ok, e))

theorem outcome_update {resync : UInt32} (hresync : 0 < resync) {s : Estimator}
    (hconfig : s.est.config.outlierResyncCount = resync) (m : Measurement) :
    Outcome resync s m := by
  rcases Classical.em (s.est.status = .reset) with hstatus | hstatus
  · apply Outcome.init hstatus
    simp only [update, freqEstUpdateWith, if_pos hstatus]
  · rcases houtlier : m.outlier with _ | _
    · refine Outcome.ok hstatus houtlier (freqEstCorrect
        { freqEstAdvance s.est m.localTime m.input with outlierCount := 0 }
        (phaseDiffSigned (m.localTime - m.refTime)
          (freqEstAdvance s.est m.localTime m.input).theta)) rfl rfl rfl ?_
      simp only [update, freqEstUpdateWith, if_neg hstatus, houtlier, if_true, Bool.false_eq_true,
        if_false]
    · rcases Classical.em (resync ≤ s.est.outlierCount + 1) with hcount | hcount
      · apply Outcome.outlierReset hstatus houtlier hcount
        simp only [update, freqEstUpdateWith, if_neg hstatus, houtlier, if_true, freqEstOutlier]
        exact if_pos ⟨hconfig ▸ hresync, hconfig ▸ hcount⟩
      · apply Outcome.outlier hstatus houtlier (UInt32.not_le.mp hcount)
        simp only [update, freqEstUpdateWith, if_neg hstatus, houtlier, if_true, freqEstOutlier]
        exact if_neg fun h => hcount (hconfig ▸ h.2)

theorem not_startsAnew_cons {entry : Measurement × FreqEstResult}
    {log : List (Measurement × FreqEstResult)} (h : entry.2 ≠ .outlierReset) :
    ¬ StartsAnew (entry :: log) := by
  rintro (hnil | ⟨last, rest, hcons, hlast⟩)
  · cases hnil
  · cases hcons
    exact h hlast

theorem toNat_succ {resync count : UInt32} (h : count < resync) :
    (count + 1).toNat = count.toNat + 1 := by
  have hlt := UInt32.lt_iff_toNat_lt.mp h
  have hbound := resync.toNat_lt
  rw [UInt32.toNat_add, UInt32.toNat_one]
  exact Nat.mod_eq_of_lt (by omega)

theorem Follows.run_succ {resync : UInt32} {s : Estimator} (hs : Follows resync s)
    (hstatus : s.est.status ≠ .reset) {m : Measurement} (houtlier : m.outlier = true)
    {result : FreqEstResult} (hresult : result ≠ .init) :
    (s.est.outlierCount + 1).toNat = currentRun ((m, result) :: s.log) := by
  rw [toNat_succ (hs.below hstatus), currentRun_cons, if_pos, hs.count hstatus]
  exact (isOutlier_iff _).mpr ⟨houtlier, hresult⟩

theorem follows_measure {resync : UInt32} (hresync : 0 < resync) (s : Estimator)
    (m : Measurement) (hs : Follows resync s) : Follows resync (measure s m) := by
  rcases outcome_update hresync hs.config m with
    ⟨hstatus, h⟩ | ⟨hstatus, houtlier, hcount, h⟩ | ⟨hstatus, houtlier, hcount, h⟩ |
    ⟨hstatus, houtlier, e, hconfig, hkept, hzero, h⟩
  · simp only [measure, h]
    refine ⟨hs.config, ?_, fun _ => hresync, fun _ => ?_⟩
    · exact iff_of_false (by simp [freqEstStart])
        (not_startsAnew_cons FreqEstResult.noConfusion)
    · simp [currentRun_cons, isOutlier, freqEstStart]
  · simp only [measure, h]
    refine ⟨hs.config, ?_, fun _ => hcount, fun _ => ?_⟩
    · exact iff_of_false hstatus (not_startsAnew_cons FreqEstResult.noConfusion)
    · exact hs.run_succ hstatus houtlier FreqEstResult.noConfusion
  · simp only [measure, h]
    refine ⟨hs.config, ?_, fun hne => absurd rfl hne, fun hne => absurd rfl hne⟩
    exact iff_of_true rfl (Or.inr ⟨_, _, rfl, rfl⟩)
  · simp only [measure, h]
    refine ⟨hconfig ▸ hs.config, ?_, fun _ => hzero ▸ hresync, fun _ => ?_⟩
    · exact iff_of_false (hkept ▸ hstatus) (not_startsAnew_cons FreqEstResult.noConfusion)
    · rw [hzero]
      simp [currentRun_cons, isOutlier, houtlier]

theorem reset_iff {resync : UInt32} (hresync : 0 < resync) (s : Estimator) (m : Measurement)
    (hs : Follows resync s) :
    (update s m).1 = .outlierReset ↔ resync.toNat ≤ currentRun (measure s m).log := by
  have hpos : 0 < resync.toNat := UInt32.lt_iff_toNat_lt.mp hresync
  rcases outcome_update hresync hs.config m with
    ⟨hstatus, h⟩ | ⟨hstatus, houtlier, hcount, h⟩ | ⟨hstatus, houtlier, hcount, h⟩ |
    ⟨hstatus, houtlier, e, hconfig, hkept, hzero, h⟩
  · simp only [measure, h]
    apply iff_of_false FreqEstResult.noConfusion
    simp [currentRun_cons, isOutlier]
    omega
  · simp only [measure, h]
    apply iff_of_false FreqEstResult.noConfusion
    rw [← hs.run_succ hstatus houtlier FreqEstResult.noConfusion]
    exact Nat.not_le.mpr (UInt32.lt_iff_toNat_lt.mp hcount)
  · simp only [measure, h]
    apply iff_of_true trivial
    rw [← hs.run_succ hstatus houtlier FreqEstResult.noConfusion]
    exact UInt32.le_iff_toNat_le.mp hcount
  · simp only [measure, h]
    apply iff_of_false FreqEstResult.noConfusion
    simp [currentRun_cons, isOutlier, houtlier]
    omega

theorem byHistory_measure {resync : UInt32} (hresync : 0 < resync) (s : Estimator)
    (m : Measurement) (hs : Follows resync s) : ByHistory resync s m := by
  have hafter := follows_measure hresync s m hs
  have hreset := reset_iff hresync s m hs
  rw [le_currentRun_iff] at hreset
  have hcount : (measure s m).est.status ≠ .reset →
      (measure s m).est.outlierCount < resync ∧
        (measure s m).est.outlierCount.toNat = currentRun (measure s m).log :=
    fun hstatus => ⟨hafter.below hstatus, hafter.count hstatus⟩
  rcases outcome_update hresync hs.config m with
    ⟨hstatus, h⟩ | ⟨hstatus, houtlier, -, h⟩ | ⟨hstatus, houtlier, -, h⟩ |
    ⟨hstatus, houtlier, e, -, -, -, h⟩
  · refine ⟨?_, hreset, ?_, ?_, hcount, ?_, ?_⟩
    · exact iff_of_true (congrArg Prod.fst h) (hs.status.mp hstatus)
    · simp [h]
    · simp [h]
    · simp [h]
    · intro _
      simp only [measure, h]
      rfl
  · refine ⟨?_, hreset, ?_, ?_, hcount, ?_, ?_⟩
    · exact iff_of_false (by simp [h]) (mt hs.status.mpr hstatus)
    · simp [h, houtlier]
    · simp [h, houtlier]
    · intro _
      simp only [measure, h]
    · simp [h]
  · refine ⟨?_, hreset, ?_, ?_, hcount, ?_, ?_⟩
    · exact iff_of_false (by simp [h]) (mt hs.status.mpr hstatus)
    · simp [h]
    · simp [h, houtlier]
    · intro _
      simp only [measure, h]
    · simp [h]
  · refine ⟨?_, hreset, ?_, ?_, hcount, ?_, ?_⟩
    · exact iff_of_false (by simp [h]) (mt hs.status.mpr hstatus)
    · simp [h, houtlier]
    · simp [h, houtlier]
    · simp [h]
    · simp [h]

theorem follows_initial (cfg : FreqEstConfig) :
    Follows cfg.outlierResyncCount (initial cfg) := by
  refine ⟨rfl, iff_of_true rfl (Or.inl rfl), ?_, ?_⟩
  · intro hstatus
    exact absurd rfl hstatus
  · intro hstatus
    exact absurd rfl hstatus

/-- Every result of the estimator, and the state after it, follows from which
measurements were outliers. -/
theorem byHistory_run (cfg : FreqEstConfig) (hresync : 0 < cfg.outlierResyncCount)
    (measurements : List Measurement) :
    Along measure (ByHistory cfg.outlierResyncCount) (initial cfg) measurements :=
  along_of_step_invariant (P := Follows cfg.outlierResyncCount) (follows_measure hresync)
    (byHistory_measure hresync) (follows_initial cfg) measurements

/-- The measurements are the calls of an estimator that looks for outliers, with
what its own tests say of them. -/
def observed : FreqEst → List (UInt64 × UInt64 × Int16) → List Measurement
  | _, [] => []
  | e, (localTime, refTime, input) :: calls =>
      ⟨localTime, refTime, input, predictsOutlier e localTime refTime input⟩ ::
        observed (freqEstUpdate e localTime refTime input).2 calls

theorem freqEstUpdateWith_config (detects outlier : Bool) (e : FreqEst)
    (localTime refTime : UInt64) (input : Int16) :
    (freqEstUpdateWith detects outlier e localTime refTime input).2.config = e.config := by
  simp only [freqEstUpdateWith]
  split
  · rfl
  · split
    · split
      · simp only [freqEstOutlier]
        split <;> rfl
      · rfl
    · rfl

theorem run_observed (s : Estimator) (hdetects : s.est.config.outlierThreshold > 0)
    (calls : List (UInt64 × UInt64 × Int16)) :
    (run measure s (observed s.est calls)).est =
      calls.foldl (fun e call => (freqEstUpdate e call.1 call.2.1 call.2.2).2) s.est := by
  induction calls generalizing s with
  | nil => rfl
  | cons call calls ih =>
      obtain ⟨localTime, refTime, input⟩ := call
      have hupdate : (measure s ⟨localTime, refTime, input,
          predictsOutlier s.est localTime refTime input⟩).est =
          (freqEstUpdate s.est localTime refTime input).2 := by
        rw [freqEstUpdate_eq_with, decide_eq_true hdetects]
        rfl
      have hconfig : (freqEstUpdate s.est localTime refTime input).2.config = s.est.config := by
        rw [freqEstUpdate_eq_with]
        exact freqEstUpdateWith_config _ _ _ _ _ _
      simp only [observed, run_cons, List.foldl_cons]
      rw [← hupdate] at hconfig ⊢
      exact ih _ (hconfig ▸ hdetects)

/-- The configuration of the clock of the central, which resyncs after five
outliers. -/
theorem byHistory_run_fiveOutliers :
    let cfg : FreqEstConfig := ⟨16000000, 0, 0, 256, 390625, 1000000, 20, 5⟩
    Along measure (ByHistory 5) (initial cfg)
      (⟨100, 40, 0, true⟩ :: List.replicate 6 ⟨200, 10, 0, true⟩) := by
  intro cfg
  exact byHistory_run cfg (by decide) _

end ZeusLe.FreqResync
